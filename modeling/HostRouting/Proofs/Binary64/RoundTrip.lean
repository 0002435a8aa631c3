import HostRouting.Binary64.Writer
import HostRouting.Network.Link
import HostRouting.Proofs.Binary64.Rounding

/-!
# The decimal text of a number reads back as the number

1. A decimal that lies between the midpoints to the neighbours of a count of units is rounded to
   that count (`roundUnits_of_readsBack`).
2. The search for the fewest digits ends with such a decimal (`candidate?_shortest`), since every
   count of units is a whole number of `10 ^ -1074`.
3. The positional text of a decimal is read as the decimal (`unsignedDecimal?_positional`).

Main fact: `numberOfText?_text`.
-/

namespace HostRouting

namespace Magnitude

/-! ## Decimals that read back -/

/-- What `ReadsBack` says with the gap multiplied out. -/
theorem readsBack_bounds {u num den gap k : Nat} (hg : gapAt u = gap) (hk : u / gap = k)
    (h : ReadsBack u num den) :
    4 * (u * den) ≤ 4 * num + 2 * (gap * den) ∧ 4 * num ≤ 4 * (u * den) + 2 * (gap * den) ∧
      (4 * (u * den) = 4 * num + 2 * (gap * den) → 0 < gap * den → k % 2 = 0) ∧
      (4 * num = 4 * (u * den) + 2 * (gap * den) → k % 2 = 0) ∧
      (u = 2 ^ u.log2 → 52 < u.log2 → 4 * (u * den) ≤ 4 * num + gap * den) := by
  unfold ReadsBack lowerQuarters upperQuarters at h
  rw [hg, hk, Nat.one_shiftLeft, Nat.add_mul, Nat.mul_assoc, Nat.mul_assoc] at h
  by_cases hb : u = 2 ^ u.log2 ∧ 52 < u.log2
  · rw [if_pos hb, Nat.sub_mul, Nat.mul_assoc] at h
    split at h <;> refine ⟨?_, ?_, ?_, ?_, ?_⟩ <;> omega
  · rw [if_neg hb, Nat.sub_mul, Nat.mul_assoc, Nat.mul_assoc] at h
    split at h <;> refine ⟨?_, ?_, ?_, ?_, fun h1 h2 => absurd ⟨h1, h2⟩ hb⟩ <;> omega

/-- A decimal that reads back as a count of units is rounded to it. -/
theorem roundUnits_of_readsBack {u num den : Nat} (hu : Representable u) (hden : 0 < den)
    (h : ReadsBack u num den) : roundUnits num den = u := by
  obtain ⟨gap, hg⟩ : ∃ gap, gapAt u = gap := ⟨_, rfl⟩
  have hpos : 0 < gap := hg ▸ gapAt_pos u
  have hw : 0 < gap * den := Nat.mul_pos hpos hden
  obtain ⟨k, hk⟩ := hu.2
  rw [hg, Nat.mul_comm] at hk
  have hkg : u / gap = k := by rw [hk]; exact Nat.mul_div_cancel k hpos
  have hud : k * (den * gap) = u * den := by rw [hk, Nat.mul_assoc, Nat.mul_comm den]
  obtain ⟨hl, hr, hle, hre, hpow⟩ := readsBack_bounds hg hkg h
  by_cases hbelow : num < u * den
  · have hq : num / den < u := (Nat.div_lt_iff_lt_mul hden).2 hbelow
    have hqlow : u - gap ≤ num / den := by
      refine (Nat.le_div_iff_mul_le hden).2 ?_
      rw [Nat.sub_mul]
      omega
    by_cases hb : u = 2 ^ u.log2 ∧ 52 < u.log2
    · -- Below a power of two the neighbours are twice as dense.
      obtain ⟨hb, hlog⟩ := hb
      obtain ⟨e, he⟩ : ∃ e, u.log2 = 53 + e := ⟨u.log2 - 53, by omega⟩
      have hgap : gap = 2 ^ (e + 1) := by
        rw [← hg, gapAt_eq_two_pow, he, show 53 + e - 52 = e + 1 by omega]
      have hup : u = 2 ^ 53 * 2 ^ e := by rw [← Nat.pow_add, ← he]; exact hb
      have hhalf : gap * den = 2 * (den * 2 ^ e) := by
        rw [hgap, Nat.pow_succ, Nat.mul_comm _ 2, Nat.mul_assoc, Nat.mul_comm den]
      have hud' : 2 ^ 53 * (den * 2 ^ e) = u * den := by
        rw [hup, Nat.mul_assoc, Nat.mul_comm den]
      have hq' : gapAt (num / den) = 2 ^ e := by
        refine gapAt_below_two_pow ?_ ?_
        · rw [← he, ← hb]
          exact hq
        · rw [← he, ← hb, ← hgap]
          omega
      have := hpow hb hlog
      rw [roundUnits_eq_mul hden hq' (k := 2 ^ 53), ← hup]
      · rw [hud']; omega
      · rw [hud']; omega
      · exact fun _ => rfl
      · exact fun _ => rfl
    · have hq' : gapAt (num / den) = gap := by
        rw [← hg]
        exact gapAt_of_lt_self hu.2 hq (by omega) hb
      rw [roundUnits_eq_mul hden hq' (k := k), ← hk] <;> rw [hud, Nat.mul_comm den] <;> omega
  · have hq : u ≤ num / den := (Nat.le_div_iff_mul_le hden).2 (by omega)
    have hqhigh : num / den < u + gap := by
      refine (Nat.div_lt_iff_lt_mul hden).2 ?_
      rw [Nat.add_mul]
      omega
    have hq' : gapAt (num / den) = gap := by
      rw [← hg]
      exact gapAt_of_le hu.2 hq (by omega)
    rw [roundUnits_eq_mul hden hq' (k := k), ← hk] <;> rw [hud, Nat.mul_comm den] <;> omega

/-! ## The search -/

theorem one_shiftLeft_dvd_ten_pow (n : Nat) : 1 <<< n ∣ Nat.pow 10 n := by
  show 1 <<< n ∣ (2 * 5) ^ n
  rw [Nat.one_shiftLeft, Nat.mul_pow]
  exact Nat.dvd_mul_right _ _

/-- What the search finds reads back. -/
theorem readsBack_of_candidate? {u d : Nat} {e : Int} (h : candidate? u e = some d) :
    ReadsBack u (d * (Nat.pow 10 e.toNat * unitsPerOne)) (Nat.pow 10 (-e).toNat) := by
  unfold candidate? at h
  dsimp only at h
  split at h
  next hfits => exact Option.some.inj h ▸ hfits.1
  next =>
    split at h
    next hfits => exact Option.some.inj h ▸ hfits
    next => exact absurd h (by simp)

/-- Every count of units reads back from itself. -/
theorem readsBack_self {u den : Nat} (h0 : u ≠ 0) (hden : 0 < den) : ReadsBack u (u * den) den := by
  have hgap := gapAt_pos u
  have hgd := Nat.mul_pos hgap hden
  unfold ReadsBack lowerQuarters upperQuarters
  split <;> split <;> rw [Nat.sub_mul, Nat.add_mul, Nat.mul_assoc, Nat.mul_assoc] <;>
    have := Nat.mul_pos (Nat.pos_of_ne_zero h0) hden <;> omega

theorem candidate?_of_dvd {u : Nat} {e : Int} (h0 : u ≠ 0)
    (h : Nat.pow 10 e.toNat * unitsPerOne ∣ u * Nat.pow 10 (-e).toNat) :
    (candidate? u e).isSome = true := by
  obtain ⟨d, hd⟩ := h
  have hten (n : Nat) : 0 < Nat.pow 10 n := Nat.pow_pos (by decide)
  have hden : 0 < Nat.pow 10 e.toNat * unitsPerOne := Nat.mul_pos (hten _) (one_shiftLeft_pos _)
  have hbelow : u * Nat.pow 10 (-e).toNat / (Nat.pow 10 e.toNat * unitsPerOne) = d := by
    rw [hd]
    exact Nat.mul_div_cancel_left d hden
  have hfits : ReadsBack u (d * (Nat.pow 10 e.toNat * unitsPerOne)) (Nat.pow 10 (-e).toNat) := by
    rw [Nat.mul_comm d, ← hd]
    exact readsBack_self h0 (hten _)
  unfold candidate?
  dsimp only
  rw [hbelow, if_pos hfits]
  split <;> rfl

/-- A unit is a whole number of `10 ^ -n`, so a search goes no further. -/
theorem candidate?_last {u n : Nat} (h0 : u ≠ 0) (hn : unitsPerOne = 1 <<< n) :
    (candidate? u (-(n : Int))).isSome = true := by
  refine candidate?_of_dvd h0 (Nat.dvd_trans ?_ (Nat.dvd_mul_left _ _))
  rw [Int.toNat_neg_natCast, Int.neg_neg, Int.toNat_natCast, hn]
  show 1 * 1 <<< n ∣ Nat.pow 10 n
  rw [Nat.one_mul]
  exact one_shiftLeft_dvd_ten_pow n

theorem candidate?_shortest {u : Nat} (h0 : u ≠ 0) :
    candidate? u (shortest u).2 = some (shortest u).1 := by
  unfold shortest
  dsimp only
  obtain ⟨top, htop⟩ : ∃ top, (u / unitsPerOne).log2 / 3 + 1 = top := ⟨_, rfl⟩
  rw [htop]
  cases hs : (List.range (top + 1075)).findSome? fun i : Nat =>
      (candidate? u (top - i)).map fun digits => (digits, (top : Int) - i) with
  | some found =>
    obtain ⟨i, -, hi⟩ := List.exists_of_findSome?_eq_some hs
    obtain ⟨d, hd, rfl⟩ := Option.map_eq_some_iff.1 hi
    exact hd
  | none =>
    -- The last exponent of the range is `-1074`.
    have hlast := List.findSome?_eq_none_iff.1 hs (top + 1074) (List.mem_range.2 (by omega))
    rw [Option.map_eq_none_iff,
      show (top : Int) - (top + 1074 : Nat) = -(1074 : Nat) by omega] at hlast
    have := candidate?_last h0 (show unitsPerOne = 1 <<< 1074 from rfl)
    rw [hlast] at this
    exact absurd this (by decide)

end Magnitude

open Magnitude

/-! ## Reading the decimal -/

namespace Binary64

/-- A decimal that reads back as a number other than zero has digits. -/
theorem digits_pos_of_readsBack {u d scale den : Nat} (hu : Representable u) (h0 : u ≠ 0)
    (hden : 0 < den) (h : ReadsBack u (d * scale) den) : d ≠ 0 := by
  rintro rfl
  obtain ⟨hl, -⟩ := readsBack_bounds rfl rfl h
  have hgap : gapAt u ≤ u := Nat.le_of_dvd (Nat.pos_of_ne_zero h0) hu.2
  have := Nat.mul_le_mul_right den hgap
  have := Nat.mul_pos (Nat.pos_of_ne_zero h0) hden
  rw [Nat.zero_mul] at hl
  omega

/-- It is not so small that its power is taken to be out of range. -/
theorem neg_400_le_of_readsBack {u d m : Nat} (hu : Representable u) (h0 : u ≠ 0)
    (h : ReadsBack u (d * unitsPerOne) (Nat.pow 10 m)) : m ≤ d.log2 + 400 := by
  have hten : 0 < Nat.pow 10 m := Nat.pow_pos (by decide)
  have hd := digits_pos_of_readsBack hu h0 hten h
  obtain ⟨hl, -⟩ := readsBack_bounds rfl rfl h
  have hgap := Nat.mul_le_mul_right (Nat.pow 10 m) (Nat.le_of_dvd (Nat.pos_of_ne_zero h0) hu.2)
  have hone := Nat.mul_le_mul_right (Nat.pow 10 m) (Nat.pos_of_ne_zero h0)
  have hupper : Nat.pow 10 m ≤ 2 * (d * unitsPerOne) := by omega
  apply Nat.le_of_not_lt
  intro hlt
  -- The digits stay below `2 ^ (m - 400)` and `10 ^ m` is at least `2 ^ (3 * m)`.
  have hdlt : d < 2 ^ (m - 400) :=
    Nat.lt_of_lt_of_le Nat.lt_log2_self (Nat.pow_le_pow_right (by decide) (by omega))
  have hpow : 2 ^ (3 * m) ≤ Nat.pow 10 m := by
    rw [Nat.pow_mul]
    exact Nat.pow_le_pow_left (by decide) m
  obtain ⟨n, hn, hsmall⟩ := unitsPerOne_eq_two_pow
  have hprod : d * unitsPerOne ≤ 2 ^ (m - 400 + n) := by
    rw [hn, Nat.pow_add]
    exact Nat.mul_le_mul_right _ (Nat.le_of_lt hdlt)
  have hexp : 2 ^ (3 * m) ≤ 2 ^ (m - 400 + n + 1) := by
    rw [Nat.pow_succ]
    omega
  have := (Nat.pow_le_pow_iff_right (show 1 < 2 by decide)).1 hexp
  omega

/-- The decimal that the search finds is read as the number. -/
theorem ofDecimal_of_candidate? {u d : Nat} {e : Int} (s : Bool) (hu : Representable u)
    (h0 : u ≠ 0) (h : candidate? u e = some d) :
    ofDecimal s (d * 10 ^ e.toNat) (min e 0) = .finite s ⟨u, hu⟩ := by
  have hread := readsBack_of_candidate? h
  have hten (n : Nat) : 0 < Nat.pow 10 n := Nat.pow_pos (by decide)
  have hd := digits_pos_of_readsBack hu h0 (hten _) hread
  have hdigits : d * 10 ^ e.toNat ≠ 0 := Nat.mul_ne_zero hd (Nat.pos_iff_ne_zero.1 (hten _))
  unfold ofDecimal
  rw [if_neg hdigits]
  by_cases he : 0 ≤ e
  · rw [show min e 0 = 0 by omega, if_neg (by omega), if_neg (by omega), if_pos (by omega)]
    refine ofQuotient_of_roundUnits s hu (roundUnits_of_readsBack hu (by decide) ?_)
    rw [show (-e).toNat = 0 by omega] at hread
    rw [show (0 : Int).toNat = 0 from rfl, show Nat.pow 10 0 = 1 from rfl, Nat.mul_one,
      Nat.mul_assoc]
    exact hread
  · rw [show e.toNat = 0 by omega, show Nat.pow 10 0 = 1 from rfl, Nat.one_mul] at hread
    have hsize := neg_400_le_of_readsBack hu h0 hread
    rw [show min e 0 = e by omega, show e.toNat = 0 by omega, Nat.pow_zero, Nat.mul_one,
      if_neg (by omega), if_neg (by omega), if_neg he]
    exact ofQuotient_of_roundUnits s hu (roundUnits_of_readsBack hu (hten _) hread)

/-! ## Reading the text -/

theorem decimalDigit?_of_isDigit {c : Char} (h : c.isDigit = true) :
    decimalDigit? c = some (c.toNat - '0'.toNat) := by
  have := Char.isDigit_iff_toNat.1 h
  unfold decimalDigit?
  rw [if_pos]
  exact ⟨Char.le_def.2 (UInt32.le_iff_toNat_le.2 this.1),
    Char.le_def.2 (UInt32.le_iff_toNat_le.2 this.2)⟩

/-- A run of digits is taken as a whole. -/
theorem takeDigits_append {digits : List Char} (hd : ∀ c ∈ digits, c.isDigit = true)
    (rest : List Char) (hr : ∀ c ∈ rest.head?, decimalDigit? c = none) (value count : Nat) :
    takeDigits value count (digits ++ rest) =
      (Nat.ofDigitChars 10 digits value, count + digits.length, rest) := by
  induction digits generalizing value count with
  | nil =>
    cases rest with
    | nil => rfl
    | cons c rest =>
      rw [List.nil_append, takeDigits, hr c rfl]
      rfl
  | cons c digits ih =>
    rw [List.cons_append, takeDigits, decimalDigit?_of_isDigit (hd c List.mem_cons_self)]
    dsimp only
    rw [ih fun c hc => hd c (List.mem_cons_of_mem _ hc), Nat.ofDigitChars_cons,
      Nat.mul_comm value, List.length_cons, Nat.add_right_comm, Nat.add_assoc]

theorem isDigit_of_mem_padded {d n : Nat} {c : Char}
    (h : c ∈ List.replicate n '0' ++ Nat.toDigits 10 d) : c.isDigit = true := by
  rcases List.mem_append.1 h with h | h
  · rw [List.eq_of_mem_replicate h]
    rfl
  · exact Nat.isDigit_of_mem_toDigits (by decide) (by decide) h

theorem ofDigitChars_padded (d n : Nat) :
    Nat.ofDigitChars 10 (List.replicate n '0' ++ Nat.toDigits 10 d) 0 = d := by
  rw [Nat.ofDigitChars_append, Nat.ofDigitChars_replicate_zero, Nat.mul_zero,
    Nat.ofDigitChars_ten_toDigits]

/-- The positional text of a decimal is read as the decimal. -/
theorem unsignedDecimal?_positional (s : Bool) (d : Nat) (e : Int) :
    unsignedDecimal? s (positional d e).toList =
      some (ofDecimal s (d * 10 ^ e.toNat) (min e 0)) := by
  have hlen : 0 < (Nat.toDigits 10 d).length := List.length_pos_iff.2 Nat.toDigits_ne_nil
  unfold positional
  dsimp only
  split
  next he =>
    -- Zeros after the digits multiply by a power of ten.
    rw [String.toList_ofList]
    have hdigit : ∀ c ∈ Nat.toDigits 10 d ++ List.replicate e.toNat '0', c.isDigit = true :=
      fun c hc => isDigit_of_mem_padded (List.mem_append.2 (List.mem_append.1 hc).symm)
    have htake := takeDigits_append hdigit [] (by simp) 0 0
    rw [List.append_nil] at htake
    unfold unsignedDecimal?
    rw [htake]
    dsimp only
    rw [if_neg (by rw [List.length_append]; omega), Nat.ofDigitChars_append,
      Nat.ofDigitChars_ten_toDigits, Nat.ofDigitChars_replicate_zero, Nat.mul_comm,
      show min e 0 = 0 by omega]
    rfl
  next he =>
    rw [String.toList_ofList]
    obtain ⟨places, hplaces⟩ : ∃ places, (-e).toNat = places := ⟨_, rfl⟩
    rw [hplaces]
    obtain ⟨padded, hpadded⟩ : ∃ padded,
        List.replicate (places + 1 - (Nat.toDigits 10 d).length) '0' ++ Nat.toDigits 10 d =
          padded := ⟨_, rfl⟩
    have hdigit : ∀ c ∈ padded, c.isDigit = true := by
      intro c hc
      exact isDigit_of_mem_padded (hpadded ▸ hc)
    have hlong : places + 1 ≤ padded.length := by
      rw [← hpadded, List.length_append, List.length_replicate]
      omega
    rw [hpadded]
    have htaken : ∀ c ∈ padded.take (padded.length - places), c.isDigit = true :=
      fun c hc => hdigit c (List.mem_of_mem_take hc)
    have hdropped : ∀ c ∈ padded.drop (padded.length - places), c.isDigit = true :=
      fun c hc => hdigit c (List.mem_of_mem_drop hc)
    have hwhole := takeDigits_append htaken ('.' :: padded.drop (padded.length - places))
      (by rintro c ⟨⟩; decide) 0 0
    have hfraction := takeDigits_append hdropped [] (by simp)
      (Nat.ofDigitChars 10 (padded.take (padded.length - places)) 0) 0
    rw [List.append_nil, ← Nat.ofDigitChars_append, List.take_append_drop, ← hpadded,
      ofDigitChars_padded, hpadded] at hfraction
    unfold unsignedDecimal?
    simp only [hwhole, hfraction]
    rw [if_neg (by rw [List.length_take]; omega), List.length_drop,
      show e.toNat = 0 by omega, Nat.pow_zero, Nat.mul_one,
      show min e 0 = 0 - ((0 + (padded.length - (padded.length - places)) : Nat) : Int) by omega]
    rfl

/-- A positional text starts with a digit and has only digits and a point. -/
theorem toList_positional (d : Nat) (e : Int) :
    ∃ c rest, (positional d e).toList = c :: rest ∧ c.isDigit = true ∧
      ∀ x ∈ rest, x.isDigit = true ∨ x = '.' := by
  have hlen : 0 < (Nat.toDigits 10 d).length := List.length_pos_iff.2 Nat.toDigits_ne_nil
  unfold positional
  dsimp only
  split
  next he =>
    rw [String.toList_ofList]
    cases hcs : Nat.toDigits 10 d ++ List.replicate e.toNat '0' with
    | nil => simp_all
    | cons c rest =>
      have hdigit : ∀ x ∈ c :: rest, x.isDigit = true := by
        rw [← hcs]
        exact fun x hx => isDigit_of_mem_padded (List.mem_append.2 (List.mem_append.1 hx).symm)
      exact ⟨c, rest, rfl, hdigit c List.mem_cons_self,
        fun x hx => .inl (hdigit x (List.mem_cons_of_mem _ hx))⟩
  next he =>
    rw [String.toList_ofList]
    obtain ⟨places, hplaces⟩ : ∃ places, (-e).toNat = places := ⟨_, rfl⟩
    rw [hplaces]
    cases hcs : List.replicate (places + 1 - (Nat.toDigits 10 d).length) '0' ++
        Nat.toDigits 10 d with
    | nil => simp_all
    | cons c rest =>
      have hdigit : ∀ x ∈ c :: rest, x.isDigit = true := by
        rw [← hcs]
        exact fun x hx => isDigit_of_mem_padded hx
      have hlong : places + 1 ≤ (c :: rest).length := by
        rw [← hcs, List.length_append, List.length_replicate]
        omega
      obtain ⟨k, hk⟩ : ∃ k, (c :: rest).length - places = k + 1 :=
        ⟨(c :: rest).length - places - 1, by omega⟩
      rw [hk, List.take_succ_cons, List.drop_succ_cons]
      refine ⟨c, rest.take k ++ '.' :: rest.drop k, rfl, hdigit c List.mem_cons_self,
        fun x hx => ?_⟩
      rcases List.mem_append.1 hx with hx | hx
      · exact .inl (hdigit x (List.mem_cons_of_mem _ (List.mem_of_mem_take hx)))
      · rcases List.mem_cons.1 hx with hx | hx
        · exact .inr hx
        · exact .inl (hdigit x (List.mem_cons_of_mem _ (List.mem_of_mem_drop hx)))

theorem not_isBlank_of_isDigit {c : Char} (h : c.isDigit = true) : isBlank c = false := by
  have hc := Char.isDigit_iff_toNat.1 h
  rw [show '0'.toNat = 48 from rfl, show '9'.toNat = 57 from rfl] at hc
  unfold isBlank
  simp only [Bool.or_eq_false_iff, Bool.and_eq_false_iff, decide_eq_false_iff_not]
  omega

theorem trimBlanks_of_not_blank {cs : List Char} (h : ∀ c ∈ cs, isBlank c = false) :
    trimBlanks cs = cs := by
  have hdrop (cs : List Char) (h : ∀ c ∈ cs, isBlank c = false) : cs.dropWhile isBlank = cs := by
    cases cs with
    | nil => rfl
    | cons c rest => exact List.dropWhile_cons_of_neg (by simp [h c List.mem_cons_self])
  unfold trimBlanks
  rw [hdrop cs h, hdrop cs.reverse fun c hc => h c (List.mem_reverse.1 hc), List.reverse_reverse]

/-- A text that starts with a digit is no named value. -/
theorem unsigned?_of_isDigit {c : Char} (hc : c.isDigit = true) (s : Bool) (rest : List Char) :
    unsigned? s (c :: rest) = unsignedDecimal? s (c :: rest) := by
  have hlower : c.toLower.isDigit = true := by
    have := Char.isDigit_iff_toNat.1 hc
    rw [show '0'.toNat = 48 from rfl, show '9'.toNat = 57 from rfl] at this
    unfold Char.toLower
    rw [dif_neg, hc]
    rintro ⟨h, -⟩
    have : 65 ≤ c.toNat := UInt32.le_iff_toNat_le.1 h
    omega
  have hne (word : String) (x : Char) (xs : List Char) (hw : word.toList = x :: xs)
      (hx : x.isDigit = false) : String.ofList ((c :: rest).map Char.toLower) ≠ word := by
    rintro rfl
    rw [String.toList_ofList, List.map_cons] at hw
    rw [← (List.cons.inj hw).1, hlower] at hx
    exact Bool.noConfusion hx
  unfold unsigned?
  dsimp only
  rw [if_neg, if_neg]
  · exact hne "nan" 'n' ['a', 'n'] rfl rfl
  · rintro (h | h)
    · exact hne "inf" 'i' ['n', 'f'] rfl rfl h
    · exact hne "infinity" 'i' ['n', 'f', 'i', 'n', 'i', 't', 'y'] rfl rfl h

theorem trimBlanks_numeral {c : Char} {rest : List Char}
    (h : ∀ x ∈ c :: rest, x.isDigit = true ∨ x = '.' ∨ x = '-') :
    trimBlanks (c :: rest) = c :: rest := by
  apply trimBlanks_of_not_blank
  intro x hx
  rcases h x hx with hd | rfl | rfl
  · exact not_isBlank_of_isDigit hd
  · rfl
  · rfl

end Binary64

/-- The text of a magnitude is a numeral that denotes it. -/
theorem Magnitude.toList_text (m : Magnitude) :
    ∃ c rest, m.text.toList = c :: rest ∧ c.isDigit = true ∧
      (∀ x ∈ rest, x.isDigit = true ∨ x = '.') ∧
      ∀ s, Binary64.unsignedDecimal? s (c :: rest) = some (.finite s m) := by
  obtain ⟨u, hu⟩ := m
  unfold Magnitude.text
  dsimp only
  by_cases h0 : u = 0
  · subst h0
    rw [if_pos rfl]
    refine ⟨'0', [], rfl, rfl, by simp, fun s => ?_⟩
    cases s <;> rfl
  · rw [if_neg h0]
    obtain ⟨c, rest, hcs, hc, hrest⟩ := Binary64.toList_positional (shortest u).1 (shortest u).2
    refine ⟨c, rest, hcs, hc, hrest, fun s => ?_⟩
    rw [← hcs, Binary64.unsignedDecimal?_positional,
      Binary64.ofDecimal_of_candidate? s hu h0 (candidate?_shortest h0)]

/-- The text of every number denotes the number. -/
theorem numberOfText?_text (x : Binary64) : numberOfText? x.text = some x := by
  rcases x with _ | s | ⟨s, m⟩
  · rfl
  · cases s <;> rfl
  · obtain ⟨c, rest, hcs, hc, hrest, hread⟩ := m.toList_text
    have hsign : c ≠ '-' ∧ c ≠ '+' := by
      constructor <;> rintro rfl <;> exact absurd hc (by decide)
    have hchars : ∀ x ∈ c :: rest, x.isDigit = true ∨ x = '.' ∨ x = '-' := by
      intro x hx
      rcases List.mem_cons.1 hx with rfl | hx
      · exact .inl hc
      · exact (hrest x hx).imp_right .inl
    unfold numberOfText? Binary64.text
    dsimp only
    cases s with
    | false =>
      rw [if_neg (by decide), hcs, Binary64.trimBlanks_numeral hchars]
      unfold Binary64.ofText?
      split
      next h => exact absurd (List.cons.inj h).1 hsign.1
      next h => exact absurd (List.cons.inj h).1 hsign.2
      next => rw [Binary64.unsigned?_of_isDigit hc, hread]
    | true =>
      rw [if_pos rfl, String.toList_append, hcs]
      show Binary64.ofText? (trimBlanks ('-' :: c :: rest)) = _
      rw [Binary64.trimBlanks_numeral (by simpa using hchars)]
      show Binary64.unsigned? true (c :: rest) = _
      rw [Binary64.unsigned?_of_isDigit hc, hread]

end HostRouting
