import HostRouting.Proofs.Binary64.Rounding

/-!
# Sums of numbers

A sum whose exact value needs no rounding has that value (`units?_add`). Sums of numbers that are
not negative keep their order when they are rounded (`add_le_add`), so leaving numbers out of such a
sum does not increase it (`sum_le_sum_of_sublist`).
-/

namespace HostRouting

namespace Binary64

/-! ## Exact sums -/

/-- The exact sum of two finite numbers needs no rounding. -/
def ExactSum : Binary64 → Binary64 → Prop
  | .finite s m, .finite t n => Representable (signedUnits s m + signedUnits t n).natAbs
  | _, _ => False

instance : (x y : Binary64) → Decidable (ExactSum x y)
  | .finite .., .finite .. => inferInstanceAs (Decidable (Representable _))
  | .nan, _ | .infinity _, _ | .finite .., .nan | .finite .., .infinity _ =>
    .isFalse (by rintro ⟨⟩)

theorem units?_zero (s : Bool) : (zero s).units? = some 0 := by
  cases s <;> rfl

theorem units?_ofUnits {a : Int} (h : Representable a.natAbs) : (ofUnits a).units? = some a := by
  unfold ofUnits
  rw [ofQuotient_of_roundUnits _ h (roundUnits_of_representable h)]
  unfold units? signedUnits
  by_cases ha : a < 0
  · rw [decide_eq_true ha]
    exact congrArg some (show -(a.natAbs : Int) = a by omega)
  · rw [decide_eq_false ha]
    exact congrArg some (show (a.natAbs : Int) = a by omega)

theorem units?_add {x y : Binary64} (h : ExactSum x y) :
    ∃ a b, x.units? = some a ∧ y.units? = some b ∧ (x + y).units? = some (a + b) := by
  rcases x with _ | _ | ⟨s, m⟩
  · exact h.elim
  · exact h.elim
  rcases y with _ | _ | ⟨t, n⟩
  · exact h.elim
  · exact h.elim
  refine ⟨signedUnits s m, signedUnits t n, rfl, rfl, ?_⟩
  show (if signedUnits s m + signedUnits t n = 0 then zero (s && t)
    else ofUnits (signedUnits s m + signedUnits t n)).units? = _
  split
  next h0 => rw [units?_zero, h0]
  next => exact units?_ofUnits h

theorem natAbs_signedUnits (s : Bool) (m : Magnitude) : (signedUnits s m).natAbs = m.units := by
  cases s <;> simp [signedUnits]

theorem representable_of_units? {x : Binary64} {a : Int} (h : x.units? = some a) :
    Representable a.natAbs := by
  rcases x with _ | _ | ⟨s, m⟩
  · exact nomatch h
  · exact nomatch h
  · rw [← Option.some.inj h, natAbs_signedUnits]
    exact m.representable

theorem exactSum_iff {x y : Binary64} {a b : Int} (hx : x.units? = some a)
    (hy : y.units? = some b) : ExactSum x y ↔ Representable (a + b).natAbs := by
  rcases x with _ | _ | ⟨s, m⟩
  · exact nomatch hx
  · exact nomatch hx
  rcases y with _ | _ | ⟨t, n⟩
  · exact nomatch hy
  · exact nomatch hy
  rw [← Option.some.inj hx, ← Option.some.inj hy]
  rfl

/-- A sum that fits has its exact value. -/
theorem units?_add_of_representable {x y : Binary64} {a b : Int} (hx : x.units? = some a)
    (hy : y.units? = some b) (h : Representable (a + b).natAbs) :
    (x + y).units? = some (a + b) := by
  obtain ⟨a', b', ha, hb, hsum⟩ := units?_add ((exactSum_iff hx hy).2 h)
  rw [hsum, Option.some.inj (ha.symm.trans hx), Option.some.inj (hb.symm.trans hy)]

theorem units?_neg (x : Binary64) : (-x).units? = x.units?.map (- ·) := by
  rcases x with _ | _ | ⟨s, m⟩
  · rfl
  · rfl
  · show some (signedUnits (!s) m) = some (-signedUnits s m)
    cases s
    · rfl
    · show some (m.units : Int) = some (-(-(m.units : Int)))
      rw [Int.neg_neg]

theorem zero_eq_finite : (0 : Binary64) = zero false := by
  show ofInt ((0 : Nat) : Int) = zero false
  unfold ofInt ofUnits
  rw [Int.natCast_zero, Int.zero_mul, Int.natAbs_zero]
  rw [ofQuotient_of_roundUnits (u := 0) _ representable_zero
    (roundUnits_of_representable representable_zero)]
  rfl

theorem units?_ofNat_zero : (0 : Binary64).units? = some 0 := by
  rw [zero_eq_finite, units?_zero]

theorem lt_iff_units {x y : Binary64} {a b : Int} (hx : x.units? = some a)
    (hy : y.units? = some b) : x < y ↔ a < b := by
  rcases x with _ | _ | ⟨s, m⟩
  · exact nomatch hx
  · exact nomatch hx
  rcases y with _ | _ | ⟨t, n⟩
  · exact nomatch hy
  · exact nomatch hy
  rw [← Option.some.inj hx, ← Option.some.inj hy]
  show some (compare (signedUnits s m) (signedUnits t n)) = some .lt ↔ _
  rw [Option.some_inj, Int.compare_eq_lt]

theorem units?_atLeastZero_eq_max {x : Binary64} {a : Int} (hx : x.units? = some a) :
    x.atLeastZero.units? = some (max 0 a) := by
  have hpos_iff := lt_iff_units units?_ofNat_zero hx
  unfold atLeastZero
  split
  next hpos => rw [hx, Int.max_eq_right (Int.le_of_lt (hpos_iff.1 hpos))]
  next hpos =>
    rw [units?_ofNat_zero, Int.max_eq_left (Int.not_lt.1 ((not_congr hpos_iff).1 hpos))]

/-- A finite number that is not below zero is at least zero already. -/
theorem units?_atLeastZero {x : Binary64} {a : Int} (hx : x.units? = some a) (h : ¬x < 0) :
    x.atLeastZero.units? = some a := by
  have hnonneg : ¬a < 0 := (not_congr (lt_iff_units hx units?_ofNat_zero)).1 h
  rw [units?_atLeastZero_eq_max hx, Int.max_eq_right (Int.not_lt.1 hnonneg)]

/-! ## Sums of numbers that are not negative -/

/-- The units of a number that is not negative, and those of the overflow for the infinity. -/
def level : Binary64 → Nat
  | .finite _ m => m.units
  | _ => overflowUnits

theorem nonneg_finite_iff {s : Bool} {m : Magnitude} : 0 ≤ finite s m ↔ 0 ≤ signedUnits s m := by
  rw [zero_eq_finite]
  show some (compare (0 : Int) (signedUnits s m)) = some .lt ∨
    some (compare (0 : Int) (signedUnits s m)) = some .eq ↔ _
  rw [Option.some_inj, Option.some_inj, Int.compare_eq_lt, Int.compare_eq_eq]
  omega

/-- A number that is not negative is the positive infinity or finite with a count that is not. -/
theorem nonneg_cases {x : Binary64} (h : 0 ≤ x) :
    x = .infinity false ∨ ∃ s m, x = .finite s m ∧ signedUnits s m = m.units := by
  rcases x with _ | s | ⟨s, m⟩
  · rw [zero_eq_finite] at h
    rcases h with h | h <;> exact nomatch h
  · cases s with
    | false => exact .inl rfl
    | true =>
      rw [zero_eq_finite] at h
      rcases h with h | h <;> exact nomatch h
  · refine .inr ⟨s, m, rfl, ?_⟩
    have hle := nonneg_finite_iff.1 h
    unfold signedUnits at hle ⊢
    split at hle
    next hs =>
      rw [if_pos hs]
      omega
    next hs => rw [if_neg hs]

theorem level_of_units? {x : Binary64} {n : Nat} (h : x.units? = some (n : Int)) :
    x.level = n := by
  rcases x with _ | _ | ⟨s, m⟩
  · exact nomatch h
  · exact nomatch h
  · have hunits := natAbs_signedUnits s m
    rw [Option.some.inj h, Int.natAbs_natCast] at hunits
    exact hunits.symm

theorem isFinite_of_units? {x : Binary64} {a : Int} (h : x.units? = some a) :
    x.isFinite = true := by
  rcases x with _ | _ | _
  · exact nomatch h
  · exact nomatch h
  · rfl

theorem units?_of_isFinite {x : Binary64} (hfinite : x.isFinite = true) (hx : 0 ≤ x) :
    x.units? = some (x.level : Int) := by
  rcases nonneg_cases hx with rfl | ⟨s, m, rfl, hm⟩
  · exact nomatch hfinite
  · exact congrArg some hm

theorem le_iff_level {x y : Binary64} (hx : 0 ≤ x) (hy : 0 ≤ y) : x ≤ y ↔ x.level ≤ y.level := by
  rcases nonneg_cases hx with rfl | ⟨s, m, rfl, hm⟩ <;>
    rcases nonneg_cases hy with rfl | ⟨t, n, rfl, hn⟩
  · exact ⟨fun _ => Nat.le_refl _, fun _ => .inr rfl⟩
  · refine ⟨fun h => ?_, fun h => ?_⟩
    · rcases h with h | h <;> exact nomatch h
    · exact absurd n.representable.1 (Nat.not_lt.2 h)
  · exact ⟨fun _ => Nat.le_of_lt m.representable.1, fun _ => .inl rfl⟩
  · show some (compare (signedUnits s m) (signedUnits t n)) = some .lt ∨
      some (compare (signedUnits s m) (signedUnits t n)) = some .eq ↔ m.units ≤ n.units
    rw [hm, hn, Option.some_inj, Option.some_inj, Int.compare_eq_lt, Int.compare_eq_eq]
    omega

theorem le_roundUnits_of_overflow {u : Nat} (h : overflowUnits ≤ u) :
    overflowUnits ≤ roundUnits u 1 := by
  obtain ⟨n, hn, -⟩ := overflowUnits_eq_two_pow
  refine Nat.le_trans ?_ (roundUnits_mono h)
  rw [hn]
  exact two_pow_le_roundUnits (Nat.le_refl _) (by rw [Nat.log2_two_pow]; omega)

theorem ofUnits_natCast (u : Nat) :
    0 ≤ ofUnits (u : Int) ∧ (ofUnits (u : Int)).level = min (roundUnits u 1) overflowUnits := by
  unfold ofUnits ofQuotient
  rw [decide_eq_false (by omega), Int.natAbs_natCast]
  split
  next h =>
    exact ⟨nonneg_finite_iff.2 (Int.natCast_nonneg _), (Nat.min_eq_left (Nat.le_of_lt h)).symm⟩
  next h =>
    refine ⟨?_, (Nat.min_eq_right (Nat.le_of_not_lt h)).symm⟩
    rw [zero_eq_finite]
    exact .inl rfl

/-- The sum of numbers that are not negative is the rounded sum of their units. -/
theorem add_spec {x y : Binary64} (hx : 0 ≤ x) (hy : 0 ≤ y) :
    0 ≤ x + y ∧ (x + y).level = min (roundUnits (x.level + y.level) 1) overflowUnits := by
  have hinfinity : 0 ≤ infinity false := by
    rw [zero_eq_finite]
    exact .inl rfl
  have hover {u : Nat} (h : overflowUnits ≤ u) :
      overflowUnits = min (roundUnits u 1) overflowUnits :=
    (Nat.min_eq_right (le_roundUnits_of_overflow h)).symm
  rcases nonneg_cases hx with rfl | ⟨s, m, rfl, hm⟩ <;>
    rcases nonneg_cases hy with rfl | ⟨t, n, rfl, hn⟩
  · exact ⟨hinfinity, hover (Nat.le_add_right _ _)⟩
  · exact ⟨hinfinity, hover (Nat.le_add_right _ _)⟩
  · exact ⟨hinfinity, hover (Nat.le_add_left _ _)⟩
  · have hsum : signedUnits s m + signedUnits t n = ((m.units + n.units : Nat) : Int) := by
      rw [hm, hn, Int.natCast_add]
    show 0 ≤ (if signedUnits s m + signedUnits t n = 0 then zero (s && t)
        else ofUnits (signedUnits s m + signedUnits t n)) ∧
      (if signedUnits s m + signedUnits t n = 0 then zero (s && t)
        else ofUnits (signedUnits s m + signedUnits t n)).level = _
    split
    next h0 =>
      refine ⟨?_, ?_⟩
      · rw [zero_eq_finite]
        cases s && t <;> exact .inr rfl
      · have : m.units + n.units = 0 := by omega
        show 0 = min (roundUnits (m.units + n.units) 1) overflowUnits
        rw [this, roundUnits_of_representable representable_zero, Nat.zero_min]
    next =>
      rw [hsum]
      exact ofUnits_natCast _

theorem add_nonneg {x y : Binary64} (hx : 0 ≤ x) (hy : 0 ≤ y) : 0 ≤ x + y := (add_spec hx hy).1

/-- Rounding keeps the order of sums. -/
theorem add_le_add {x x' y y' : Binary64} (hx : 0 ≤ x) (hy : 0 ≤ y) (hx' : 0 ≤ x') (hy' : 0 ≤ y')
    (h : x ≤ x') (h' : y ≤ y') : x + y ≤ x' + y' := by
  rw [le_iff_level (add_nonneg hx hy) (add_nonneg hx' hy'), (add_spec hx hy).2,
    (add_spec hx' hy').2]
  have := roundUnits_mono
    (Nat.add_le_add ((le_iff_level hx hx').1 h) ((le_iff_level hy hy').1 h'))
  omega

theorem beq_self {x : Binary64} (hx : 0 ≤ x) : (x == x) = true := by
  rcases nonneg_cases hx with rfl | ⟨s, m, rfl, -⟩
  · rfl
  · show (some (compare (signedUnits s m) (signedUnits s m)) == some .eq) = true
    rw [Int.compare_eq_eq.2 rfl]
    rfl

theorem le_refl {x : Binary64} (hx : 0 ≤ x) : x ≤ x := (le_iff_level hx hx).2 (Nat.le_refl _)

theorem nonneg_of_le {x y : Binary64} (hx : 0 ≤ x) (h : x ≤ y) : 0 ≤ y := by
  rcases nonneg_cases hx with rfl | ⟨s, m, rfl, hm⟩ <;> rcases y with _ | t | ⟨t, n⟩
  · rcases h with h | h <;> exact nomatch h
  · cases t with
    | false => exact hx
    | true => rcases h with h | h <;> exact nomatch h
  · rcases h with h | h <;> exact nomatch h
  · rcases h with h | h <;> exact nomatch h
  · cases t with
    | false =>
      rw [zero_eq_finite]
      exact .inl rfl
    | true => rcases h with h | h <;> exact nomatch h
  · rw [nonneg_finite_iff]
    have hle : signedUnits s m ≤ signedUnits t n := by
      rcases h with h | h
      · exact Int.le_of_lt (Int.compare_eq_lt.1 (Option.some.inj h))
      · exact Int.le_of_eq (Int.compare_eq_eq.1 (Option.some.inj h))
    omega

theorem le_trans {x y z : Binary64} (hx : 0 ≤ x) (h : x ≤ y) (h' : y ≤ z) : x ≤ z := by
  have hy := nonneg_of_le hx h
  have hz := nonneg_of_le hy h'
  exact (le_iff_level hx hz).2
    (Nat.le_trans ((le_iff_level hx hy).1 h) ((le_iff_level hy hz).1 h'))

theorem roundUnits_level (x : Binary64) : min (roundUnits x.level 1) overflowUnits = x.level := by
  rcases x with _ | _ | ⟨s, m⟩
  · exact Nat.min_eq_right (le_roundUnits_of_overflow (Nat.le_refl _))
  · exact Nat.min_eq_right (le_roundUnits_of_overflow (Nat.le_refl _))
  · show min (roundUnits m.units 1) overflowUnits = m.units
    rw [roundUnits_of_representable m.representable]
    exact Nat.min_eq_left (Nat.le_of_lt m.representable.1)

/-- Adding a number that is not negative does not decrease a sum. -/
theorem le_add {x y : Binary64} (hx : 0 ≤ x) (hy : 0 ≤ y) : x ≤ x + y := by
  rw [le_iff_level hx (add_nonneg hx hy), (add_spec hx hy).2]
  have hx := roundUnits_level x
  have := roundUnits_mono (Nat.le_add_right x.level y.level)
  omega

theorem zero_nonneg : (0 : Binary64) ≤ 0 := by
  rw [zero_eq_finite]
  exact .inr rfl

theorem foldl_add_nonneg {xs : List Binary64} (hxs : ∀ x ∈ xs, 0 ≤ x) {a : Binary64} (ha : 0 ≤ a) :
    0 ≤ xs.foldl (· + ·) a := by
  induction xs generalizing a with
  | nil => exact ha
  | cons x xs ih =>
    exact ih (fun y hy => hxs y (List.mem_cons_of_mem _ hy))
      (add_nonneg ha (hxs x List.mem_cons_self))

theorem foldl_add_le_of_sublist {xs ys : List Binary64} (h : xs.Sublist ys)
    (hys : ∀ y ∈ ys, 0 ≤ y) {a b : Binary64} (ha : 0 ≤ a) (hb : 0 ≤ b) (hab : a ≤ b) :
    xs.foldl (· + ·) a ≤ ys.foldl (· + ·) b := by
  induction h generalizing a b with
  | slnil => exact hab
  | cons y _ ih =>
    have hy := hys y List.mem_cons_self
    exact ih (fun z hz => hys z (List.mem_cons_of_mem _ hz)) ha (add_nonneg hb hy)
      (le_trans ha hab (le_add hb hy))
  | cons_cons y _ ih =>
    have hy := hys y List.mem_cons_self
    exact ih (fun z hz => hys z (List.mem_cons_of_mem _ hz)) (add_nonneg ha hy) (add_nonneg hb hy)
      (add_le_add ha hy hb hy hab (le_refl hy))

/-- A part of a list of numbers that are not negative has no larger sum. -/
theorem sum_le_sum_of_sublist {xs ys : List Binary64} (h : xs.Sublist ys)
    (hys : ∀ y ∈ ys, 0 ≤ y) : sum xs ≤ sum ys :=
  foldl_add_le_of_sublist h hys zero_nonneg zero_nonneg zero_nonneg

theorem sum_nonneg {xs : List Binary64} (hxs : ∀ x ∈ xs, 0 ≤ x) : 0 ≤ sum xs :=
  foldl_add_nonneg hxs zero_nonneg

end Binary64

end HostRouting
