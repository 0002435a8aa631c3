import HostRouting.Proofs.Binary64.Addition
import HostRouting.Routing.Search

/-!
# Comparing numbers

Numbers that are not negative compare as their levels do (`Binary64.compare?_of_nonneg`). A number
that compares with zero and is not below it is not negative (`Binary64.nonneg_of_not_lt`), and a
reciprocal is below zero just for the finite numbers with a sign
(`Binary64.reciprocal_lt_zero_iff`).

As costs, numbers do not exceed themselves (`Binary64.not_exceeds_self`), and just the finite ones
tie with themselves or anything else (`Binary64.ties_self_iff`, `Binary64.isFinite_of_ties`).
-/

namespace HostRouting.Binary64

variable {x y : Binary64}

theorem compare?_of_nonneg (hx : 0 ≤ x) (hy : 0 ≤ y) :
    compare? x y = some (compare x.level y.level) := by
  rcases nonneg_cases hx with rfl | ⟨s, m, rfl, hm⟩ <;>
    rcases nonneg_cases hy with rfl | ⟨t, n, rfl, hn⟩
  · exact congrArg some (Nat.compare_eq_eq.2 rfl).symm
  · exact congrArg some (Nat.compare_eq_gt.2 n.representable.1).symm
  · exact congrArg some (Nat.compare_eq_lt.2 m.representable.1).symm
  · show some (compare (signedUnits s m) (signedUnits t n)) = some (compare m.units n.units)
    rw [hm, hn, Option.some_inj]
    rcases Nat.lt_trichotomy m.units n.units with h | h | h
    · rw [Nat.compare_eq_lt.2 h, Int.compare_eq_lt]
      omega
    · rw [Nat.compare_eq_eq.2 h, Int.compare_eq_eq, h]
    · rw [Nat.compare_eq_gt.2 h, Int.compare_eq_gt]
      omega

/-- Costs that are not negative are served in the order of their levels. -/
theorem order_eq (hx : 0 ≤ x) (hy : 0 ≤ y) :
    PathCost.order x y = compare x.level y.level := by
  show (compare? x y).getD .eq = _
  rw [compare?_of_nonneg hx hy]
  rfl

theorem lt_iff_level (hx : 0 ≤ x) (hy : 0 ≤ y) : x < y ↔ x.level < y.level := by
  show compare? x y = some .lt ↔ _
  rw [compare?_of_nonneg hx hy, Option.some_inj, Nat.compare_eq_lt]

theorem beq_iff : (x == y) = true ↔ compare? x y = some .eq := by
  show (compare? x y == some .eq) = true ↔ _
  exact beq_iff_eq

theorem not_lt_of_beq (h : (x == y) = true) : ¬x < y :=
  fun hlt => nomatch hlt.symm.trans (beq_iff.1 h)

/-! ## Numbers that compare -/

theorem ne_nan_of_le_left (h : x ≤ y) : x ≠ .nan := by
  rintro rfl
  rcases h with h | h <;> exact nomatch h

theorem ne_nan_of_le_right (h : x ≤ y) : y ≠ .nan := by
  rintro rfl
  rcases x with _ | _ | _ <;> rcases h with h | h <;> exact nomatch h

theorem ne_nan_of_lt_right (h : x < y) : y ≠ .nan := by
  rintro rfl
  rcases x with _ | _ | _ <;> exact nomatch h

/-! ## Signs -/

theorem nonneg_of_not_lt (hnan : x ≠ .nan) (h : ¬x < 0) : 0 ≤ x := by
  rw [zero_eq_finite] at h
  rcases x with _ | s | ⟨s, m⟩
  · exact absurd rfl hnan
  · cases s with
    | false =>
      rw [zero_eq_finite]
      exact .inl rfl
    | true => exact absurd rfl h
  · rw [nonneg_finite_iff]
    refine Int.not_lt.1 fun hneg => h ?_
    show some (compare (signedUnits s m) 0) = some .lt
    rw [Option.some_inj, Int.compare_eq_lt]
    exact hneg

theorem not_lt_of_nonneg (h : 0 ≤ x) : ¬x < 0 := by
  have hlevel : (0 : Binary64).level = 0 := by rw [zero_eq_finite]; rfl
  rw [lt_iff_level h zero_nonneg, hlevel]
  exact Nat.not_lt_zero _

/-- A number is positive or at most zero, and not both. -/
theorem pos_iff_not_le_zero (hnan : x ≠ .nan) : 0 < x ↔ ¬x ≤ 0 := by
  rw [zero_eq_finite]
  rcases x with _ | s | ⟨s, m⟩
  · exact absurd rfl hnan
  · cases s with
    | false => exact iff_of_true rfl (by rintro (h | h) <;> exact nomatch h)
    | true => exact iff_of_false nofun (not_not_intro (.inl rfl))
  · show some (compare 0 (signedUnits s m)) = some .lt ↔
      ¬(some (compare (signedUnits s m) 0) = some .lt ∨ some (compare (signedUnits s m) 0) = some .eq)
    simp only [Option.some_inj, Int.compare_eq_lt, Int.compare_eq_eq]
    omega

theorem not_le_zero_of_pos (h : 0 < x) : ¬x ≤ 0 :=
  (pos_iff_not_le_zero (ne_nan_of_lt_right h)).1 h

theorem le_zero_of_not_pos (hnan : x ≠ .nan) (h : ¬0 < x) : x ≤ 0 :=
  Decidable.not_not.1 ((not_congr (pos_iff_not_le_zero hnan)).1 h)

theorem reciprocal_ne_nan (h : x ≠ .nan) : x.reciprocal ≠ .nan := by
  rcases x with _ | s | ⟨s, m⟩
  · exact absurd rfl h
  · simp [reciprocal, zero]
  · simp only [reciprocal, ofQuotient]
    split
    · simp
    · split <;> simp

theorem infinity_lt_zero_iff {s : Bool} : infinity s < 0 ↔ s = true := by
  rw [zero_eq_finite]
  cases s
  · exact iff_of_false nofun Bool.false_ne_true
  · exact iff_of_true rfl rfl

theorem ofQuotient_lt_zero_iff {s : Bool} {num den : Nat} (h : 0 < roundUnits num den) :
    ofQuotient s num den < 0 ↔ s = true := by
  unfold ofQuotient
  split
  · rw [lt_iff_units rfl units?_ofNat_zero]
    cases s
    · exact iff_of_false (Int.not_lt.2 (Int.natCast_nonneg _)) Bool.false_ne_true
    · exact iff_of_true (Int.neg_neg_of_pos (Int.natCast_pos.2 h)) rfl
  · exact infinity_lt_zero_iff

/-- No finite number is so large that its reciprocal is rounded to zero. -/
theorem reciprocal_lt_zero_iff : x.reciprocal < 0 ↔ ∃ m, x = .finite true m := by
  rcases x with _ | s | ⟨s, m⟩
  · rw [zero_eq_finite]
    exact iff_of_false nofun fun ⟨_, h⟩ => nomatch h
  · refine iff_of_false ?_ fun ⟨_, h⟩ => nomatch h
    exact fun h => Int.lt_irrefl _ ((lt_iff_units (units?_zero s) units?_ofNat_zero).1 h)
  · have hsign : (finite s m).reciprocal < 0 ↔ s = true := by
      unfold reciprocal
      dsimp only
      split
      · exact infinity_lt_zero_iff
      next hunits =>
        -- One has so many units that their square is beyond the units of all finite numbers.
        have hlarge : overflowUnits ≤ unitsPerOne * unitsPerOne := by decide +kernel
        have hlt := m.representable.1
        generalize unitsPerOne * unitsPerOne = one at hlarge ⊢
        generalize overflowUnits = limit at hlarge hlt
        have hround : 0 < roundUnits one m.units :=
          roundUnits_pos (Nat.pos_of_ne_zero hunits) (Nat.le_trans (Nat.le_of_lt hlt) hlarge)
        exact ofQuotient_lt_zero_iff hround
    rw [hsign]
    exact ⟨fun hs => ⟨m, hs ▸ rfl⟩, fun ⟨_, h⟩ => (Binary64.finite.inj h).1⟩

/-! ## Costs and themselves -/

/-- Rounding gives nothing below a number that is at most what is rounded. -/
theorem not_ofUnits_lt {s : Bool} {m : Magnitude} {i : Int} (h : signedUnits s m ≤ i) :
    ¬ofUnits i < finite s m := by
  have hself : roundUnits m.units 1 = m.units := roundUnits_of_representable m.representable
  have hbelow : i < 0 → roundUnits i.natAbs 1 ≤ m.units ∧ signedUnits s m = -(m.units : Int) := by
    intro hi
    cases s with
    | false =>
      have hunits : signedUnits false m = m.units := rfl
      omega
    | true =>
      have hunits : signedUnits true m = -(m.units : Int) := rfl
      refine ⟨?_, hunits⟩
      have hround := roundUnits_mono (show i.natAbs ≤ m.units by omega)
      omega
  have habove : 0 ≤ i → signedUnits s m ≤ roundUnits i.natAbs 1 := by
    intro hi
    cases s with
    | false =>
      have hunits : signedUnits false m = m.units := rfl
      have hround := roundUnits_mono (show m.units ≤ i.natAbs by omega)
      omega
    | true =>
      have hunits : signedUnits true m = -(m.units : Int) := rfl
      omega
  unfold ofUnits ofQuotient
  split
  next hfits =>
    rw [lt_iff_units rfl rfl, Int.not_lt]
    by_cases hi : i < 0
    · obtain ⟨hround, hunits⟩ := hbelow hi
      rw [hunits, decide_eq_true hi]
      show -(m.units : Int) ≤ -(roundUnits i.natAbs 1 : Int)
      omega
    · rw [decide_eq_false hi]
      exact habove (Int.not_lt.1 hi)
  next hover =>
    by_cases hi : i < 0
    · have hround := (hbelow hi).1
      have hlimit := m.representable.1
      omega
    · rw [decide_eq_false hi]
      intro hlt
      cases hlt

theorem not_add_lt (hy : 0 ≤ y) : ¬x + y < x := by
  rcases x with _ | s | ⟨s, m⟩
  · intro hlt
    exact nomatch hlt
  · -- An infinity plus something not negative is that infinity or not-a-number.
    rcases nonneg_cases hy with rfl | ⟨t, n, rfl, -⟩
    · cases s <;> intro hlt <;> exact nomatch hlt
    · cases s <;> intro hlt <;> exact nomatch hlt
  · rcases nonneg_cases hy with rfl | ⟨t, n, rfl, hn⟩
    · intro hlt
      exact nomatch hlt
    · show ¬(if signedUnits s m + signedUnits t n = 0 then zero (s && t)
        else ofUnits (signedUnits s m + signedUnits t n)) < finite s m
      split
      next h0 =>
        rw [lt_iff_units (units?_zero _) rfl]
        omega
      next => exact not_ofUnits_lt (by omega)

theorem costTolerance_nonneg : 0 ≤ costTolerance := by decide +kernel

theorem not_exceeds_self (x : Binary64) : ¬PathCost.exceeds x x = true := by
  show ¬decide (x + costTolerance < x) = true
  rw [decide_eq_true_iff]
  exact not_add_lt costTolerance_nonneg

/-- Nothing is at a finite distance from an infinity. -/
theorem abs_sub_of_infinite (h : y.isFinite = false) :
    (x - y).abs = .nan ∨ (x - y).abs = .infinity false := by
  rcases y with _ | t | _
  · rcases x with _ | _ | _ <;> exact .inl rfl
  · rcases x with _ | s | _
    · exact .inl rfl
    · cases s <;> cases t
      · exact .inl rfl
      · exact .inr rfl
      · exact .inr rfl
      · exact .inl rfl
    · exact .inr rfl
  · exact nomatch h

theorem isFinite_of_ties (h : PathCost.ties x y = true) : y.isFinite = true := by
  have hle : (x - y).abs ≤ costTolerance := of_decide_eq_true h
  refine eq_true_of_ne_false fun hy => ?_
  rcases abs_sub_of_infinite (x := x) hy with hnan | hinfinity
  · exact ne_nan_of_le_left hle hnan
  · rw [hinfinity] at hle
    exact absurd hle (by decide +kernel)

theorem ties_self_iff : PathCost.ties x x = true ↔ x.isFinite = true := by
  refine ⟨isFinite_of_ties, fun h => ?_⟩
  rcases x with _ | _ | ⟨s, m⟩
  · exact nomatch h
  · exact nomatch h
  · have hsum : signedUnits s m + signedUnits (!s) m = 0 := by
      cases s
      · exact Int.add_right_neg _
      · exact Int.add_left_neg _
    show decide ((if signedUnits s m + signedUnits (!s) m = 0 then zero (s && !s)
      else ofUnits (signedUnits s m + signedUnits (!s) m)).abs ≤ costTolerance) = true
    rw [if_pos hsum, decide_eq_true_iff]
    show zero false ≤ costTolerance
    rw [← zero_eq_finite]
    exact costTolerance_nonneg

end HostRouting.Binary64
