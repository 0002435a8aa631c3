import HostRouting.Proofs.Binary64.Comparison
import HostRouting.Routing.Search
import Mathlib.Algebra.GroupWithZero.Nat
import Mathlib.Algebra.Order.BigOperators.Group.List
import Mathlib.Algebra.Order.Group.Nat

/-!
# Whole numbers

Whole numbers below `2 ^ 53` are added exactly, and a sum that is not below has a value that is not
below either (`Binary64.Holds.add`). Where one of two sums is below, the tolerance of costs decides
nothing: a cost exceeds another one when it is larger and ties with it when it is the same
(`Binary64.Holds.exceeds_iff`, `Binary64.Holds.ties_iff`). As long as nothing is rounded, the order
of the terms of a sum does not matter (`Binary64.AddsWhole.sum_eq`).
-/

namespace HostRouting

/-! ## Rounding to the nearest -/

/-- A number is rounded up by at most half a gap. -/
theorem two_mul_roundUnits_le (u : Nat) : 2 * roundUnits u 1 ≤ 2 * u + gapAt u := by
  have hdiv := Nat.div_add_mod u (gapAt u)
  have hmod := Nat.mod_lt u (gapAt_pos u)
  rw [Nat.mul_comm] at hdiv
  unfold roundUnits
  dsimp only
  rw [Nat.div_one, Nat.one_mul]
  split
  · rw [Nat.add_mul, Nat.one_mul]
    omega
  · omega

namespace Binary64

/-! ## Units of whole numbers -/

/-- Whole numbers up to this one are all represented. -/
def wholeLimit : Nat := 2 ^ 53

theorem unitsPerOne_pos : 0 < unitsPerOne := one_shiftLeft_pos _

theorem representable_whole {n : Nat} (hn : n ≤ wholeLimit) : Representable (n * unitsPerOne) := by
  have hpow : ∀ e k, 53 + e < k → n * 1 <<< e < 1 <<< k ∧ n * 1 <<< e = n <<< e := by
    intro e k h
    rw [Nat.one_shiftLeft, Nat.one_shiftLeft, Nat.shiftLeft_eq]
    refine ⟨?_, rfl⟩
    calc n * 2 ^ e ≤ 2 ^ 53 * 2 ^ e := Nat.mul_le_mul_right _ hn
      _ = 2 ^ (53 + e) := (Nat.pow_add ..).symm
      _ < 2 ^ k := Nat.pow_lt_pow_right (by decide) h
  obtain ⟨hlt, hshift⟩ := hpow 1074 2098 (by decide)
  refine ⟨hlt, ?_⟩
  rw [unitsPerOne, hshift]
  exact gapAt_dvd_shiftLeft (by rwa [Nat.one_shiftLeft])

/-- The number has the value `n`. -/
def IsWhole (x : Binary64) (n : Nat) : Prop := x.units? = some ((n * unitsPerOne : Nat) : Int)

/-- The number has the value `n`, except that large values are only large. -/
structure Holds (x : Binary64) (n : Nat) : Prop where
  nonneg : 0 ≤ x
  exact : n < wholeLimit → x.level = n * unitsPerOne
  large : wholeLimit ≤ n → wholeLimit * unitsPerOne ≤ x.level

theorem IsWhole.holds {x : Binary64} {n : Nat} (h : x.IsWhole n) : x.Holds n := by
  rcases x with _ | _ | ⟨s, m⟩
  · exact nomatch h
  · exact nomatch h
  have hunits : signedUnits s m = (n * unitsPerOne : Nat) := Option.some.inj h
  have hnonneg : 0 ≤ finite s m := nonneg_finite_iff.2 (by omega)
  have hlevel : (finite s m).level = n * unitsPerOne := by
    rcases nonneg_cases hnonneg with h | ⟨t, k, hk, hsign⟩
    · exact nomatch h
    · obtain ⟨rfl, rfl⟩ := Binary64.finite.inj hk
      show m.units = _
      omega
  refine ⟨hnonneg, fun _ => hlevel, fun hn => ?_⟩
  rw [hlevel]
  exact Nat.mul_le_mul_right _ hn

theorem holds_zero : (0 : Binary64).Holds 0 := by
  refine IsWhole.holds ?_
  rw [IsWhole, Nat.zero_mul, units?_ofNat_zero]
  rfl

namespace Holds

variable {x y : Binary64} {a b : Nat}

theorem le_level (h : x.Holds a) : min a wholeLimit * unitsPerOne ≤ x.level := by
  rcases Nat.lt_or_ge a wholeLimit with ha | ha
  · rw [Nat.min_eq_left (Nat.le_of_lt ha)]
    exact Nat.le_of_eq (h.exact ha).symm
  · rw [Nat.min_eq_right ha]
    exact h.large ha

theorem wholeLimit_le_of_infinity (h : (infinity false).Holds a) : wholeLimit ≤ a := by
  refine Nat.le_of_not_lt fun ha => ?_
  have hlt := (representable_whole (Nat.le_of_lt ha)).1
  rw [← h.exact ha] at hlt
  exact Nat.lt_irrefl _ hlt

/-- A value below the limit is that of the number. -/
theorem isWhole (h : x.Holds a) (ha : a < wholeLimit) : x.IsWhole a := by
  have hlevel := h.exact ha
  rcases nonneg_cases h.nonneg with rfl | ⟨s, m, rfl, hm⟩
  · exact absurd ha (Nat.not_lt.2 h.wholeLimit_le_of_infinity)
  · show some (signedUnits s m) = _
    rw [hm, show m.units = a * unitsPerOne from hlevel]

theorem add (hx : x.Holds a) (hy : y.Holds b) : (x + y).Holds (a + b) := by
  obtain ⟨hnonneg, hlevel⟩ := add_spec hx.nonneg hy.nonneg
  refine ⟨hnonneg, fun hsum => ?_, fun hsum => ?_⟩
  · have hrepr := representable_whole (Nat.le_of_lt hsum)
    rw [hlevel, hx.exact (by omega), hy.exact (by omega), ← Nat.add_mul,
      roundUnits_of_representable hrepr]
    exact Nat.min_eq_left (Nat.le_of_lt hrepr.1)
  · have hlimit := representable_whole (Nat.le_refl wholeLimit)
    have hle : wholeLimit * unitsPerOne ≤ x.level + y.level := by
      refine Nat.le_trans ?_ (Nat.add_le_add hx.le_level hy.le_level)
      rw [← Nat.add_mul]
      exact Nat.mul_le_mul_right _ (by omega)
    have hround := roundUnits_mono hle
    rw [roundUnits_of_representable hlimit] at hround
    rw [hlevel]
    exact Nat.le_min.2 ⟨hround, Nat.le_of_lt hlimit.1⟩

end Holds

/-! ## The tolerance -/

theorem costTolerance_spec : 0 ≤ costTolerance ∧ 4 * costTolerance.level < unitsPerOne := by
  decide +kernel

/-- Below the limit neighbours are at most one apart. -/
theorem gapAt_le_unitsPerOne {u : Nat} (h : u < wholeLimit * unitsPerOne) :
    gapAt u ≤ unitsPerOne := by
  have hgap : ∀ e, u < 2 ^ 53 * 1 <<< e → gapAt u ≤ 1 <<< e := by
    intro e hu
    rw [Nat.one_shiftLeft] at hu ⊢
    rw [← Nat.pow_add] at hu
    by_cases h0 : u = 0
    · rw [h0, gapAt_eq_one (by decide)]
      exact Nat.one_le_two_pow
    · have hlog := (Nat.log2_lt h0).2 hu
      rw [gapAt_eq_two_pow]
      exact Nat.pow_le_pow_right (by decide) (by omega)
  exact hgap 1074 h

theorem level_abs_ofUnits (i : Int) :
    0 ≤ (ofUnits i).abs ∧ (ofUnits i).abs.level = min (roundUnits i.natAbs 1) overflowUnits := by
  unfold ofUnits ofQuotient
  split
  next h =>
    exact ⟨nonneg_finite_iff.2 (Int.natCast_nonneg _), (Nat.min_eq_left (Nat.le_of_lt h)).symm⟩
  next h =>
    refine ⟨?_, (Nat.min_eq_right (Nat.le_of_not_lt h)).symm⟩
    rw [zero_eq_finite]
    exact .inl rfl

theorem level_abs_sub {s t : Bool} {m n : Magnitude} (hm : signedUnits s m = m.units)
    (hn : signedUnits t n = n.units) :
    0 ≤ (finite s m - finite t n).abs ∧ (finite s m - finite t n).abs.level =
      min (roundUnits ((m.units : Int) - n.units).natAbs 1) overflowUnits := by
  have hneg : signedUnits (!t) n = -(n.units : Int) := by
    rw [← hn]
    cases t
    · rfl
    · exact (Int.neg_neg _).symm
  have hsum : signedUnits s m + signedUnits (!t) n = (m.units : Int) - n.units := by
    rw [hm, hneg]
    rfl
  show 0 ≤ (if signedUnits s m + signedUnits (!t) n = 0 then zero (s && !t)
      else ofUnits (signedUnits s m + signedUnits (!t) n)).abs ∧
    (if signedUnits s m + signedUnits (!t) n = 0 then zero (s && !t)
      else ofUnits (signedUnits s m + signedUnits (!t) n)).abs.level = _
  rw [hsum]
  split
  next h0 =>
    rw [h0]
    refine ⟨nonneg_finite_iff.2 (Int.natCast_nonneg _), ?_⟩
    rw [Int.natAbs_zero, roundUnits_of_representable representable_zero, Nat.zero_min]
    rfl
  next => exact level_abs_ofUnits _

namespace Holds

variable {x y : Binary64} {a b : Nat}

theorem level_le (hx : x.Holds a) (hy : y.Holds b) (hle : a ≤ b) (ha : a < wholeLimit) :
    x.level ≤ y.level := by
  rw [hx.exact ha]
  exact Nat.le_trans (Nat.mul_le_mul_right _ (Nat.le_min.2 ⟨hle, Nat.le_of_lt ha⟩)) hy.le_level

/-- A larger value is larger by at least one. -/
theorem level_add_le (hx : x.Holds a) (hy : y.Holds b) (hlt : b < a) (hb : b < wholeLimit) :
    y.level + unitsPerOne ≤ x.level := by
  rw [hy.exact hb, ← Nat.succ_mul]
  exact Nat.le_trans (Nat.mul_le_mul_right _ (Nat.le_min.2 ⟨hlt, hb⟩)) hx.le_level

/-- Where one of two values is below the limit, a cost exceeds another one when it is larger. -/
theorem exceeds_iff (hx : x.Holds a) (hy : y.Holds b) (h : a < wholeLimit ∨ b < wholeLimit) :
    PathCost.exceeds x y = true ↔ b < a := by
  obtain ⟨htol, hsmall⟩ := costTolerance_spec
  show decide (y + costTolerance < x) = true ↔ b < a
  rw [decide_eq_true_iff, lt_iff_level (add_nonneg hy.nonneg htol) hx.nonneg]
  constructor
  · intro hlt
    refine Nat.lt_of_not_le fun hle => ?_
    have hadd := (le_iff_level hy.nonneg (add_nonneg hy.nonneg htol)).1 (le_add hy.nonneg htol)
    have hxy := hx.level_le hy hle (by omega)
    omega
  · intro hlt
    have hb : b < wholeLimit := by omega
    have hstep := hx.level_add_le hy hlt hb
    have hlimit : y.level + unitsPerOne ≤ wholeLimit * unitsPerOne := by
      rw [hy.exact hb, ← Nat.succ_mul]
      exact Nat.mul_le_mul_right _ hb
    -- The tolerance and the rounding together are less than one.
    have hround := two_mul_roundUnits_le (y.level + costTolerance.level)
    have hgap := gapAt_le_unitsPerOne (u := y.level + costTolerance.level) (by omega)
    rw [(add_spec hy.nonneg htol).2]
    refine Nat.lt_of_le_of_lt (Nat.min_le_left _ _) ?_
    omega

/-- Where one of two values is below the limit, costs tie when they are the same. -/
theorem ties_iff (hx : x.Holds a) (hy : y.Holds b) (h : a < wholeLimit ∨ b < wholeLimit) :
    PathCost.ties x y = true ↔ a = b := by
  obtain ⟨htol, hsmall⟩ := costTolerance_spec
  have hinfinite : ¬(infinity false).abs ≤ costTolerance := by decide +kernel
  show decide ((x - y).abs ≤ costTolerance) = true ↔ a = b
  rw [decide_eq_true_iff]
  rcases nonneg_cases hx.nonneg with rfl | ⟨s, m, rfl, hm⟩ <;>
    rcases nonneg_cases hy.nonneg with rfl | ⟨t, n, rfl, hn⟩
  · have := hx.wholeLimit_le_of_infinity
    have := hy.wholeLimit_le_of_infinity
    omega
  · have := hx.wholeLimit_le_of_infinity
    exact ⟨fun hle => absurd hle hinfinite, fun heq => by omega⟩
  · have := hy.wholeLimit_le_of_infinity
    exact ⟨fun hle => absurd hle hinfinite, fun heq => by omega⟩
  · obtain ⟨hnonneg, hlevel⟩ := level_abs_sub hm hn
    rw [le_iff_level hnonneg htol, hlevel]
    constructor
    · intro hle
      refine Decidable.byContradiction fun hab => ?_
      have hapart : unitsPerOne ≤ ((m.units : Int) - n.units).natAbs := by
        have hx' : a < b → a < wholeLimit → m.units + unitsPerOne ≤ n.units := hy.level_add_le hx
        have hy' : b < a → b < wholeLimit → n.units + unitsPerOne ≤ m.units := hx.level_add_le hy
        omega
      have hone := representable_whole (n := 1) (by decide)
      rw [Nat.one_mul] at hone
      have hround := roundUnits_mono hapart
      rw [roundUnits_of_representable hone] at hround
      have := hone.1
      omega
    · rintro rfl
      have ha : a < wholeLimit := by omega
      have hm' : m.units = a * unitsPerOne := hx.exact ha
      have hn' : n.units = a * unitsPerOne := hy.exact ha
      rw [hm', hn', Int.sub_self, Int.natAbs_zero, roundUnits_of_representable representable_zero,
        Nat.zero_min]
      exact Nat.zero_le _

end Holds

/-! ## The rank of a value -/

/-- The whole number that a value holds, the limit for those not below it. -/
def wholeRank (x : Binary64) : Nat := min (x.level / unitsPerOne) wholeLimit

theorem wholeRank_le (x : Binary64) : x.wholeRank ≤ wholeLimit := Nat.min_le_right _ _

namespace Holds

variable {x y : Binary64} {a b : Nat}

theorem wholeRank_eq (h : x.Holds a) : x.wholeRank = min a wholeLimit := by
  unfold wholeRank
  rcases Nat.lt_or_ge a wholeLimit with ha | ha
  · rw [h.exact ha, Nat.mul_div_cancel _ unitsPerOne_pos]
  · have := (Nat.le_div_iff_mul_le unitsPerOne_pos).2 (h.large ha)
    omega

theorem wholeRank_add (hx : x.Holds a) (hy : y.Holds b) :
    (x + y).wholeRank = min (x.wholeRank + b) wholeLimit := by
  rw [(hx.add hy).wholeRank_eq, hx.wholeRank_eq]
  omega

theorem exceeds_iff_wholeRank (hx : x.Holds a) (hy : y.Holds b)
    (h : x.wholeRank < wholeLimit ∨ y.wholeRank < wholeLimit) :
    PathCost.exceeds x y = true ↔ y.wholeRank < x.wholeRank := by
  rw [hx.wholeRank_eq, hy.wholeRank_eq] at h ⊢
  rw [hx.exceeds_iff hy (by omega)]
  omega

theorem ties_iff_wholeRank (hx : x.Holds a) (hy : y.Holds b)
    (h : x.wholeRank < wholeLimit ∨ y.wholeRank < wholeLimit) :
    PathCost.ties x y = true ↔ x.wholeRank = y.wholeRank := by
  rw [hx.wholeRank_eq, hy.wholeRank_eq] at h ⊢
  rw [hx.ties_iff hy (by omega)]
  omega

end Holds

theorem wholeRank_mono {x y : Binary64} (h : x.level ≤ y.level) : x.wholeRank ≤ y.wholeRank := by
  have := Nat.div_le_div_right (c := unitsPerOne) h
  unfold wholeRank
  omega

/-! ## Sums -/

instance (x : Binary64) (n : Nat) : Decidable (x.IsWhole n) :=
  inferInstanceAs (Decidable (x.units? = some _))

/-- The quantities are whole numbers, and so is every sum of them. -/
def AddsWhole (xs : List Binary64) : Prop :=
  (∀ x ∈ xs, x.IsWhole x.wholeRank) ∧ (xs.map wholeRank).sum ≤ wholeLimit

instance (xs : List Binary64) : Decidable (AddsWhole xs) := inferInstanceAs (Decidable (_ ∧ _))

/-- A sum that is no larger than the limit is the number of its value; its zero is the positive
one. -/
theorem IsWhole.ofInt_add {x : Binary64} {n : Nat} (h : x.IsWhole n) {a : Nat}
    (hlimit : a + n ≤ wholeLimit) : ofInt (a : Nat) + x = ofInt ((a + n : Nat) : Int) := by
  rcases x with _ | _ | ⟨t, m⟩
  · exact nomatch h
  · exact nomatch h
  have hm : signedUnits t m = (n * unitsPerOne : Nat) := Option.some.inj h
  by_cases hzero : a = 0 ∧ n = 0
  · obtain ⟨rfl, rfl⟩ := hzero
    show (0 : Binary64) + finite t m = 0
    rw [Nat.zero_mul, Int.natCast_zero] at hm
    rw [zero_eq_finite]
    show (if 0 + signedUnits t m = 0 then zero (false && t) else _) = zero false
    rw [hm]
    rfl
  · have ha : (ofInt (a : Nat)).units? = some ((a * unitsPerOne : Nat) : Int) := by
      unfold ofInt
      rw [← Int.natCast_mul]
      exact units?_ofUnits (representable_whole (by omega))
    cases hsum : ofInt (a : Nat) with
    | nan => rw [hsum] at ha; exact nomatch ha
    | infinity s => rw [hsum] at ha; exact nomatch ha
    | finite s k =>
      rw [hsum] at ha
      have hk : signedUnits s k = (a * unitsPerOne : Nat) := Option.some.inj ha
      have htotal : signedUnits s k + signedUnits t m = ((a + n : Nat) : Int) * unitsPerOne := by
        rw [hk, hm, ← Int.natCast_add, ← Nat.add_mul, Int.natCast_mul]
      have hpos : 0 < (a + n) * unitsPerOne := Nat.mul_pos (by omega) unitsPerOne_pos
      show (if signedUnits s k + signedUnits t m = 0 then zero (s && t)
        else ofUnits (signedUnits s k + signedUnits t m)) = ofUnits _
      rw [htotal, if_neg (by rw [← Int.natCast_mul]; omega)]

theorem foldl_add_of_whole {xs : List Binary64} (h : ∀ x ∈ xs, x.IsWhole x.wholeRank) {a : Nat}
    (hlimit : a + (xs.map wholeRank).sum ≤ wholeLimit) :
    xs.foldl (· + ·) (ofInt (a : Nat)) = ofInt ((a + (xs.map wholeRank).sum : Nat) : Int) := by
  induction xs generalizing a with
  | nil => rw [List.map_nil, List.sum_nil, Nat.add_zero, List.foldl_nil]
  | cons x rest ih =>
    rw [List.map_cons, List.sum_cons] at hlimit ⊢
    rw [List.foldl_cons, (h x List.mem_cons_self).ofInt_add (by omega),
      ih (fun y hy => h y (List.mem_cons_of_mem _ hy)) (by omega), Nat.add_assoc]

/-- Whole numbers have the same sum in any order. -/
theorem AddsWhole.sum_eq {xs ys : List Binary64} (h : AddsWhole xs) (hperm : ys.Perm xs) :
    sum ys = sum xs := by
  have hclosed {zs : List Binary64} (hz : zs.Perm xs) :
      sum zs = ofInt ((0 + (xs.map wholeRank).sum : Nat) : Int) := by
    have htotal : (zs.map wholeRank).sum = (xs.map wholeRank).sum := (hz.map _).sum_nat
    rw [← htotal]
    exact foldl_add_of_whole (a := 0) (fun z hmem => h.1 z (hz.mem_iff.1 hmem))
      (by rw [htotal, Nat.zero_add]; exact h.2)
  rw [hclosed hperm, hclosed (.refl _)]

theorem AddsWhole.sublist {xs ys : List Binary64} (h : AddsWhole xs) (hsub : ys.Sublist xs) :
    AddsWhole ys :=
  ⟨fun y hy => h.1 y (hsub.mem hy),
    Nat.le_trans ((hsub.map wholeRank).sum_le_sum fun _ _ => Nat.zero_le _) h.2⟩

end Binary64

end HostRouting
