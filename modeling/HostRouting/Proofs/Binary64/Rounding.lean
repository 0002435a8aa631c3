import HostRouting.Binary64.Basic
import Mathlib.Algebra.Group.Nat.Defs

/-!
# Rounding to 53 significant bits

Rounding gives the nearest multiple of the gap at the rounded quotient, the even one of two that
are equally near (`roundUnits_eq_mul`), and it is monotone (`roundUnits_mono`).
-/

namespace HostRouting

/-! ## Powers of two -/

/-- The exponent is named, so that the power is not computed. -/
theorem exists_shiftLeft_eq (m : Nat) : ∃ n, 1 <<< m = 2 ^ n ∧ n = m :=
  ⟨m, Nat.one_shiftLeft m, rfl⟩

theorem unitsPerOne_eq_two_pow : ∃ n, unitsPerOne = 2 ^ n ∧ n = 1074 := exists_shiftLeft_eq 1074

theorem overflowUnits_eq_two_pow : ∃ n, overflowUnits = 2 ^ n ∧ n = 2098 := exists_shiftLeft_eq 2098

/-! ## Gaps -/

theorem gapAt_eq_two_pow (u : Nat) : gapAt u = 2 ^ (u.log2 - 52) := Nat.one_shiftLeft _

theorem gapAt_eq_one {u : Nat} (h : u < 2 ^ 53) : gapAt u = 1 :=
  gapAt_of_lt (by rwa [Nat.one_shiftLeft])

/-- Numbers with the same leading bit have the same gap. -/
theorem gapAt_of_bounds {u e : Nat} (hl : 2 ^ (52 + e) ≤ u) (hu : u < 2 ^ (53 + e)) :
    gapAt u = 2 ^ e := by
  have h0 : u ≠ 0 := by have := Nat.two_pow_pos (52 + e); omega
  have h1 : 52 + e ≤ u.log2 := (Nat.le_log2 h0).2 hl
  have h2 : u.log2 < 53 + e := (Nat.log2_lt h0).2 hu
  rw [gapAt_eq_two_pow, show u.log2 - 52 = e by omega]

theorem gapAt_mono {u v : Nat} (h : u ≤ v) : gapAt u ≤ gapAt v := by
  by_cases hu : u = 0
  · subst hu
    rw [gapAt_eq_one (by decide)]
    exact gapAt_pos v
  · have hv : v ≠ 0 := by omega
    have hlog : u.log2 ≤ v.log2 := (Nat.le_log2 hv).2 (Nat.le_trans (Nat.log2_self_le hu) h)
    rw [gapAt_eq_two_pow, gapAt_eq_two_pow]
    exact Nat.pow_le_pow_right (by decide) (by omega)

/-- The leading bit of a number above 52 bits is a multiple of its gap. -/
theorem gapAt_dvd_two_pow {u e : Nat} (h : u.log2 ≤ e + 52) : gapAt u ∣ 2 ^ e := by
  rw [gapAt_eq_two_pow]
  exact Nat.pow_dvd_pow 2 (by omega)

/-! ## Gaps near a number -/

/-- A multiple of the gap above the leading power of two is a whole gap above it. -/
theorem two_pow_add_gapAt_le {u : Nat} (h : 52 < u.log2) (hu : gapAt u ∣ u)
    (hne : u ≠ 2 ^ u.log2) : 2 ^ u.log2 + gapAt u ≤ u := by
  obtain ⟨j, hj⟩ := gapAt_dvd_two_pow (show u.log2 ≤ u.log2 + 52 by omega)
  obtain ⟨k, hk⟩ := hu
  have h0 : u ≠ 0 := by rintro rfl; simp at h
  have hle := Nat.log2_self_le h0
  have hlt : gapAt u * j < gapAt u * k := by omega
  have hjk : j + 1 ≤ k := Nat.lt_of_mul_lt_mul_left hlt
  calc 2 ^ u.log2 + gapAt u = gapAt u * (j + 1) := by rw [Nat.mul_succ, ← hj]
    _ ≤ gapAt u * k := Nat.mul_le_mul_left _ hjk
    _ = u := hk.symm

theorem add_gapAt_le_two_pow {u : Nat} (hu : gapAt u ∣ u) :
    u + gapAt u ≤ 2 ^ (u.log2 + 1) := by
  obtain ⟨j, hj⟩ := gapAt_dvd_two_pow (show u.log2 ≤ u.log2 + 1 + 52 by omega)
  obtain ⟨k, hk⟩ := hu
  have hlt : u < 2 ^ (u.log2 + 1) := Nat.lt_log2_self
  have hkj : k + 1 ≤ j := by
    refine Nat.lt_of_mul_lt_mul_left (a := gapAt u) ?_
    omega
  calc u + gapAt u = gapAt u * (k + 1) := by rw [Nat.mul_succ, ← hk]
    _ ≤ gapAt u * j := Nat.mul_le_mul_left _ hkj
    _ = 2 ^ (u.log2 + 1) := hj.symm

/-- The gap does not change within a gap above a number. -/
theorem gapAt_of_le {u q : Nat} (hu : gapAt u ∣ u) (hl : u ≤ q) (hr : q < u + gapAt u) :
    gapAt q = gapAt u := by
  have hnext := add_gapAt_le_two_pow hu
  by_cases h : u.log2 ≤ 52
  · have hpow : (2 : Nat) ^ (u.log2 + 1) ≤ 2 ^ 53 := Nat.pow_le_pow_right (by decide) (by omega)
    rw [gapAt_eq_one (u := q) (by omega), gapAt_eq_one (u := u) (by omega)]
  · have h0 : u ≠ 0 := by rintro rfl; simp at h
    have hle := Nat.log2_self_le h0
    rw [gapAt_eq_two_pow u]
    refine gapAt_of_bounds ?_ ?_
    · rw [show 52 + (u.log2 - 52) = u.log2 by omega]
      omega
    · rw [show 53 + (u.log2 - 52) = u.log2 + 1 by omega]
      omega

/-- Nor within a gap below a number that is not the first of its gap. -/
theorem gapAt_of_lt_self {u q : Nat} (hu : gapAt u ∣ u) (hq : q < u) (hl : u ≤ q + gapAt u)
    (hne : ¬(u = 2 ^ u.log2 ∧ 52 < u.log2)) : gapAt q = gapAt u := by
  have hlt : u < 2 ^ (u.log2 + 1) := Nat.lt_log2_self
  by_cases h : u.log2 ≤ 52
  · have hpow : (2 : Nat) ^ (u.log2 + 1) ≤ 2 ^ 53 := Nat.pow_le_pow_right (by decide) (by omega)
    rw [gapAt_eq_one (u := q) (by omega), gapAt_eq_one (u := u) (by omega)]
  · have hstep := two_pow_add_gapAt_le (by omega) hu fun he => hne ⟨he, by omega⟩
    rw [gapAt_eq_two_pow u] at *
    refine gapAt_of_bounds ?_ ?_
    · rw [show 52 + (u.log2 - 52) = u.log2 by omega]
      omega
    · rw [show 53 + (u.log2 - 52) = u.log2 + 1 by omega]
      omega

/-- Just below a power of two the gap is half as wide. -/
theorem gapAt_below_two_pow {q e : Nat} (hq : q < 2 ^ (53 + e))
    (hl : 2 ^ (53 + e) ≤ q + 2 ^ (e + 1)) : gapAt q = 2 ^ e := by
  refine gapAt_of_bounds ?_ hq
  have h1 : (2 : Nat) ^ (53 + e) = 2 ^ (52 + e) + 2 ^ (52 + e) := by
    rw [show 53 + e = 52 + e + 1 by omega, Nat.pow_succ]
    omega
  have h2 : (2 : Nat) ^ (e + 1) ≤ 2 ^ (52 + e) := Nat.pow_le_pow_right (by decide) (by omega)
  omega

/-! ## The nearest multiple -/

/-- A quotient within half a gap of a multiple is rounded to it; in the middle between two, the
even multiple is taken. -/
theorem roundUnits_eq_mul {num den gap k : Nat} (hden : 0 < den) (hgap : gapAt (num / den) = gap)
    (hl : 2 * (k * (den * gap)) ≤ 2 * num + den * gap)
    (hu : 2 * num ≤ 2 * (k * (den * gap)) + den * gap)
    (hle : 2 * (k * (den * gap)) = 2 * num + den * gap → k % 2 = 0)
    (hue : 2 * num = 2 * (k * (den * gap)) + den * gap → k % 2 = 0) :
    roundUnits num den = k * gap := by
  have hpos : 0 < gap := hgap ▸ gapAt_pos _
  have hw : 0 < den * gap := Nat.mul_pos hden hpos
  unfold roundUnits
  dsimp only
  rw [hgap]
  generalize den * gap = w at *
  have hdiv := Nat.div_add_mod num w
  have hmod := Nat.mod_lt num hw
  by_cases hk : k * w ≤ num
  · -- The quotient lies at the multiple or above it and is rounded down.
    have hsteps : num / w = k := by
      refine Nat.div_eq_of_lt_le hk ?_
      rw [Nat.add_mul]
      omega
    rw [hsteps, Nat.mul_comm] at hdiv
    rw [hsteps, if_neg]
    omega
  · have hk0 : k ≠ 0 := by rintro rfl; omega
    obtain ⟨j, rfl⟩ := Nat.exists_eq_succ_of_ne_zero hk0
    have hmul : (j + 1) * w = j * w + w := Nat.succ_mul j w
    rw [Nat.succ_eq_add_one, hmul] at hl hu hle hue hk
    have hsteps : num / w = j := by
      refine Nat.div_eq_of_lt_le (by omega) ?_
      rw [Nat.succ_mul]
      omega
    rw [hsteps, Nat.mul_comm] at hdiv
    rw [hsteps, if_pos]
    omega

/-! ## Quotients of at least one unit -/

theorem gapAt_le_self {u : Nat} (h : u ≠ 0) : gapAt u ≤ u := by
  rw [gapAt_eq_two_pow]
  exact Nat.le_trans (Nat.pow_le_pow_right (by decide) (Nat.sub_le _ _)) (Nat.log2_self_le h)

theorem roundUnits_pos {num den : Nat} (hden : 0 < den) (h : den ≤ num) :
    0 < roundUnits num den := by
  have hquot : num / den ≠ 0 := Nat.ne_of_gt (Nat.div_pos h hden)
  have hstep : den * gapAt (num / den) ≤ num :=
    Nat.le_trans (Nat.mul_le_mul_left den (gapAt_le_self hquot)) (Nat.mul_div_le num den)
  have hsteps : 0 < num / (den * gapAt (num / den)) :=
    Nat.div_pos hstep (Nat.mul_pos hden (gapAt_pos _))
  unfold roundUnits
  dsimp only
  refine Nat.mul_pos ?_ (gapAt_pos _)
  split <;> omega

/-! ## Monotonicity -/

theorem le_roundUnits (u : Nat) : u / gapAt u * gapAt u ≤ roundUnits u 1 := by
  unfold roundUnits
  dsimp only
  rw [Nat.div_one, Nat.one_mul]
  refine Nat.mul_le_mul_right _ ?_
  split <;> omega

theorem roundUnits_le (u : Nat) : roundUnits u 1 ≤ (u / gapAt u + 1) * gapAt u := by
  unfold roundUnits
  dsimp only
  rw [Nat.div_one, Nat.one_mul]
  refine Nat.mul_le_mul_right _ ?_
  split <;> omega

/-- Rounding does not pass the next power of two. -/
theorem roundUnits_le_two_pow {u e : Nat} (h : u < 2 ^ e) (hg : u.log2 ≤ e + 52) :
    roundUnits u 1 ≤ 2 ^ e := by
  refine Nat.le_trans (roundUnits_le u) ?_
  obtain ⟨k, hk⟩ := gapAt_dvd_two_pow hg
  rw [hk, Nat.mul_comm (gapAt u)] at h ⊢
  refine Nat.mul_le_mul_right _ ?_
  have := (Nat.div_lt_iff_lt_mul (gapAt_pos u)).2 h
  omega

theorem two_pow_le_roundUnits {u e : Nat} (h : 2 ^ e ≤ u) (hg : u.log2 ≤ e + 52) :
    2 ^ e ≤ roundUnits u 1 := by
  refine Nat.le_trans ?_ (le_roundUnits u)
  obtain ⟨k, hk⟩ := gapAt_dvd_two_pow hg
  rw [hk, Nat.mul_comm (gapAt u)] at h ⊢
  exact Nat.mul_le_mul_right _ ((Nat.le_div_iff_mul_le (gapAt_pos u)).2 h)

theorem roundUnits_mono {u v : Nat} (h : u ≤ v) : roundUnits u 1 ≤ roundUnits v 1 := by
  rcases Nat.lt_or_eq_of_le (gapAt_mono h) with hlt | heq
  · -- The power of two between the numbers is between what they are rounded to.
    have hv : v ≠ 0 := by
      rintro rfl
      rw [Nat.le_zero.1 h] at hlt
      exact Nat.lt_irrefl _ hlt
    have hlog : u.log2 - 52 < v.log2 - 52 := by
      rw [gapAt_eq_two_pow, gapAt_eq_two_pow] at hlt
      exact (Nat.pow_lt_pow_iff_right (by decide)).1 hlt
    have hlow : u < 2 ^ v.log2 :=
      Nat.lt_of_lt_of_le Nat.lt_log2_self (Nat.pow_le_pow_right (by decide) (by omega))
    exact Nat.le_trans (roundUnits_le_two_pow hlow (by omega))
      (two_pow_le_roundUnits (Nat.log2_self_le hv) (by omega))
  · have hdiv : u / gapAt v ≤ v / gapAt v := Nat.div_le_div_right h
    rcases Nat.lt_or_eq_of_le hdiv with hlt | hsteps
    · calc roundUnits u 1 ≤ (u / gapAt u + 1) * gapAt u := roundUnits_le u
        _ = (u / gapAt v + 1) * gapAt v := by rw [heq]
        _ ≤ v / gapAt v * gapAt v := Nat.mul_le_mul_right _ hlt
        _ ≤ roundUnits v 1 := le_roundUnits v
    · have hu := Nat.div_add_mod u (gapAt v)
      have hv := Nat.div_add_mod v (gapAt v)
      rw [hsteps] at hu
      unfold roundUnits
      dsimp only
      rw [Nat.div_one, Nat.div_one, Nat.one_mul, Nat.one_mul, heq, hsteps]
      refine Nat.mul_le_mul_right _ ?_
      split <;> split <;> omega

theorem Binary64.ofQuotient_of_roundUnits {num den u : Nat} (s : Bool) (hu : Representable u)
    (h : roundUnits num den = u) : ofQuotient s num den = .finite s ⟨u, hu⟩ := by
  subst h
  unfold ofQuotient
  rw [dif_pos hu.1]

end HostRouting
