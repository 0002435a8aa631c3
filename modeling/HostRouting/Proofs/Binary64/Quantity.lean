import HostRouting.Proofs.Binary64.Addition
import Mathlib.Data.ENat.Basic

/-!
# Exact quantities

A number that is not negative stands for a number of units that may be infinite, and compares as
that does (`Binary64.le_iff_quantity`). Zeros compare alike whatever their signs, so a sum that is
compared may as well start at zero (`Binary64.add_zero_add_le_iff`).
-/

namespace HostRouting.Binary64

/-- The exact quantity of a number that is not negative, in units. -/
def quantity : Binary64 → ℕ∞
  | .finite _ m => m.units
  | _ => ⊤

theorem le_iff_quantity {x y : Binary64} (hx : 0 ≤ x) (hy : 0 ≤ y) :
    x ≤ y ↔ x.quantity ≤ y.quantity := by
  rw [le_iff_level hx hy]
  rcases nonneg_cases hx with rfl | ⟨s, m, rfl, -⟩ <;>
    rcases nonneg_cases hy with rfl | ⟨t, n, rfl, -⟩
  · exact ⟨fun _ => le_rfl, fun _ => Nat.le_refl _⟩
  · refine ⟨fun h => absurd n.representable.1 (Nat.not_lt.2 h), fun h => ?_⟩
    exact absurd (top_le_iff.1 h) (ENat.natCast_ne_top _)
  · exact ⟨fun _ => le_top, fun _ => Nat.le_of_lt m.representable.1⟩
  · exact Nat.cast_le.symm

theorem ofUnits_signedUnits {s : Bool} {m : Magnitude} (h : signedUnits s m ≠ 0) :
    ofUnits (signedUnits s m) = .finite s m := by
  have hsign : decide (signedUnits s m < 0) = s := by
    cases s <;> simp only [signedUnits] at h ⊢ <;> simp at h ⊢
    omega
  unfold ofUnits
  rw [natAbs_signedUnits, hsign, ofQuotient_of_roundUnits s m.representable
    (roundUnits_of_representable m.representable)]

/-- Adding from zero changes at most the sign of a zero. -/
theorem zero_add_cases (x : Binary64) : 0 + x = x ∨ ∃ s, x = zero s ∧ 0 + x = zero false := by
  rw [zero_eq_finite]
  rcases x with _ | _ | ⟨s, m⟩
  · exact .inl rfl
  · exact .inl rfl
  · have hsum : zero false + finite s m =
        if signedUnits s m = 0 then zero false else ofUnits (signedUnits s m) := by
      show (if 0 + signedUnits s m = 0 then zero (false && s) else ofUnits (0 + signedUnits s m)) = _
      rw [Int.zero_add, Bool.false_and]
    rw [hsum]
    by_cases h : signedUnits s m = 0
    · have hunits : m.units = 0 := by cases s <;> simpa [signedUnits] using h
      refine .inr ⟨s, ?_, if_pos h⟩
      cases m
      subst hunits
      rfl
    · exact .inl ((if_neg h).trans (ofUnits_signedUnits h))

theorem compare?_zero (s t : Bool) (x : Binary64) : compare? (zero s) x = compare? (zero t) x := by
  rcases x with _ | _ | ⟨u, m⟩ <;> cases s <;> cases t <;> rfl

/-- The sign of a zero does not matter in a sum that is compared. -/
theorem compare?_add_zero (s t : Bool) (x y : Binary64) :
    compare? (x + zero s) y = compare? (x + zero t) y := by
  rcases x with _ | _ | ⟨u, m⟩
  · rfl
  · rfl
  · show compare? (if signedUnits u m + signedUnits s _ = 0 then zero (u && s)
        else ofUnits (signedUnits u m + signedUnits s _)) y =
      compare? (if signedUnits u m + signedUnits t _ = 0 then zero (u && t)
        else ofUnits (signedUnits u m + signedUnits t _)) y
    have hsigned : ∀ b, signedUnits b ⟨0, representable_zero⟩ = 0 := fun b => by cases b <;> rfl
    rw [hsigned, hsigned]
    split
    next => exact compare?_zero _ _ y
    next => rfl

theorem add_zero_add_le_iff (x y z : Binary64) : x + (0 + y) ≤ z ↔ x + y ≤ z := by
  rcases zero_add_cases y with h | ⟨s, rfl, h⟩
  · rw [h]
  · rw [h]
    show compare? _ _ = _ ∨ compare? _ _ = _ ↔ compare? _ _ = _ ∨ compare? _ _ = _
    rw [compare?_add_zero false s]

end HostRouting.Binary64
