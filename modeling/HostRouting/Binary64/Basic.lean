/-!
# Binary64 numbers

Costs, thresholds, bandwidths and capacities are numbers of the 64-bit binary format: not-a-number,
a signed infinity, or a signed whole number of units of `2 ^ -1074`. Every operation is the exact
one on whole numbers followed by one rounding, `roundUnits`, to the nearest count of units that
53 significant bits hold, halves to the even neighbour.

Main facts: `representable_roundUnits` (what rounding gives fits in 53 bits) and
`roundUnits_of_representable` (a count that fits is not moved), so an operation whose exact result
fits is exact.
-/

namespace HostRouting

/-! ## Counts of units -/

/-- Counts at or above this one are beyond the largest finite number. -/
def overflowUnits : Nat := 1 <<< 2098

/-- The number one, in units. -/
def unitsPerOne : Nat := 1 <<< 1074

/-- The gap between neighbouring representable counts at `u`. -/
def gapAt (u : Nat) : Nat := 1 <<< (u.log2 - 52)

/-- A count of units that a finite number can hold: at most 53 significant bits. -/
def Representable (u : Nat) : Prop := u < overflowUnits ∧ gapAt u ∣ u

instance (u : Nat) : Decidable (Representable u) :=
  inferInstanceAs (Decidable (_ ∧ _))

/-- The count nearest to `num / den` with 53 significant bits, halves to the even neighbour. -/
def roundUnits (num den : Nat) : Nat :=
  let gap := gapAt (num / den)
  let steps := num / (den * gap)
  let rest := num % (den * gap)
  let up := den * gap < 2 * rest ∨ (2 * rest = den * gap ∧ steps % 2 = 1)
  (if up then steps + 1 else steps) * gap

theorem one_shiftLeft_pos (n : Nat) : 0 < 1 <<< n := by
  rw [Nat.one_shiftLeft]; exact Nat.two_pow_pos n

theorem gapAt_pos (u : Nat) : 0 < gapAt u := one_shiftLeft_pos _

theorem gapAt_of_lt {u : Nat} (h : u < 1 <<< 53) : gapAt u = 1 := by
  have : u.log2 < 53 := by
    by_cases hu : u = 0
    · subst hu; decide
    · exact (Nat.log2_lt hu).2 (by rwa [Nat.one_shiftLeft] at h)
  simp [gapAt, show u.log2 - 52 = 0 by omega]

theorem lt_mul_gapAt (u : Nat) : u < 1 <<< 53 * gapAt u := by
  by_cases hl : u < 1 <<< 53
  · exact Nat.lt_of_lt_of_le hl (Nat.le_mul_of_pos_right _ (gapAt_pos u))
  · have hu : u ≠ 0 := by have := one_shiftLeft_pos 53; omega
    rw [Nat.one_shiftLeft] at hl ⊢
    have hlog : 53 ≤ u.log2 := (Nat.le_log2 hu).2 (Nat.le_of_not_lt hl)
    rw [gapAt, Nat.one_shiftLeft, ← Nat.pow_add, show 53 + (u.log2 - 52) = u.log2 + 1 by omega]
    exact Nat.lt_log2_self

/-- A count of at most 53 bits followed by zeros is a multiple of its own gap. -/
theorem gapAt_dvd_shiftLeft {steps e : Nat} (h : steps ≤ 1 <<< 53) :
    gapAt (steps <<< e) ∣ steps <<< e := by
  rw [Nat.one_shiftLeft] at h
  rw [gapAt, Nat.one_shiftLeft, Nat.shiftLeft_eq]
  rcases Nat.lt_or_eq_of_le h with hlt | heq
  · by_cases h0 : steps * 2 ^ e = 0
    · rw [h0]; exact Nat.dvd_zero _
    · refine Nat.dvd_trans (Nat.pow_dvd_pow 2 ?_) (Nat.dvd_mul_left _ _)
      have : (steps * 2 ^ e).log2 < 53 + e := by
        rw [Nat.log2_lt h0, Nat.pow_add]
        exact Nat.mul_lt_mul_of_pos_right hlt (Nat.two_pow_pos e)
      omega
  · rw [heq, ← Nat.pow_add, Nat.log2_two_pow]
    exact Nat.pow_dvd_pow 2 (by omega)

theorem overflowUnits_pos : 0 < overflowUnits := by
  unfold overflowUnits; exact one_shiftLeft_pos 2098

theorem representable_zero : Representable 0 := ⟨overflowUnits_pos, Nat.dvd_zero _⟩

/-- What rounding gives needs at most 53 significant bits. -/
theorem gapAt_roundUnits_dvd (num den : Nat) :
    gapAt (roundUnits num den) ∣ roundUnits num den := by
  have hsteps : num / (den * gapAt (num / den)) < 1 <<< 53 := by
    rw [← Nat.div_div_eq_div_mul]
    exact (Nat.div_lt_iff_lt_mul (gapAt_pos _)).2 (lt_mul_gapAt _)
  have hgap (steps : Nat) :
      steps * gapAt (num / den) = steps <<< ((num / den).log2 - 52) := by
    rw [gapAt, Nat.one_shiftLeft, Nat.shiftLeft_eq]
  unfold roundUnits
  dsimp only
  rw [hgap]
  refine gapAt_dvd_shiftLeft ?_
  split <;> omega

theorem representable_roundUnits {num den : Nat} (h : roundUnits num den < overflowUnits) :
    Representable (roundUnits num den) :=
  ⟨h, gapAt_roundUnits_dvd num den⟩

/-- A count that fits is not moved by rounding. -/
theorem roundUnits_of_representable {u : Nat} (h : Representable u) : roundUnits u 1 = u := by
  obtain ⟨-, k, hk⟩ := h
  have hpos := gapAt_pos u
  have hmod : u % gapAt u = 0 := Nat.mod_eq_zero_of_dvd ⟨k, hk⟩
  have hnot : ¬(gapAt u < 2 * 0 ∨ 2 * 0 = gapAt u ∧ u / gapAt u % 2 = 1) := by omega
  simp only [roundUnits, Nat.div_one, Nat.one_mul, hmod, if_neg hnot]
  exact Nat.div_mul_cancel ⟨k, hk⟩

/-! ## The numbers -/

/-- The size of a finite number, as a representable count of units. -/
structure Magnitude where
  units : Nat
  representable : Representable units
deriving DecidableEq

/-- A number of the 64-bit binary format; zero has two signs. -/
inductive Binary64 where
  | nan
  | infinity (negative : Bool)
  | finite (negative : Bool) (magnitude : Magnitude)
deriving DecidableEq

namespace Binary64

/-- The signed count of units of a finite number. -/
def signedUnits (negative : Bool) (m : Magnitude) : Int :=
  if negative then -(m.units : Int) else m.units

/-- The zero of the given sign. -/
def zero (negative : Bool) : Binary64 := .finite negative ⟨0, representable_zero⟩

/-- The number of the given sign nearest to `num / den` units. -/
def ofQuotient (negative : Bool) (num den : Nat) : Binary64 :=
  if h : roundUnits num den < overflowUnits then
    .finite negative ⟨roundUnits num den, representable_roundUnits h⟩
  else
    .infinity negative

/-- The number nearest to a signed count of units; the zero is the positive one. -/
def ofUnits (units : Int) : Binary64 := ofQuotient (units < 0) units.natAbs 1

/-- The number nearest to an integer. -/
def ofInt (i : Int) : Binary64 := ofUnits (i * unitsPerOne)

instance (n : Nat) : OfNat Binary64 n := ⟨ofInt n⟩

instance : Inhabited Binary64 := ⟨0⟩

def isFinite : Binary64 → Bool
  | .finite .. => true
  | _ => false

/-- The signed count of units, for a finite number. -/
def units? : Binary64 → Option Int
  | .finite s m => some (signedUnits s m)
  | _ => none

/-! ## Arithmetic -/

def neg : Binary64 → Binary64
  | .nan => .nan
  | .infinity s => .infinity !s
  | .finite s m => .finite (!s) m

def abs : Binary64 → Binary64
  | .nan => .nan
  | .infinity _ => .infinity false
  | .finite _ m => .finite false m

/-- An exact sum of zero is the negative zero only when both terms are negative. -/
def add : Binary64 → Binary64 → Binary64
  | .nan, _ => .nan
  | _, .nan => .nan
  | .infinity s, .infinity t => if s = t then .infinity s else .nan
  | .infinity s, .finite .. => .infinity s
  | .finite .., .infinity t => .infinity t
  | .finite s m, .finite t n =>
    let sum := signedUnits s m + signedUnits t n
    if sum = 0 then zero (s && t) else ofUnits sum

/-- The product with a positive whole number. -/
def scale (factor : Nat) : Binary64 → Binary64
  | .nan => .nan
  | .infinity s => .infinity s
  | .finite s m => ofQuotient s (factor * m.units) 1

/-- One divided by the number; a zero gives the infinity of its sign. -/
def reciprocal : Binary64 → Binary64
  | .nan => .nan
  | .infinity s => zero s
  | .finite s m =>
    if m.units = 0 then .infinity s else ofQuotient s (unitsPerOne * unitsPerOne) m.units

instance : Neg Binary64 := ⟨neg⟩
instance : Add Binary64 := ⟨add⟩
instance : Sub Binary64 := ⟨fun x y => x + -y⟩

/-- The sum from the left, starting at zero. -/
def sum (xs : List Binary64) : Binary64 := xs.foldl (· + ·) 0

/-! ## Comparison -/

/-- The numerical order; not-a-number compares with nothing. -/
def compare? : Binary64 → Binary64 → Option Ordering
  | .nan, _ => none
  | _, .nan => none
  | .infinity s, .infinity t => some (compare t s)
  | .infinity s, .finite .. => some (if s then .lt else .gt)
  | .finite .., .infinity t => some (if t then .gt else .lt)
  | .finite s m, .finite t n => some (compare (signedUnits s m) (signedUnits t n))

instance : LT Binary64 := ⟨fun x y => compare? x y = some .lt⟩
instance : LE Binary64 := ⟨fun x y => compare? x y = some .lt ∨ compare? x y = some .eq⟩

instance (x y : Binary64) : Decidable (x < y) :=
  inferInstanceAs (Decidable (compare? x y = some .lt))

instance (x y : Binary64) : Decidable (x ≤ y) :=
  inferInstanceAs (Decidable (_ ∨ _))

/-- Equality of value: the zeros are equal and not-a-number differs from itself. -/
instance : BEq Binary64 := ⟨fun x y => compare? x y == some .eq⟩

/-- The larger of the number and zero; zero for not-a-number. -/
def atLeastZero (x : Binary64) : Binary64 := if 0 < x then x else 0

end Binary64

end HostRouting
