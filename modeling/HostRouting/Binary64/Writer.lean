import HostRouting.Binary64.Basic

/-!
# Writing a number as decimal text

A finite number is written in positional notation with the fewest digits that read back as the
same number. A decimal reads back as `u` units when it lies between the midpoints to the
neighbours of `u`, the midpoints included when `u` is even in its last place. Among the decimals
with the fewest digits the nearest is written, and of two equally near ones the larger.

Main definitions: `Magnitude.shortest` and `Binary64.text`.
-/

namespace HostRouting

namespace Magnitude

/-- Four times the lower end of the decimals that read back as `u` units. The gap below a power of
two is half the gap above it. -/
def lowerQuarters (u : Nat) : Nat :=
  4 * u - if u = 1 <<< u.log2 ∧ 52 < u.log2 then gapAt u else 2 * gapAt u

/-- Four times the upper end of the decimals that read back as `u` units. -/
def upperQuarters (u : Nat) : Nat := 4 * u + 2 * gapAt u

/-- Whether `num / den` units read back as `u` units. -/
def ReadsBack (u num den : Nat) : Prop :=
  if u / gapAt u % 2 = 0 then
    lowerQuarters u * den ≤ 4 * num ∧ 4 * num ≤ upperQuarters u * den
  else
    lowerQuarters u * den < 4 * num ∧ 4 * num < upperQuarters u * den

instance (u num den : Nat) : Decidable (ReadsBack u num den) := by
  unfold ReadsBack; infer_instance

/-- The multiple of `10 ^ exponent` nearest to `u` units among those that read back, in units of
`10 ^ exponent`. -/
def candidate? (u : Nat) (exponent : Int) : Option Nat :=
  let num := Nat.pow 10 (-exponent).toNat
  let den := Nat.pow 10 exponent.toNat * unitsPerOne
  let below := u * num / den
  let rest := u * num % den
  let fits (d : Nat) := ReadsBack u (d * den) num
  if fits (below + 1) ∧ (den ≤ 2 * rest ∨ ¬fits below) then some (below + 1)
  else if fits below then some below
  else none

/-- The decimal `digits * 10 ^ exponent` with the fewest digits that reads back as `u` units. -/
def shortest (u : Nat) : Nat × Int :=
  let top := (u / unitsPerOne).log2 / 3 + 1
  ((List.range (top + 1075)).findSome? fun i : Nat =>
    let exponent : Int := top - i
    (candidate? u exponent).map fun digits => (digits, exponent)).getD (0, 0)

/-- `digits * 10 ^ exponent` in positional notation. -/
def positional (digits : Nat) (exponent : Int) : String :=
  let text := Nat.toDigits 10 digits
  if 0 ≤ exponent then
    String.ofList (text ++ List.replicate exponent.toNat '0')
  else
    let places := (-exponent).toNat
    let padded := List.replicate (places + 1 - text.length) '0' ++ text
    let whole := padded.length - places
    String.ofList (padded.take whole ++ '.' :: padded.drop whole)

def text (m : Magnitude) : String :=
  if m.units = 0 then "0" else positional (shortest m.units).1 (shortest m.units).2

end Magnitude

/-- The decimal text of a number; the sign of zero is kept. -/
def Binary64.text : Binary64 → String
  | .nan => "NaN"
  | .infinity s => if s then "-inf" else "inf"
  | .finite s m => if s then "-" ++ m.text else m.text

instance : ToString Binary64 := ⟨Binary64.text⟩

end HostRouting
