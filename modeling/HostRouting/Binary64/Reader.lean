import HostRouting.Binary64.Basic

/-!
# Reading a number from decimal text

The text is an optional sign followed by `inf`, `infinity` or `nan` in any letter case, or by
decimal digits with an optional fraction and an optional power of ten. There is at least one digit
before or after the point, and at least one in the power. The result is the number nearest to the
decimal.

Main definitions: `Binary64.ofDecimal` and `Binary64.ofText?`.
-/

namespace HostRouting

/-- The value of an ASCII decimal digit. -/
def decimalDigit? (c : Char) : Option Nat :=
  if '0' ≤ c ∧ c ≤ '9' then some (c.toNat - '0'.toNat) else none

/-- The value of a run of decimal digits after a leading value, and the text that follows. -/
def takeDigits (value count : Nat) : List Char → Nat × Nat × List Char
  | [] => (value, count, [])
  | c :: rest =>
    match decimalDigit? c with
    | some d => takeDigits (value * 10 + d) (count + 1) rest
    | none => (value, count, c :: rest)

/-- The number that a run consisting of decimal digits alone denotes. -/
def digits? (cs : List Char) : Option Nat :=
  match takeDigits 0 0 cs with
  | (value, count, []) => if count = 0 then none else some value
  | _ => none

namespace Binary64

/-- The number nearest to `digits * 10 ^ exponent`. Powers far outside the range of the format are
answered without computing them. -/
def ofDecimal (negative : Bool) (digits : Nat) (exponent : Int) : Binary64 :=
  if digits = 0 then zero negative
  else if 400 < exponent then .infinity negative
  else if exponent + digits.log2 < -400 then zero negative
  else if 0 ≤ exponent then ofQuotient negative (digits * Nat.pow 10 exponent.toNat * unitsPerOne) 1
  else ofQuotient negative (digits * unitsPerOne) (Nat.pow 10 (-exponent).toNat)

/-- The power of ten at the end of a number, `0` when there is none. -/
def exponent? : List Char → Option Int
  | [] => some 0
  | c :: rest =>
    if c = 'e' ∨ c = 'E' then
      match rest with
      | '-' :: ds => (digits? ds).map fun n => -(n : Int)
      | '+' :: ds => (digits? ds).map fun n => (n : Int)
      | ds => (digits? ds).map fun n => (n : Int)
    else none

/-- Digits, an optional fraction and an optional power of ten. -/
def unsignedDecimal? (negative : Bool) (cs : List Char) : Option Binary64 :=
  let (whole, count, rest) := takeDigits 0 0 cs
  let (digits, places, rest) :=
    match rest with
    | '.' :: fraction => takeDigits whole 0 fraction
    | rest => (whole, 0, rest)
  if count + places = 0 then none
  else (exponent? rest).map fun e => ofDecimal negative digits (e - places)

/-- A named value or a decimal. -/
def unsigned? (negative : Bool) (cs : List Char) : Option Binary64 :=
  let word := String.ofList (cs.map Char.toLower)
  if word = "inf" ∨ word = "infinity" then some (.infinity negative)
  else if word = "nan" then some .nan
  else unsignedDecimal? negative cs

/-- The number that a text denotes, without blanks around it. -/
def ofText? : List Char → Option Binary64
  | '-' :: cs => unsigned? true cs
  | '+' :: cs => unsigned? false cs
  | cs => unsigned? false cs

end Binary64

end HostRouting
