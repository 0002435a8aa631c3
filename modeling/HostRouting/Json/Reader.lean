import HostRouting.Binary64.Reader
import HostRouting.Json.Basic

/-!
# Reading JSON text

A text is one value with blanks around it. A number without fraction and power of ten is a whole
number when 64 bits hold it, signed or unsigned, and otherwise the nearest binary number; so is the
negative zero. A number beyond the largest finite one and a string with half of a surrogate pair
are unreadable.

Main definition: `Json.ofText?`.
-/

namespace HostRouting.Json

def skipBlanks : List Char → List Char
  | [] => []
  | c :: rest =>
    if c = ' ' ∨ c = '\n' ∨ c = '\t' ∨ c = '\r' then skipBlanks rest else c :: rest

/-! ## Strings -/

def hexDigit? (c : Char) : Option Nat :=
  if '0' ≤ c ∧ c ≤ '9' then some (c.toNat - '0'.toNat)
  else if 'a' ≤ c ∧ c ≤ 'f' then some (c.toNat - 'a'.toNat + 10)
  else if 'A' ≤ c ∧ c ≤ 'F' then some (c.toNat - 'A'.toNat + 10)
  else none

/-- Four hexadecimal digits. -/
def codeUnit? : List Char → Option (Nat × List Char)
  | a :: b :: c :: d :: rest => do
    let a ← hexDigit? a
    let b ← hexDigit? b
    let c ← hexDigit? c
    let d ← hexDigit? d
    some (((a * 16 + b) * 16 + c) * 16 + d, rest)
  | _ => none

/-- The code unit that completes a surrogate pair, written as an escape of its own. -/
def lowSurrogate? : List Char → Option (Nat × List Char)
  | '\\' :: 'u' :: rest => (codeUnit? rest).filter fun unit => 0xDC00 ≤ unit.1 ∧ unit.1 < 0xE000
  | _ => none

/-- The character after `\u`, if it is one: a code unit, or a surrogate pair written as two
escapes. -/
def unicodeEscape? (cs : List Char) : Option (Option Char × List Char) :=
  (codeUnit? cs).map fun (unit, rest) =>
    if 0xD800 ≤ unit ∧ unit < 0xDC00 then
      match lowSurrogate? rest with
      | some (low, rest) =>
        (some (Char.ofNat (0x10000 + (unit - 0xD800) * 0x400 + (low - 0xDC00))), rest)
      | none => (none, rest)
    else if 0xDC00 ≤ unit ∧ unit < 0xE000 then (none, rest)
    else (some (Char.ofNat unit), rest)

def simpleEscape? : Char → Option Char
  | '"' => some '"'
  | '\\' => some '\\'
  | '/' => some '/'
  | 'b' => some '\x08'
  | 'f' => some '\x0c'
  | 'n' => some '\n'
  | 'r' => some '\r'
  | 't' => some '\t'
  | _ => none

/-- A string after its opening quote, if it is one, with the characters already read in reverse
order; the first argument bounds the number of characters. -/
def stringTail? : Nat → Option (List Char) → List Char → Option (Option String × List Char)
  | 0, _, _ => none
  | n + 1, done, cs =>
    match cs with
    | [] => none
    | '"' :: rest => some (done.map fun cs => String.ofList cs.reverse, rest)
    | '\\' :: 'u' :: rest =>
      match unicodeEscape? rest with
      | some (some c, rest) => stringTail? n (done.map (c :: ·)) rest
      | some (none, rest) => stringTail? n none rest
      | none => none
    | '\\' :: e :: rest =>
      match simpleEscape? e with
      | some c => stringTail? n (done.map (c :: ·)) rest
      | none => none
    | c :: rest => if c.toNat < 0x20 then none else stringTail? n (done.map (c :: ·)) rest

/-! ## Numbers -/

/-- A whole number without leading zeros. -/
def wholePart? (cs : List Char) : Option (Nat × List Char) :=
  match takeDigits 0 0 cs with
  | (value, count, rest) =>
    if count = 0 then none
    else if cs.head? = some '0' ∧ count ≠ 1 then none
    else some (value, rest)

/-- The digits after the point, appended to those before it, and how many they are. -/
def fractionPart? (whole : Nat) : List Char → Option (Nat × Nat × List Char)
  | '.' :: rest =>
    match takeDigits whole 0 rest with
    | (_, 0, _) => none
    | found => some found
  | rest => some (whole, 0, rest)

def signedDigits? (negative : Bool) (cs : List Char) : Option (Int × List Char) :=
  match takeDigits 0 0 cs with
  | (_, 0, _) => none
  | (value, _, rest) => some (if negative then -(value : Int) else value, rest)

def powerPart? : List Char → Option (Int × List Char)
  | 'e' :: '-' :: rest => signedDigits? true rest
  | 'E' :: '-' :: rest => signedDigits? true rest
  | 'e' :: '+' :: rest => signedDigits? false rest
  | 'E' :: '+' :: rest => signedDigits? false rest
  | 'e' :: rest => signedDigits? false rest
  | 'E' :: rest => signedDigits? false rest
  | rest => some (0, rest)

/-- A number, unless it is beyond the largest finite one. -/
def ofFinite (x : Binary64) : Json := if x.isFinite then .number x else .unreadable

/-- A number whose digits and sign have been read, with no fraction and no power of ten. -/
def ofWhole (negative : Bool) (value : Nat) : Json :=
  if negative then
    if 0 < value ∧ value ≤ UInt64.size / 2 then .integer (-(value : Int))
    else ofFinite (Binary64.ofDecimal true value 0)
  else if value < UInt64.size then .integer value
  else ofFinite (Binary64.ofDecimal false value 0)

/-- Whether a fraction or a power of ten follows. -/
def goesOn : List Char → Bool
  | '.' :: _ => true
  | 'e' :: _ => true
  | 'E' :: _ => true
  | _ => false

def numberValue? (negative : Bool) (cs : List Char) : Option (Json × List Char) := do
  let (whole, rest) ← wholePart? cs
  if goesOn rest then
    let (digits, places, rest) ← fractionPart? whole rest
    let (power, rest) ← powerPart? rest
    some (ofFinite (Binary64.ofDecimal negative digits (power - places)), rest)
  else some (ofWhole negative whole, rest)

/-! ## Values -/

def ofString : Option String → Json
  | some s => .text s
  | none => .unreadable

/-- An object whose members have been read in reverse order, if all their names are strings. -/
def ofMembers : Option (List (String × Json)) → Json
  | some members => .object members.reverse
  | none => .unreadable

mutual

/-- One value and the text after it; the first argument bounds the number of steps. -/
def value? : Nat → List Char → Option (Json × List Char)
  | 0, _ => none
  | n + 1, cs =>
    match skipBlanks cs with
    | 'n' :: 'u' :: 'l' :: 'l' :: rest => some (.null, rest)
    | 't' :: 'r' :: 'u' :: 'e' :: rest => some (.bool true, rest)
    | 'f' :: 'a' :: 'l' :: 's' :: 'e' :: rest => some (.bool false, rest)
    | '"' :: rest => (stringTail? (n + 1) (some []) rest).map fun (s, rest) => (ofString s, rest)
    | '[' :: rest =>
      match skipBlanks rest with
      | ']' :: rest => some (.array [], rest)
      | rest => (items? n [] rest).map fun (items, rest) => (.array items, rest)
    | '\x7b' :: rest =>
      match skipBlanks rest with
      | '\x7d' :: rest => some (.object [], rest)
      | rest => (members? n (some []) rest).map fun (members, rest) => (ofMembers members, rest)
    | '-' :: rest => numberValue? true rest
    | rest => numberValue? false rest

/-- The items of an array that is not empty, up to its closing bracket. -/
def items? : Nat → List Json → List Char → Option (List Json × List Char)
  | 0, _, _ => none
  | n + 1, done, cs =>
    match value? n cs with
    | none => none
    | some (item, rest) =>
      match skipBlanks rest with
      | ',' :: rest => items? n (item :: done) rest
      | ']' :: rest => some ((item :: done).reverse, rest)
      | _ => none

/-- The members of an object that is not empty in reverse order, up to its closing brace. -/
def members? : Nat → Option (List (String × Json)) → List Char →
    Option (Option (List (String × Json)) × List Char)
  | 0, _, _ => none
  | n + 1, done, cs =>
    match skipBlanks cs with
    | '"' :: rest =>
      match stringTail? (n + 1) (some []) rest with
      | none => none
      | some (name, rest) =>
        match skipBlanks rest with
        | ':' :: rest =>
          match value? n rest with
          | none => none
          | some (value, rest) =>
            let done := name.bind fun name => done.map ((name, value) :: ·)
            match skipBlanks rest with
            | ',' :: rest => members? n done rest
            | '\x7d' :: rest => some (done, rest)
            | _ => none
        | _ => none
    | _ => none

end

/-- The value that a text denotes. -/
def ofText? (text : String) : Option Json :=
  let cs := text.toList
  match value? (2 * cs.length + 2) cs with
  | some (value, rest) => if skipBlanks rest = [] then some value else none
  | none => none

end HostRouting.Json
