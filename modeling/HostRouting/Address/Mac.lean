import HostRouting.Error
import HostRouting.Json.Reader

/-!
# Ethernet addresses

An address is six octets, written as six groups of two lower-case hexadecimal digits between
colons. Reading takes either case; the first digit of a group may also be a plus sign, which
stands for nothing.

Main definitions: `MacAddress.ofText` and `MacAddress.text`.
-/

namespace HostRouting

/-- A 48-bit Ethernet address. -/
structure MacAddress where
  octets : Vector UInt8 6
deriving DecidableEq

namespace MacAddress

/-- Two hexadecimal digits, or a plus sign and one. -/
def group? : List Char → Option UInt8
  | ['+', low] => (Json.hexDigit? low).map UInt8.ofNat
  | [high, low] => do
    let high ← Json.hexDigit? high
    let low ← Json.hexDigit? low
    some (UInt8.ofNat (high * 16 + low))
  | _ => none

/-- The parts of a text between the occurrences of a separator. -/
def splitAt (separator : Char) : List Char → List (List Char)
  | [] => [[]]
  | c :: rest =>
    if c = separator then [] :: splitAt separator rest
    else
      match splitAt separator rest with
      | part :: parts => (c :: part) :: parts
      | [] => [[c]]

def ofText? (s : String) : Option MacAddress :=
  match (splitAt ':' s.toList).mapM group? with
  | some [a, b, c, d, e, f] => some ⟨#v[a, b, c, d, e, f]⟩
  | _ => none

/-- The address that a text denotes, or the error that names the text. -/
def ofText (s : String) : Except Error MacAddress :=
  match ofText? s with
  | some mac => .ok mac
  | none => .error (.serialization ("invalid MAC address " ++ quoted s))

/-- Two lower-case hexadecimal digits. -/
def groupText (octet : UInt8) : String :=
  String.ofList [Nat.digitChar (octet.toNat / 16), Nat.digitChar (octet.toNat % 16)]

def text (mac : MacAddress) : String := ":".intercalate (mac.octets.toList.map groupText)

instance : ToString MacAddress := ⟨text⟩

end MacAddress

instance : Json.Decode MacAddress where
  decode v := do
    let s ← Json.decodeText v
    (MacAddress.ofText s).mapError fun e => .refused e.message

instance : Json.Encode MacAddress := ⟨fun mac => .text mac.text⟩

end HostRouting
