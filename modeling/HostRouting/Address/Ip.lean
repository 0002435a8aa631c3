import HostRouting.Json.Codec
import HostRouting.Json.Reader
import HostRouting.Order

/-!
# Internet addresses

Version 4 addresses are four decimal octets without leading zeros. Version 6 addresses are eight
hexadecimal groups; one run of zero groups may be written as two colons, and the last two groups as
a version 4 address. A version 6 address is written with the first of its longest runs of at least
two zero groups left out; one that carries a version 4 address after `::ffff` shows it as such.

The readers take the start of a text and give back what follows, as the longer forms are built from
the shorter ones.

Main definitions: `IpAddress.ofText?`, `IpAddress.text`, and the same for `SocketAddress`, an
address with a port.
-/

namespace HostRouting

open Std

/-- A version 4 address. -/
structure Ipv4Address where
  octets : Vector UInt8 4
deriving DecidableEq

/-- A version 6 address. -/
structure Ipv6Address where
  groups : Vector UInt16 8
deriving DecidableEq

/-- An address of either version. -/
inductive IpAddress where
  | v4 (address : Ipv4Address)
  | v6 (address : Ipv6Address)
deriving DecidableEq

/-! ## Numbers within an address -/

/-- The value of the longest run of at most `limit` digits of a radix, the number of digits, and
what follows. -/
def takeRadix (radix : Nat) : Nat → Nat → Nat → List Char → Nat × Nat × List Char
  | 0, value, count, cs => (value, count, cs)
  | _ + 1, value, count, [] => (value, count, [])
  | n + 1, value, count, c :: rest =>
    match Json.hexDigit? c with
    | some d =>
      if d < radix then takeRadix radix n (value * radix + d) (count + 1) rest
      else (value, count, c :: rest)
    | none => (value, count, c :: rest)

/-- A number below a bound, of at most `limit` digits followed by no further digit. -/
def radixNumber? (radix limit bound : Nat) (cs : List Char) :
    Option (Nat × Nat × List Char) :=
  match takeRadix radix (limit + 1) 0 0 cs with
  | (value, count, rest) =>
    if 0 < count ∧ count ≤ limit ∧ value < bound then some (value, count, rest) else none

/-- Expects a character. -/
def expect? (c : Char) : List Char → Option (List Char)
  | d :: rest => if d = c then some rest else none
  | [] => none

/-! ## Version 4 -/

namespace Ipv4Address

/-- A decimal octet without leading zeros. -/
def octet? (cs : List Char) : Option (UInt8 × List Char) := do
  let (value, count, rest) ← radixNumber? 10 3 256 cs
  if cs.head? = some '0' ∧ count ≠ 1 then none else some (UInt8.ofNat value, rest)

def start? (cs : List Char) : Option (Ipv4Address × List Char) := do
  let (a, cs) ← octet? cs
  let cs ← expect? '.' cs
  let (b, cs) ← octet? cs
  let cs ← expect? '.' cs
  let (c, cs) ← octet? cs
  let cs ← expect? '.' cs
  let (d, cs) ← octet? cs
  some (⟨#v[a, b, c, d]⟩, cs)

def ofText? (s : String) : Option Ipv4Address :=
  match start? s.toList with
  | some (a, []) => some a
  | _ => none

def text (a : Ipv4Address) : String :=
  ".".intercalate (a.octets.toList.map fun o => toString o.toNat)

instance : ToString Ipv4Address := ⟨text⟩

instance : Ord Ipv4Address := ⟨compareOn fun a => a.octets.toList⟩

instance : TransOrd Ipv4Address := inferInstanceAs (TransCmp (compareOn _))

instance : LawfulEqOrd Ipv4Address where
  compare_self := by
    intro a
    exact compareOn_eq_iff.2 rfl
  eq_of_compare := by
    intro a b h
    cases a; cases b
    exact congrArg mk (Vector.toList_inj.1 (compareOn_eq_iff.1 h))

end Ipv4Address

/-! ## Version 6 -/

namespace Ipv6Address

/-- The two groups that a version 4 address fills. -/
def groupsOf (a : Ipv4Address) : List UInt16 :=
  [a.octets[0].toUInt16 <<< 8 ||| a.octets[1].toUInt16,
   a.octets[2].toUInt16 <<< 8 ||| a.octets[3].toUInt16]

/-- What a reader gives after a colon, which the first group of a run has not. -/
def afterColon {α : Type} (first : Bool) (read : List Char → Option α) (cs : List Char) :
    Option α :=
  if first then read cs else (expect? ':' cs).bind read

/-- A hexadecimal group of at most four digits. -/
def group? (cs : List Char) : Option (UInt16 × List Char) := do
  let (value, _, rest) ← radixNumber? 16 4 65536 cs
  some (UInt16.ofNat value, rest)

/-- As many groups as the text has and the space allows, whether they end in a version 4 address,
and what follows. -/
def takeGroups : Nat → Bool → List Char → List UInt16 × Bool × List Char
  | 0, _, cs => ([], false, cs)
  | space + 1, first, cs =>
    match (if space = 0 then none else afterColon first Ipv4Address.start? cs) with
    | some (a, rest) => (groupsOf a, true, rest)
    | none =>
      match afterColon first group? cs with
      | none => ([], false, cs)
      | some (g, rest) =>
        match takeGroups space false rest with
        | (gs, embedded, rest) => (g :: gs, embedded, rest)

/-- The address of eight groups. -/
def ofGroups? : List UInt16 → Option Ipv6Address
  | [a, b, c, d, e, f, g, h] => some ⟨#v[a, b, c, d, e, f, g, h]⟩
  | _ => none

def start? (cs : List Char) : Option (Ipv6Address × List Char) :=
  match takeGroups 8 true cs with
  | (head, embedded, rest) =>
    if head.length = 8 then (ofGroups? head).map (·, rest)
    else if embedded then none
    else do
      let rest ← expect? ':' rest
      let rest ← expect? ':' rest
      match takeGroups (7 - head.length) true rest with
      | (tail, _, rest) =>
        let zeros := List.replicate (8 - head.length - tail.length) 0
        (ofGroups? (head ++ zeros ++ tail)).map (·, rest)

def ofText? (s : String) : Option Ipv6Address :=
  match start? s.toList with
  | some (a, []) => some a
  | _ => none

/-- The start and the length of the first longest run of zeros. -/
def longestZeros (gs : List UInt16) : Nat × Nat :=
  let runs := (List.range gs.length).map fun i => (i, ((gs.drop i).takeWhile (· = 0)).length)
  runs.foldl (fun best run => if best.2 < run.2 then run else best) (0, 0)

def groupsText (gs : List UInt16) : String :=
  ":".intercalate (gs.map fun g => String.ofList (Nat.toDigits 16 g.toNat))

/-- The version 4 address after `::ffff`, if the address carries one. -/
def mapped? (a : Ipv6Address) : Option Ipv4Address :=
  match a.groups.toList with
  | [0, 0, 0, 0, 0, 0xFFFF, high, low] =>
    some ⟨#v[(high >>> 8).toUInt8, high.toUInt8, (low >>> 8).toUInt8, low.toUInt8]⟩
  | _ => none

def text (a : Ipv6Address) : String :=
  match a.mapped? with
  | some v4 => "::ffff:" ++ v4.text
  | none =>
    let gs := a.groups.toList
    let (start, length) := longestZeros gs
    if 1 < length then
      groupsText (gs.take start) ++ "::" ++ groupsText (gs.drop (start + length))
    else groupsText gs

instance : Ord Ipv6Address := ⟨compareOn fun a => a.groups.toList⟩

instance : TransOrd Ipv6Address := inferInstanceAs (TransCmp (compareOn _))

instance : LawfulEqOrd Ipv6Address where
  compare_self := by
    intro a
    exact compareOn_eq_iff.2 rfl
  eq_of_compare := by
    intro a b h
    cases a; cases b
    exact congrArg mk (Vector.toList_inj.1 (compareOn_eq_iff.1 h))

end Ipv6Address

/-! ## Either version -/

namespace IpAddress

def ofText? (s : String) : Option IpAddress :=
  match Ipv4Address.ofText? s with
  | some a => some (.v4 a)
  | none => (Ipv6Address.ofText? s).map .v6

def text : IpAddress → String
  | .v4 a => a.text
  | .v6 a => a.text

instance : ToString IpAddress := ⟨text⟩

/-- The version and the parts; version 4 comes first. -/
def orderKey : IpAddress → Nat × List Nat
  | .v4 a => (4, a.octets.toList.map UInt8.toNat)
  | .v6 a => (6, a.groups.toList.map UInt16.toNat)

theorem orderKey_injective {a b : IpAddress} (h : a.orderKey = b.orderKey) : a = b := by
  cases a <;> cases b <;> simp only [orderKey, Prod.mk.injEq] at h
  · rename_i a b
    cases a; cases b
    simp only [v4.injEq, Ipv4Address.mk.injEq, ← Vector.toList_inj]
    exact List.map_inj_right (fun _ _ => UInt8.toNat.inj) |>.1 h.2
  · omega
  · omega
  · rename_i a b
    cases a; cases b
    simp only [v6.injEq, Ipv6Address.mk.injEq, ← Vector.toList_inj]
    exact List.map_inj_right (fun _ _ => UInt16.toNat.inj) |>.1 h.2

instance : Ord IpAddress :=
  ⟨compareLex (compareOn fun a => a.orderKey.1) (compareOn fun a => a.orderKey.2)⟩

instance : TransOrd IpAddress := inferInstanceAs (TransCmp (compareLex _ _))

instance : LawfulEqOrd IpAddress where
  compare_self := by
    intro a
    exact compareLex_eq_iff.2 ⟨compareOn_eq_iff.2 rfl, compareOn_eq_iff.2 rfl⟩
  eq_of_compare := by
    intro a b h
    have h := compareLex_eq_iff.1 h
    exact orderKey_injective (Prod.ext (compareOn_eq_iff.1 h.1) (compareOn_eq_iff.1 h.2))

end IpAddress

/-! ## Addresses with a port -/

/-- An address, the number of its zone, which version 4 has not, and a port. -/
structure SocketAddress where
  address : IpAddress
  zone : UInt32
  port : UInt16
deriving DecidableEq

namespace SocketAddress

/-- A decimal number below a bound, which may have leading zeros. -/
def decimal? (bound : Nat) (cs : List Char) : Option (Nat × List Char) :=
  match takeDigits 0 0 cs with
  | (value, count, rest) => if 0 < count ∧ value < bound then some (value, rest) else none

def v4? (cs : List Char) : Option SocketAddress := do
  let (a, cs) ← Ipv4Address.start? cs
  let cs ← expect? ':' cs
  let (port, cs) ← decimal? 65536 cs
  if cs = [] then some ⟨.v4 a, 0, UInt16.ofNat port⟩ else none

def v6? (cs : List Char) : Option SocketAddress := do
  let cs ← expect? '[' cs
  let (a, cs) ← Ipv6Address.start? cs
  let (zone, cs) :=
    match (expect? '%' cs).bind (decimal? UInt32.size) with
    | some found => found
    | none => (0, cs)
  let cs ← expect? ']' cs
  let cs ← expect? ':' cs
  let (port, cs) ← decimal? 65536 cs
  if cs = [] then some ⟨.v6 a, UInt32.ofNat zone, UInt16.ofNat port⟩ else none

def ofText? (s : String) : Option SocketAddress :=
  match v4? s.toList with
  | some a => some a
  | none => v6? s.toList

def text (s : SocketAddress) : String :=
  let port := ":" ++ toString s.port.toNat
  match s.address with
  | .v4 a => a.text ++ port
  | .v6 a =>
    let zone := if s.zone = 0 then "" else "%" ++ toString s.zone.toNat
    "[" ++ a.text ++ zone ++ "]" ++ port

end SocketAddress

/-! ## JSON form -/

instance : Json.Decode Ipv4Address where
  decode v := do
    let s ← Json.decodeText v
    match Ipv4Address.ofText? s with
    | some a => .ok a
    | none => .error (.refused "invalid IPv4 address syntax")

instance : Json.Decode IpAddress where
  decode v := do
    let s ← Json.decodeText v
    match IpAddress.ofText? s with
    | some a => .ok a
    | none => .error (.refused "invalid IP address syntax")

instance : Json.Encode Ipv4Address := ⟨fun a => .text a.text⟩
instance : Json.Encode IpAddress := ⟨fun a => .text a.text⟩

end HostRouting
