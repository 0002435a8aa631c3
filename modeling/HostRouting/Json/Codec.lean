import HostRouting.Json.Basic

/-!
# Reading and writing domain values as JSON

A record is written as an object of its members. It is read from an object, whose unknown members
are ignored, or from an array of the members in their declared order. When several members are at
fault, the fault reported is that of the member that comes first in the value; a missing member is
reported after all faults of present ones.

Main definitions: the classes `Json.Decode` and `Json.Encode`, and the applicative `Fields`, which
describes a record member by member.
-/

namespace HostRouting.Json

/-- Why a value does not denote what is asked for. -/
inductive Fault where
  /-- The value has another shape than the one named. -/
  | expected (what : String)
  | missing (member : String)
  | repeated (member : String)
  | tooLong
  /-- The value has the right shape, and its type refuses it for the reason given. -/
  | refused (reason : String)
deriving DecidableEq

def Fault.message : Fault → String
  | .expected what => "expected " ++ what
  | .missing member => "missing field " ++ member
  | .repeated member => "duplicate field " ++ member
  | .tooLong => "too many elements"
  | .refused reason => reason

/-- Types whose values are read from JSON. -/
class Decode (α : Type) where
  decode : Json → Except Fault α

/-- Types whose values are written as JSON. -/
class Encode (α : Type) where
  encode : α → Json

export Decode (decode)
export Encode (encode)

/-! ## Plain values -/

def decodeText : Json → Except Fault String
  | .text s => .ok s
  | _ => .error (.expected "a string")

/-- A whole number below a bound. -/
def decodeBelow (bound : Nat) : Json → Except Fault Nat
  | .integer i =>
    if 0 ≤ i ∧ i < bound then .ok i.toNat else .error (.expected "a whole number in range")
  | _ => .error (.expected "a whole number")

instance : Decode Json := ⟨.ok⟩
instance : Decode String := ⟨decodeText⟩
instance : Decode Nat := ⟨decodeBelow UInt64.size⟩
instance : Decode UInt8 := ⟨fun v => (decodeBelow UInt8.size v).map UInt8.ofNat⟩
instance : Decode UInt16 := ⟨fun v => (decodeBelow UInt16.size v).map UInt16.ofNat⟩
instance : Decode UInt32 := ⟨fun v => (decodeBelow UInt32.size v).map UInt32.ofNat⟩
instance : Decode UInt64 := ⟨fun v => (decodeBelow UInt64.size v).map UInt64.ofNat⟩

instance : Decode Bool where
  decode
    | .bool b => .ok b
    | _ => .error (.expected "a boolean")

instance : Decode Binary64 where
  decode
    | .integer i => .ok (.ofInt i)
    | .number x => .ok x
    | _ => .error (.expected "a number")

def decodeItems {α : Type} [Decode α] : List Json → Except Fault (List α)
  | [] => .ok []
  | v :: rest => do
    let a ← decode v
    let as ← decodeItems rest
    .ok (a :: as)

instance {α : Type} [Decode α] : Decode (List α) where
  decode
    | .array items => decodeItems items
    | _ => .error (.expected "an array")

instance {α : Type} [Decode α] : Decode (Option α) where
  decode
    | .null => .ok none
    | v => (decode v).map some

instance : Encode Json := ⟨id⟩
instance : Encode String := ⟨.text⟩
instance : Encode Bool := ⟨.bool⟩
instance : Encode Nat := ⟨fun n => .integer n⟩
instance : Encode UInt8 := ⟨fun n => .integer n.toNat⟩
instance : Encode UInt16 := ⟨fun n => .integer n.toNat⟩
instance : Encode UInt32 := ⟨fun n => .integer n.toNat⟩
instance : Encode UInt64 := ⟨fun n => .integer n.toNat⟩

/-- JSON has no infinite numbers: they are written as null. -/
instance : Encode Binary64 := ⟨fun x => if x.isFinite then .number x else .null⟩

instance {α : Type} [Encode α] : Encode (List α) := ⟨fun xs => .array (xs.map encode)⟩

instance {α : Type} [Encode α] : Encode (Option α) where
  encode
    | none => .null
    | some a => encode a

/-! ## Tags -/

/-- A value named by its tag, alone or as the only member of an object with an empty value. -/
def decodeTagBeside {α : Type} (isEmpty : Json → Bool) (tags : List (String × α)) (v : Json) :
    Except Fault α :=
  let tag :=
    match v with
    | .text s => some s
    | .object [(s, value)] => if isEmpty value then some s else none
    | _ => none
  match tag.bind fun s => tags.lookup s with
  | some a => .ok a
  | none => .error (.expected "a known tag")

def isNull : Json → Bool
  | .null => true
  | _ => false

/-- A value named by its tag; beside a tag may stand null. -/
def decodeTag {α : Type} (tags : List (String × α)) (v : Json) : Except Fault α :=
  decodeTagBeside isNull tags v

/-- The only member of an object. -/
def decodeSingle : Json → Except Fault (String × Json)
  | .object [member] => .ok member
  | _ => .error (.expected "an object with one member")

/-- A value made of a tag and what stands beside it: an object with the members `type` and `value`,
or an array of the two, where the tag is text and the value always there. That an array has more
items is a fault after those of the two. -/
def decodeTagged {τ α : Type} (tags : List (String × τ))
    (decodeValue : τ → Option Json → Except Fault α) : Json → Except Fault α
  | .object members =>
    match members.filter (·.1 = "type"), members.filter (·.1 = "value") with
    | [(_, tag)], [] => do decodeValue (← decodeTag tags tag) none
    | [(_, tag)], [(_, value)] => do decodeValue (← decodeTag tags tag) (some value)
    | [], _ => .error (.missing "type")
    | _, _ => .error (.repeated "value")
  | .array (.text tag :: value :: rest) => do
    let a ← decodeValue (← decodeTag tags (.text tag)) (some value)
    if rest.isEmpty then .ok a else .error .tooLong
  | _ => .error (.expected "a tag with a value")

/-! ## Records -/

/-- The members of a record that is being read, each with its place in the value. -/
structure Members where
  /-- Whether the record is an array of its members. -/
  positional : Bool
  find? : String → Option (Nat × Json)
  count : Nat

/-- A reader of some members of a record. -/
structure Fields (α : Type) where
  names : List String
  read : Members → Except (Nat × Fault) α

namespace Fields

/-- Of two faults the one that comes first in the value. -/
def firstFault (a b : Nat × Fault) : Nat × Fault := if b.1 < a.1 then b else a

instance : Applicative Fields where
  pure a := ⟨[], fun _ => .ok a⟩
  seq f x := ⟨f.names ++ (x ()).names, fun ms =>
    match f.read ms, (x ()).read ms with
    | .ok g, .ok a => .ok (g a)
    | .error e, .ok _ => .error e
    | .ok _, .error e => .error e
    | .error e, .error d => .error (firstFault e d)⟩

/-- A member, with what stands for it when it is absent. -/
def member {α : Type} [Decode α] (name : String) (absent : Members → Except (Nat × Fault) α) :
    Fields α :=
  ⟨[name], fun ms =>
    match ms.find? name with
    | some (place, v) => (decode v).mapError fun fault => (place, fault)
    | none => absent ms⟩

def required {α : Type} [Decode α] (name : String) : Fields α :=
  member name fun ms => .error (ms.count, .missing name)

/-- A member that an object may leave out, but an array may not. -/
def optional {α : Type} [Decode α] (name : String) : Fields (Option α) :=
  member name fun ms => if ms.positional then .error (ms.count, .missing name) else .ok none

/-- A member that may be left out, in an array at its end. -/
def defaulted {α : Type} [Decode α] (name : String) (value : α) : Fields α :=
  member name fun _ => .ok value

/-- A member with its place. -/
def findMember (name : String) (place : Nat) : List (String × Json) → Option (Nat × Json)
  | [] => none
  | (n, v) :: rest => if n = name then some (place, v) else findMember name (place + 1) rest

/-- An item of an array by the declared name of its place. -/
def findItem (name : String) (place : Nat) : List String → List Json → Option (Nat × Json)
  | n :: names, v :: items =>
    if n = name then some (place, v) else findItem name (place + 1) names items
  | _, _ => none

/-- A declared name that occurs twice. -/
def repeated? (names : List String) (members : List (String × Json)) : Option String :=
  names.find? fun name => 1 < (members.filter fun m => m.1 = name).length

def decodeObject {α : Type} (fields : Fields α) (members : List (String × Json)) :
    Except Fault α :=
  match repeated? fields.names members with
  | some name => .error (.repeated name)
  | none =>
    (fields.read ⟨false, fun name => findMember name 0 members, members.length⟩).mapError (·.2)

def decodeArray {α : Type} (fields : Fields α) (items : List Json) : Except Fault α :=
  match fields.read ⟨true, fun name => findItem name 0 fields.names items, items.length⟩ with
  | .error (_, fault) => .error fault
  | .ok a => if fields.names.length < items.length then .error .tooLong else .ok a

/-- Reads a record from an object or an array. -/
def decode {α : Type} (fields : Fields α) : Json → Except Fault α
  | .object members => fields.decodeObject members
  | .array items => fields.decodeArray items
  | _ => .error (.expected "a record")

end Fields

end HostRouting.Json
