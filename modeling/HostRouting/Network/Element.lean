import HostRouting.Json.Codec
import HostRouting.Order

/-!
# Elements and connect points

The ends of links: devices, which forward traffic, and hosts, which send and receive it. A connect
point is an element with a port.
-/

namespace HostRouting

open Std

/-! ## Identifiers -/

/-- The name of a device. -/
structure DeviceId where
  name : String
deriving DecidableEq

/-- The name of a host, conventionally its Ethernet address, a slash and its virtual network. -/
structure HostId where
  name : String
deriving DecidableEq

/-- Either end of a link. -/
inductive ElementId where
  | device (id : DeviceId)
  | host (id : HostId)
deriving DecidableEq

/-- A port of a device. Hosts attach through port 0. -/
abbrev PortNumber : Type := UInt64

instance : Ord DeviceId := ⟨compareOn DeviceId.name⟩

instance : TransOrd DeviceId := inferInstanceAs (TransCmp (compareOn _))

instance : LawfulEqOrd DeviceId where
  compare_self := by
    intro a
    exact compareOn_eq_iff.2 rfl
  eq_of_compare := by
    intro a b h
    cases a; cases b
    exact congrArg DeviceId.mk (compareOn_eq_iff.1 h)

instance : Ord HostId := ⟨compareOn HostId.name⟩

instance : TransOrd HostId := inferInstanceAs (TransCmp (compareOn _))

instance : LawfulEqOrd HostId where
  compare_self := by
    intro a
    exact compareOn_eq_iff.2 rfl
  eq_of_compare := by
    intro a b h
    cases a; cases b
    exact congrArg HostId.mk (compareOn_eq_iff.1 h)

namespace ElementId

def isDevice : ElementId → Bool
  | .device _ => true
  | .host _ => false

def name : ElementId → String
  | .device id => id.name
  | .host id => id.name

end ElementId

/-- Devices come before hosts. -/
instance : Ord ElementId :=
  ⟨compareLex (compareOn fun e => !e.isDevice) (compareOn ElementId.name)⟩

instance : TransOrd ElementId := inferInstanceAs (TransCmp (compareLex _ _))

instance : LawfulEqOrd ElementId where
  compare_self := by
    intro a
    exact compareLex_eq_iff.2 ⟨compareOn_eq_iff.2 rfl, compareOn_eq_iff.2 rfl⟩
  eq_of_compare := by
    intro a b h
    have h := compareLex_eq_iff.1 h
    have hk := compareOn_eq_iff.1 h.1
    have hn := compareOn_eq_iff.1 h.2
    rcases a with ⟨⟨_⟩⟩ | ⟨⟨_⟩⟩ <;> rcases b with ⟨⟨_⟩⟩ | ⟨⟨_⟩⟩ <;>
      simp_all [ElementId.isDevice, ElementId.name]

/-! ## Connect points -/

/-- An attachment point: a port of a device, or a host. -/
structure ConnectPoint where
  element : ElementId
  port : PortNumber
deriving DecidableEq

namespace ConnectPoint

/-- The end of an attachment link at a host. -/
def ofHost (id : HostId) : ConnectPoint := ⟨.host id, 0⟩

/-- The device that the point is a port of. -/
def device? (p : ConnectPoint) : Option DeviceId :=
  match p.element with
  | .device id => some id
  | .host _ => none

def text (p : ConnectPoint) : String := p.element.name ++ "/" ++ toString p.port.toNat

end ConnectPoint

instance : Ord ConnectPoint :=
  ⟨compareLex (compareOn ConnectPoint.element) (compareOn ConnectPoint.port)⟩

instance : TransOrd ConnectPoint := inferInstanceAs (TransCmp (compareLex _ _))

instance : LawfulEqOrd ConnectPoint where
  compare_self := by
    intro a
    exact compareLex_eq_iff.2 ⟨compareOn_eq_iff.2 rfl, compareOn_eq_iff.2 rfl⟩
  eq_of_compare := by
    intro a b h
    have h := compareLex_eq_iff.1 h
    cases a; cases b
    exact congr (congrArg ConnectPoint.mk (compareOn_eq_iff.1 h.1)) (compareOn_eq_iff.1 h.2)

/-- The two ends of a link, which identify it in a store. -/
structure Endpoints where
  src : ConnectPoint
  dst : ConnectPoint
deriving DecidableEq

namespace Endpoints

def swap (e : Endpoints) : Endpoints := ⟨e.dst, e.src⟩

end Endpoints

instance : Ord Endpoints := ⟨compareLex (compareOn Endpoints.src) (compareOn Endpoints.dst)⟩

instance : TransOrd Endpoints := inferInstanceAs (TransCmp (compareLex _ _))

instance : LawfulEqOrd Endpoints where
  compare_self := by
    intro a
    exact compareLex_eq_iff.2 ⟨compareOn_eq_iff.2 rfl, compareOn_eq_iff.2 rfl⟩
  eq_of_compare := by
    intro a b h
    have h := compareLex_eq_iff.1 h
    cases a; cases b
    exact congr (congrArg Endpoints.mk (compareOn_eq_iff.1 h.1)) (compareOn_eq_iff.1 h.2)

/-! ## JSON form -/

instance : Json.Decode DeviceId := ⟨fun v => (Json.decodeText v).map DeviceId.mk⟩
instance : Json.Encode DeviceId := ⟨fun id => .text id.name⟩
instance : Json.Decode HostId := ⟨fun v => (Json.decodeText v).map HostId.mk⟩
instance : Json.Encode HostId := ⟨fun id => .text id.name⟩

instance : Json.Decode ElementId where
  decode v := do
    match ← Json.decodeSingle v with
    | ("device", id) => .device <$> Json.decode id
    | ("host", id) => .host <$> Json.decode id
    | _ => .error (.expected "a device or a host")

instance : Json.Encode ElementId where
  encode
    | .device id => .object [("device", Json.encode id)]
    | .host id => .object [("host", Json.encode id)]

def ConnectPoint.fields : Json.Fields ConnectPoint :=
  ConnectPoint.mk <$> .required "element_id" <*> .required "port"

instance : Json.Decode ConnectPoint := ⟨ConnectPoint.fields.decode⟩

instance : Json.Encode ConnectPoint where
  encode p := .object [("element_id", Json.encode p.element), ("port", Json.encode p.port)]

end HostRouting
