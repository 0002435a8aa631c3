import HostRouting.Binary64.Writer
import HostRouting.Network.Element

/-!
# Resources, consumers and allocations

The bandwidth of a device port is a resource. A consumer, an intent or a group of intents, holds
allocations of resources.
-/

namespace HostRouting

open Std

/-! ## Bandwidth -/

/-- Bits per second. -/
structure Bandwidth where
  bps : Binary64
deriving BEq

namespace Bandwidth

def ofKilo (x : Binary64) : Bandwidth := ⟨x.scale 1000⟩
def ofMega (x : Binary64) : Bandwidth := ⟨x.scale 1000000⟩
def ofGiga (x : Binary64) : Bandwidth := ⟨x.scale 1000000000⟩

def text (b : Bandwidth) : String := b.bps.text ++ " bps"

end Bandwidth

/-! ## Intents and groups as consumers -/

/-- The name of the application that owns an intent. -/
structure ApplicationId where
  name : String
deriving DecidableEq

/-- The identity of an intent: its application and a text. -/
structure IntentKey where
  app : ApplicationId
  value : String
deriving DecidableEq

/-- The number shared by intents that pool their reservations. -/
structure ResourceGroup where
  number : UInt64
deriving DecidableEq

/-- Hexadecimal after `0x`, without leading zeros. -/
def ResourceGroup.text (g : ResourceGroup) : String :=
  "0x" ++ String.ofList (Nat.toDigits 16 g.number.toNat)

/-- Who holds allocations. -/
inductive Consumer where
  | intent (key : IntentKey)
  | group (group : ResourceGroup)
deriving DecidableEq

namespace Consumer

def text : Consumer → String
  | .intent key => "intent:" ++ key.value
  | .group g => "group:" ++ g.text

/-- Intents come before groups; intents go by application and text, groups by number. -/
def orderKey : Consumer → Bool × String × String × UInt64
  | .intent key => (false, key.app.name, key.value, 0)
  | .group g => (true, "", "", g.number)

theorem orderKey_injective {a b : Consumer} (h : a.orderKey = b.orderKey) : a = b := by
  rcases a with ⟨⟨⟨_⟩, _⟩⟩ | ⟨⟨_⟩⟩ <;> rcases b with ⟨⟨⟨_⟩, _⟩⟩ | ⟨⟨_⟩⟩ <;>
    simp_all [orderKey]

end Consumer

instance : Ord Consumer :=
  ⟨compareLex (compareOn fun c => c.orderKey.1) <|
    compareLex (compareOn fun c => c.orderKey.2.1) <|
    compareLex (compareOn fun c => c.orderKey.2.2.1) (compareOn fun c => c.orderKey.2.2.2)⟩

instance : TransOrd Consumer := inferInstanceAs (TransCmp (compareLex _ _))

instance : LawfulEqOrd Consumer where
  compare_self := by
    intro a
    simp only [compare, compareLex_eq_iff]
    exact ⟨compareOn_eq_iff.2 rfl, compareOn_eq_iff.2 rfl, compareOn_eq_iff.2 rfl,
      compareOn_eq_iff.2 rfl⟩
  eq_of_compare := by
    intro a b h
    simp only [compare, compareLex_eq_iff] at h
    obtain ⟨h1, h2, h3, h4⟩ := h
    exact Consumer.orderKey_injective (Prod.ext (compareOn_eq_iff.1 h1)
      (Prod.ext (compareOn_eq_iff.1 h2)
        (Prod.ext (compareOn_eq_iff.1 h3) (compareOn_eq_iff.1 h4))))

/-! ## Resources -/

/-- The bandwidth of a device port, whatever quantity of it. -/
structure ResourceId where
  device : DeviceId
  port : PortNumber
deriving DecidableEq

def ResourceId.text (r : ResourceId) : String :=
  r.device.name ++ "/" ++ toString r.port.toNat ++ "/Bandwidth"

instance : Ord ResourceId :=
  ⟨compareLex (compareOn ResourceId.device) (compareOn ResourceId.port)⟩

instance : TransOrd ResourceId := inferInstanceAs (TransCmp (compareLex _ _))

instance : LawfulEqOrd ResourceId where
  compare_self := by
    intro a
    exact compareLex_eq_iff.2 ⟨compareOn_eq_iff.2 rfl, compareOn_eq_iff.2 rfl⟩
  eq_of_compare := by
    intro a b h
    have h := compareLex_eq_iff.1 h
    cases a; cases b
    exact congr (congrArg ResourceId.mk (compareOn_eq_iff.1 h.1)) (compareOn_eq_iff.1 h.2)

/-- A quantity of a resource. -/
structure Resource where
  id : ResourceId
  value : Binary64
deriving BEq

namespace Resource

/-- Bandwidth of a device port. -/
def ofBandwidth (device : DeviceId) (port : PortNumber) (b : Bandwidth) : Resource :=
  ⟨⟨device, port⟩, b.bps⟩

/-- Bandwidth of the port that a point is, unless it is a host. -/
def atPoint? (p : ConnectPoint) (b : Bandwidth) : Option Resource :=
  p.device?.map fun device => ofBandwidth device p.port b

def text (r : Resource) : String := r.id.text ++ "=" ++ r.value.text

end Resource

/-- A resource held by a consumer. -/
structure Allocation where
  resource : Resource
  consumer : Consumer
deriving BEq

/-! ## JSON form -/

instance : Json.Decode Bandwidth := ⟨fun v => (Json.decode v).map Bandwidth.mk⟩
instance : Json.Encode Bandwidth := ⟨fun b => Json.encode b.bps⟩
instance : Json.Decode ApplicationId := ⟨fun v => (Json.decodeText v).map ApplicationId.mk⟩
instance : Json.Encode ApplicationId := ⟨fun a => .text a.name⟩
instance : Json.Decode ResourceGroup := ⟨fun v => (Json.decode v).map ResourceGroup.mk⟩
instance : Json.Encode ResourceGroup := ⟨fun g => Json.encode g.number⟩

def IntentKey.fields : Json.Fields IntentKey :=
  IntentKey.mk <$> .required "app_id" <*> .required "value"

instance : Json.Decode IntentKey := ⟨IntentKey.fields.decode⟩

instance : Json.Encode IntentKey where
  encode k := .object [("app_id", Json.encode k.app), ("value", .text k.value)]

instance : Json.Decode Consumer where
  decode v := do
    match ← Json.decodeSingle v with
    | ("intent", key) => .intent <$> Json.decode key
    | ("group", group) => .group <$> Json.decode group
    | _ => .error (.expected "an intent or a group")

instance : Json.Encode Consumer where
  encode
    | .intent key => .object [("intent", Json.encode key)]
    | .group g => .object [("group", Json.encode g)]

/-- The kind of a resource; bandwidth is the only one. -/
inductive ResourceKind where
  | bandwidth
deriving DecidableEq

instance : Json.Decode ResourceKind := ⟨Json.decodeTag [("bandwidth", .bandwidth)]⟩

def ResourceId.fields : Json.Fields ResourceId :=
  (fun device port (_ : ResourceKind) => ⟨device, port⟩) <$>
    .required "device" <*> .required "port" <*> .required "kind"

instance : Json.Decode ResourceId := ⟨ResourceId.fields.decode⟩

instance : Json.Encode ResourceId where
  encode r := .object
    [("device", Json.encode r.device), ("port", Json.encode r.port), ("kind", .text "bandwidth")]

def Resource.fields : Json.Fields Resource :=
  Resource.mk <$> .required "id" <*> .required "value"

instance : Json.Decode Resource := ⟨Resource.fields.decode⟩

instance : Json.Encode Resource where
  encode r := .object [("id", Json.encode r.id), ("value", Json.encode r.value)]

def Allocation.fields : Json.Fields Allocation :=
  Allocation.mk <$> .required "resource" <*> .required "consumer"

instance : Json.Decode Allocation := ⟨Allocation.fields.decode⟩

instance : Json.Encode Allocation where
  encode a := .object [("resource", Json.encode a.resource), ("consumer", Json.encode a.consumer)]

end HostRouting
