import HostRouting.Constraint
import HostRouting.Flow.Selector
import HostRouting.Flow.Treatment

/-!
# Intents

An intent asks for traffic between two hosts in both directions. Compiling it gives installable
intents, one for each direction, that share its key, application, treatment, constraints, priority
and resource group and have selectors of their own.

Main definitions: `HostIntent`, `Installable` and `HostIntent.keyOf`.
-/

namespace HostRouting

/-- The priority of intents that do not set one. -/
def defaultPriority : UInt32 := 100

/-- What every intent has. -/
structure Connectivity where
  key : IntentKey
  app : ApplicationId
  selector : Selector
  treatment : Treatment
  constraints : List Constraint
  priority : UInt32
  group : Option ResourceGroup
deriving BEq

/-- The constraints with the exclusion of optical links in front, unless it is among them. -/
def withNotOptical (constraints : List Constraint) : List Constraint :=
  if constraints.contains .notOptical then constraints else .notOptical :: constraints

namespace Connectivity

def hasConstraint (c : Connectivity) (constraint : Constraint) : Bool :=
  c.constraints.contains constraint

/-- What an installable intent has of the intent it is compiled from, with its own selector. -/
def derive (c : Connectivity) (selector : Selector) : Connectivity :=
  { c with selector := selector, constraints := withNotOptical c.constraints }

/-- The first bandwidth asked for. -/
def requestedBandwidth? (c : Connectivity) : Option Bandwidth :=
  c.constraints.findSome? Constraint.requestedBandwidth?

/-- Whom the reservations of the intent are accounted to: its group, or else its key. -/
def consumer (c : Connectivity) : Consumer :=
  match c.group with
  | some g => .group g
  | none => .intent c.key

end Connectivity

/-- Traffic between two hosts. The paths are those of the last compilation that found some, from
the first host to the second and back. -/
structure HostIntent where
  base : Connectivity
  one : HostId
  two : HostId
  paths : Option (Path × Path)

namespace HostIntent

/-- The key of the traffic between two hosts: the smaller name, the larger one and the criteria in
the order of their texts. The order of the hosts does not matter. -/
def keyOf (a b : HostId) (selector : Selector) (app : ApplicationId) : IntentKey :=
  let (first, second) := if a.name < b.name then (a, b) else (b, a)
  let criteria := sorted (selector.toList.map Criterion.keyText)
  ⟨app, first.name ++ second.name ++ "[" ++ ", ".intercalate criteria ++ "]"⟩

/-- The links of both paths that do not attach hosts, those of the first path first. -/
def routedLinks (i : HostIntent) : List Link :=
  match i.paths with
  | none => []
  | some (there, back) => (there.links ++ back.links).filter (!·.isEdge)

end HostIntent

/-- An intent with its ends, when it connects two hosts. -/
structure FlowIntent where
  connectivity : Connectivity
  hosts : Option (HostId × HostId)

def HostIntent.flow (i : HostIntent) : FlowIntent := ⟨i.base, some (i.one, i.two)⟩

def Connectivity.flow (c : Connectivity) : FlowIntent := ⟨c, none⟩

/-! ## Installable intents -/

/-- A point with a further condition on the traffic that enters or leaves there. -/
structure FilteredPoint where
  point : ConnectPoint
  condition : Selector
deriving DecidableEq

def FilteredPoint.plain (p : ConnectPoint) : FilteredPoint := ⟨p, .empty⟩

/-- What a compilation gives for one direction. -/
inductive Installable where
  /-- Forwarding over a set of links between the points where traffic enters and leaves. The
  treatment is applied where it leaves. -/
  | linkCollection (base : Connectivity) (links : List Link) (ingress egress : List FilteredPoint)
    (treatOnEgress : Bool)
  /-- Forwarding along one path. -/
  | path (base : Connectivity) (path : Path)
deriving BEq

def Installable.base : Installable → Connectivity
  | .linkCollection base .. => base
  | .path base _ => base

/-! ## JSON form -/

def FilteredPoint.fields : Json.Fields FilteredPoint :=
  FilteredPoint.mk <$> .required "connect_point" <*> .defaulted "meta" .empty

instance : Json.Decode FilteredPoint := ⟨FilteredPoint.fields.decode⟩

instance : Json.Encode FilteredPoint where
  encode p := .object [("connect_point", Json.encode p.point), ("meta", Json.encode p.condition)]

def Connectivity.members (c : Connectivity) : List (String × Json) :=
  [("key", Json.encode c.key), ("app_id", Json.encode c.app),
   ("selector", Json.encode c.selector), ("treatment", Json.encode c.treatment),
   ("constraints", Json.encode c.constraints), ("priority", Json.encode c.priority),
   ("resource_group", Json.encode c.group)]

instance : Json.Encode Connectivity := ⟨fun c => .object c.members⟩

instance : Json.Encode Installable where
  encode
    | .linkCollection base links ingress egress treatOnEgress => .object <|
      ("kind", .text "link_collection") :: base.members ++
        [("links", Json.encode links), ("ingress_points", Json.encode ingress),
         ("egress_points", Json.encode egress),
         ("apply_treatment_on_egress", .bool treatOnEgress)]
    | .path base path => .object <|
      ("kind", .text "path") :: base.members ++ [("path", Json.encode path)]

instance : Json.Encode HostIntent where
  encode i := .object <|
    ("kind", .text "host_to_host") :: i.base.members ++
      [("one", Json.encode i.one), ("two", Json.encode i.two)]

end HostRouting
