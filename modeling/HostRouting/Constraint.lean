import HostRouting.Network.Path
import HostRouting.Resource

/-!
# Routing constraints

A constraint forbids links, gives the ones it allows a cost, and validates whole paths. What it
cannot see on the link itself it asks of a context: whether a quantity of a resource is still to be
had, and how a link stands in the store.

Main definitions: `Constraint.isValid`, `Constraint.validates` and `Constraint.cost`.
-/

namespace HostRouting

/-- What constraints ask of the state. -/
structure Context where
  isAvailable : Resource → Bool
  /-- The link as stored, if links are known. -/
  liveLink? : ConnectPoint → ConnectPoint → Option Link

inductive Constraint where
  /-- Every device port must have the bandwidth available. -/
  | bandwidth (bandwidth : Bandwidth)
  /-- The number under the key must be at most the threshold. -/
  | atMost (key : String) (threshold : Binary64)
  /-- The number under the key must be at most the threshold, or at least, as `upper` says; the
  links that attach hosts always pass. -/
  | limit (key : String) (threshold : Binary64) (upper : Bool)
  /-- The two directions are routed independently. -/
  | asymmetricPath
  /-- The type of the link must be one of those listed, or none of them. -/
  | linkType (inclusive : Bool) (types : List LinkType)
  /-- A note for other components. -/
  | marker (name : String)
  /-- Every link must be active. -/
  | pathViability
deriving BEq

namespace Constraint

/-- The cost of a forbidden link. -/
def veto : Binary64 := -1

/-- Optical links are excluded from every intent. -/
def notOptical : Constraint := .linkType false [.optical]

/-- Whether the constraint takes part in weighing links. -/
def isCostBearing : Constraint → Bool
  | .marker _ | .pathViability => false
  | _ => true

/-- The key, the threshold and whether it is an upper limit, for constraints on annotations. -/
def annotationLimit? : Constraint → Option (String × Binary64 × Bool)
  | .atMost key threshold => some (key, threshold, true)
  | .limit key threshold upper => some (key, threshold, upper)
  | _ => none

def requestedBandwidth? : Constraint → Option Bandwidth
  | .bandwidth b => some b
  | _ => none

/-- Whether a link is within a limit on the number under a key. -/
def withinLimit (key : String) (threshold : Binary64) (upper : Bool) (l : Link) : Bool :=
  if l.isEdge then true
  else if upper then l.annotations.numeric key ≤ threshold
  else threshold ≤ l.annotations.numeric key

/-- Whether a link satisfies the constraint. A limit is checked on the link as stored. -/
def isValid (c : Constraint) (l : Link) (ctx : Context) : Bool :=
  match c with
  | .bandwidth b => ([l.src, l.dst].filterMap (Resource.atPoint? · b)).all ctx.isAvailable
  | .atMost key threshold => l.annotations.numeric key ≤ threshold
  | .limit key threshold upper =>
    withinLimit key threshold upper ((ctx.liveLink? l.src l.dst).getD l)
  | .asymmetricPath => true
  | .linkType inclusive types => types.contains l.type == inclusive
  | .marker _ => true
  | .pathViability => l.state = .active

/-- Whether every link of a path satisfies the constraint. -/
def validates (c : Constraint) (p : Path) (ctx : Context) : Bool :=
  p.links.all fun l => c.isValid l ctx

/-- The cost of a link under a constraint without a cost of its own. -/
def flatCost (valid : Bool) : Binary64 := if valid then 1 else veto

/-- The cost of crossing a link, `veto` when it is forbidden. A limit is costed on the link as
given. -/
def cost (c : Constraint) (l : Link) (ctx : Context) : Binary64 :=
  match c with
  | .atMost key _ => if c.isValid l ctx then l.annotations.numeric key else veto
  | .limit key threshold upper =>
    if !withinLimit key threshold upper l then veto
    else if l.isEdge then 1
    else if upper then l.annotations.numeric key
    else (l.annotations.numeric key).reciprocal
  | .marker _ => 0
  | .bandwidth _ | .asymmetricPath | .linkType .. | .pathViability => flatCost (c.isValid l ctx)

end Constraint

/-! ## JSON form -/

namespace Constraint

inductive Tag where
  | bandwidth | atMost | limit | asymmetricPath | linkType | marker | pathViability
deriving DecidableEq

def tags : List (String × Tag) :=
  [("bandwidth", .bandwidth), ("annotation", .atMost), ("advanced_annotation", .limit),
   ("asymmetric_path", .asymmetricPath), ("link_type", .linkType), ("marker", .marker),
   ("path_viability", .pathViability)]

/-- A type in a list of link types. -/
structure ListedType where
  type : LinkType

/-- Whether a value is null or an object without members. -/
def isVoid : Json → Bool
  | .null | .object [] => true
  | _ => false

/-- Beside the tag of a listed type may stand an object without members too. -/
instance : Json.Decode ListedType where
  decode v := (Json.decodeTagBeside isVoid LinkType.tags v).map ListedType.mk

/-- The members beside the tag. -/
def fields : Tag → Json.Fields Constraint
  | .bandwidth => .bandwidth <$> .required "bandwidth"
  | .atMost => .atMost <$> .required "key" <*> .required "threshold"
  | .limit => .limit <$> .required "key" <*> .required "threshold" <*> .required "upper_limit"
  | .asymmetricPath => pure .asymmetricPath
  | .linkType =>
    (fun inclusive (types : List ListedType) => .linkType inclusive (types.map ListedType.type)) <$>
      .required "inclusive" <*> .required "types"
  | .marker => .marker <$> .required "name"
  | .pathViability => pure .pathViability

/-- The tag that a text names; here a tag is always a text. -/
def decodeTag : Json → Except Json.Fault Tag
  | .text s =>
    match tags.lookup s with
    | some tag => .ok tag
    | none => .error (.expected "a known constraint")
  | _ => .error (.expected "a string")

end Constraint

/-- A constraint is an object with its tag among its members, or an array that starts with it. -/
instance : Json.Decode Constraint where
  decode
    | .object members => do
      match members.filter (·.1 = "type") with
      | [(_, tag)] =>
        (Constraint.fields (← Constraint.decodeTag tag)).decode
          (.object (members.filter (·.1 ≠ "type")))
      | [] => .error (.missing "type")
      | _ => .error (.repeated "type")
    | .array (tag :: items) => do
      (Constraint.fields (← Constraint.decodeTag tag)).decode (.array items)
    | _ => .error (.expected "a constraint")

instance : Json.Encode Constraint where
  encode
    | .bandwidth b => .object [("type", .text "bandwidth"), ("bandwidth", Json.encode b)]
    | .atMost key threshold => .object
      [("type", .text "annotation"), ("key", .text key), ("threshold", Json.encode threshold)]
    | .limit key threshold upper => .object
      [("type", .text "advanced_annotation"), ("key", .text key),
       ("threshold", Json.encode threshold), ("upper_limit", .bool upper)]
    | .asymmetricPath => .object [("type", .text "asymmetric_path")]
    | .linkType inclusive types => .object
      [("type", .text "link_type"), ("inclusive", .bool inclusive), ("types", Json.encode types)]
    | .marker name => .object [("type", .text "marker"), ("name", .text name)]
    | .pathViability => .object [("type", .text "path_viability")]

end HostRouting
