import HostRouting.Binary64.Reader
import HostRouting.Network.Element
import HostRouting.Text.Blank

/-!
# Links

A link leads in one direction from one connect point to another and carries annotations, texts
under keys, some of which are numbers. Links are ordered by their fields, provider first and
annotations last.
-/

namespace HostRouting

open Std

/-! ## Kinds, states and providers -/

inductive LinkType where
  /-- A direct link between two devices. -/
  | direct
  /-- A link across a network that is not managed. -/
  | indirect
  /-- The attachment of a host to a device. -/
  | edge
  | tunnel
  | optical
  | virtual
deriving DecidableEq

inductive LinkState where
  | active
  | inactive
deriving DecidableEq

/-- Who provided a piece of the topology. -/
structure ProviderId where
  scheme : String
  id : String
deriving DecidableEq

/-- The provider of what no other provider claims. -/
def ProviderId.core : ProviderId := ⟨"core", "meridian.core"⟩

def ProviderId.text (p : ProviderId) : String := p.scheme ++ ":" ++ p.id

def LinkType.tags : List (String × LinkType) :=
  [("direct", .direct), ("indirect", .indirect), ("edge", .edge), ("tunnel", .tunnel),
   ("optical", .optical), ("virtual", .virtual)]

def LinkType.tag : LinkType → String
  | .direct => "direct"
  | .indirect => "indirect"
  | .edge => "edge"
  | .tunnel => "tunnel"
  | .optical => "optical"
  | .virtual => "virtual"

def LinkState.tags : List (String × LinkState) := [("active", .active), ("inactive", .inactive)]

def LinkState.tag : LinkState → String
  | .active => "active"
  | .inactive => "inactive"

instance : Ord LinkType := ⟨compareOn LinkType.ctorIdx⟩

instance : TransOrd LinkType := inferInstanceAs (TransCmp (compareOn _))

instance : LawfulEqOrd LinkType where
  compare_self := by
    intro a
    exact compareOn_eq_iff.2 rfl
  eq_of_compare := by
    intro a b h
    have h := compareOn_eq_iff.1 h
    cases a <;> cases b <;> first | rfl | exact absurd h (by decide)

instance : Ord LinkState := ⟨compareOn LinkState.ctorIdx⟩

instance : TransOrd LinkState := inferInstanceAs (TransCmp (compareOn _))

instance : LawfulEqOrd LinkState where
  compare_self := by
    intro a
    exact compareOn_eq_iff.2 rfl
  eq_of_compare := by
    intro a b h
    have h := compareOn_eq_iff.1 h
    cases a <;> cases b <;> first | rfl | exact absurd h (by decide)

instance : Ord ProviderId := ⟨compareLex (compareOn ProviderId.scheme) (compareOn ProviderId.id)⟩

instance : TransOrd ProviderId := inferInstanceAs (TransCmp (compareLex _ _))

instance : LawfulEqOrd ProviderId where
  compare_self := by
    intro a
    exact compareLex_eq_iff.2 ⟨compareOn_eq_iff.2 rfl, compareOn_eq_iff.2 rfl⟩
  eq_of_compare := by
    intro a b h
    have h := compareLex_eq_iff.1 h
    cases a; cases b
    exact congr (congrArg ProviderId.mk (compareOn_eq_iff.1 h.1)) (compareOn_eq_iff.1 h.2)

/-! ## Annotations -/

/-- Texts under keys, in key order. -/
abbrev Annotations : Type := SortedMap String String

/-- The number that an annotation's text denotes, blanks at its ends aside. -/
def numberOfText? (text : String) : Option Binary64 :=
  Binary64.ofText? (trimBlanks text.toList)

/-- The number under a key, zero when there is none. -/
def Annotations.numeric (a : Annotations) (key : String) : Binary64 :=
  ((a.get? key).bind numberOfText?).getD 0

/-! ## Links -/

/-- A link in one direction. -/
structure Link where
  provider : ProviderId
  src : ConnectPoint
  dst : ConnectPoint
  type : LinkType
  state : LinkState
  expected : Bool
  annotations : Annotations
deriving DecidableEq

/-- What a provider reports about a link. -/
structure LinkDescription where
  src : ConnectPoint
  dst : ConnectPoint
  type : LinkType
  expected : Bool
  annotations : Annotations
deriving DecidableEq

namespace Link

/-- An active link of the core provider without annotations. -/
def between (src dst : ConnectPoint) (type : LinkType) : Link :=
  ⟨.core, src, dst, type, .active, false, .empty⟩

def endpoints (l : Link) : Endpoints := ⟨l.src, l.dst⟩

def isEdge (l : Link) : Bool := l.type = .edge

/-- The link the other way, without annotations. -/
def reversed (l : Link) : Link := { l with src := l.dst, dst := l.src, annotations := .empty }

/-- The description of the link with other annotations. -/
def describe (l : Link) (annotations : Annotations) : LinkDescription :=
  ⟨l.src, l.dst, l.type, l.expected, annotations⟩

def text (l : Link) : String := l.src.text ++ "->" ++ l.dst.text

end Link

def LinkDescription.endpoints (d : LinkDescription) : Endpoints := ⟨d.src, d.dst⟩

instance : Ord Link :=
  ⟨compareLex (compareOn Link.provider) <| compareLex (compareOn Link.src) <|
    compareLex (compareOn Link.dst) <| compareLex (compareOn Link.type) <|
    compareLex (compareOn Link.state) <|
    compareLex (compareOn Link.expected) (compareOn Link.annotations)⟩

instance : TransOrd Link := inferInstanceAs (TransCmp (compareLex _ _))

instance : LawfulEqOrd Link where
  compare_self := by
    intro a
    simp only [compare, compareLex_eq_iff]
    exact ⟨compareOn_eq_iff.2 rfl, compareOn_eq_iff.2 rfl, compareOn_eq_iff.2 rfl,
      compareOn_eq_iff.2 rfl, compareOn_eq_iff.2 rfl, compareOn_eq_iff.2 rfl,
      compareOn_eq_iff.2 rfl⟩
  eq_of_compare := by
    intro a b h
    simp only [compare, compareLex_eq_iff] at h
    obtain ⟨h1, h2, h3, h4, h5, h6, h7⟩ := h
    have h1 := compareOn_eq_iff.1 h1
    have h2 := compareOn_eq_iff.1 h2
    have h3 := compareOn_eq_iff.1 h3
    have h4 := compareOn_eq_iff.1 h4
    have h5 := compareOn_eq_iff.1 h5
    have h6 := compareOn_eq_iff.1 h6
    have h7 := compareOn_eq_iff.1 h7
    cases a; cases b
    simp_all

/-! ## JSON form -/

instance : Json.Decode LinkType := ⟨Json.decodeTag LinkType.tags⟩
instance : Json.Encode LinkType := ⟨fun t => .text t.tag⟩
instance : Json.Decode LinkState := ⟨Json.decodeTag LinkState.tags⟩
instance : Json.Encode LinkState := ⟨fun s => .text s.tag⟩

def ProviderId.fields : Json.Fields ProviderId :=
  ProviderId.mk <$> .required "scheme" <*> .required "id"

instance : Json.Decode ProviderId := ⟨ProviderId.fields.decode⟩

instance : Json.Encode ProviderId where
  encode p := .object [("scheme", .text p.scheme), ("id", .text p.id)]

def Annotations.decodeMembers : List (String × Json) → Except Json.Fault (List (String × String))
  | [] => .ok []
  | (key, value) :: rest => do
    let value ← Json.decodeText value
    let rest ← decodeMembers rest
    .ok ((key, value) :: rest)

instance : Json.Decode Annotations where
  decode
    | .object members => (Annotations.decodeMembers members).map SortedMap.ofList
    | _ => .error (.expected "an object of strings")

instance : Json.Encode Annotations where
  encode a := .object (a.entries.map fun e => (e.1, .text e.2))

def Link.fields : Json.Fields Link :=
  Link.mk <$> .defaulted "provider_id" .core <*> .required "src" <*> .required "dst" <*>
    .required "type" <*> .defaulted "state" .active <*> .defaulted "expected" false <*>
    .defaulted "annotations" .empty

instance : Json.Decode Link := ⟨Link.fields.decode⟩

instance : Json.Encode Link where
  encode l := .object
    [("provider_id", Json.encode l.provider), ("src", Json.encode l.src),
     ("dst", Json.encode l.dst), ("type", Json.encode l.type), ("state", Json.encode l.state),
     ("expected", Json.encode l.expected), ("annotations", Json.encode l.annotations)]

def LinkDescription.fields : Json.Fields LinkDescription :=
  LinkDescription.mk <$> .required "src" <*> .required "dst" <*> .required "type" <*>
    .defaulted "expected" false <*> .defaulted "annotations" .empty

instance : Json.Decode LinkDescription := ⟨LinkDescription.fields.decode⟩

instance : Json.Encode LinkDescription where
  encode d := .object
    [("src", Json.encode d.src), ("dst", Json.encode d.dst), ("type", Json.encode d.type),
     ("expected", Json.encode d.expected), ("annotations", Json.encode d.annotations)]

end HostRouting
