import HostRouting.Network.Link

/-!
# Link stores

What the rest of the library needs of a store of links. A store is a value; writing to it gives a
new one. Nothing is assumed of what a write does: a store may alter what it is given, drop it, or
lose the link.
-/

namespace HostRouting

inductive LinkChange.Kind where
  | added
  | updated
  | removed
deriving DecidableEq

/-- A change of a stored link. -/
structure LinkChange where
  kind : LinkChange.Kind
  link : Link
deriving DecidableEq

class LinkStore (σ : Type) where
  link? : σ → ConnectPoint → ConnectPoint → Option Link
  links : σ → List Link
  /-- Creates a link or updates it as described; no change is reported when there is none. -/
  createOrUpdate : σ → ProviderId → LinkDescription → σ × Option LinkChange
  remove : σ → ConnectPoint → ConnectPoint → σ × Option LinkChange

def LinkChange.Kind.tag : LinkChange.Kind → String
  | .added => "added"
  | .updated => "updated"
  | .removed => "removed"

instance : Json.Encode LinkChange where
  encode c := .object [("kind", .text c.kind.tag), ("link", Json.encode c.link)]

end HostRouting
