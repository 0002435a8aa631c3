import HostRouting.Network.Host
import HostRouting.Network.Path

/-!
# The graph of a topology

The links that a route may use are the active stored links and, for every host with a location,
the two links that attach it at its first location. A graph holds those among them that have a
weight, in the order of links.

Main definitions: `candidateLinks`, `Exclusions.disjointFrom` and `Graph.ofCandidates`.
-/

namespace HostRouting

/-- The two links that attach a host at its first location. -/
def attachmentLinks (h : Host) : List Link :=
  match h.location? with
  | some p => [.between (.ofHost h.id) p .edge, .between p (.ofHost h.id) .edge]
  | none => []

/-- The links that a route may use. -/
def candidateLinks (links : List Link) (hosts : List Host) : List Link :=
  links.filter (·.state = .active) ++ hosts.flatMap attachmentLinks

/-- Links and elements that a route must avoid. -/
structure Exclusions where
  links : List Endpoints
  elements : List ElementId

namespace Exclusions

def none : Exclusions := ⟨[], []⟩

/-- What a backup may not share with a path: its links in either direction and the elements in
between. -/
def disjointFrom (p : Path) : Exclusions where
  links := p.links.flatMap fun l => [l.endpoints, l.endpoints.swap]
  elements := p.links.tail.map fun l => l.src.element

def allows (x : Exclusions) (l : Link) : Bool :=
  !x.links.contains l.endpoints && !x.elements.contains l.src.element &&
    !x.elements.contains l.dst.element

end Exclusions

/-- A link with its weight. -/
structure Edge (κ : Type) where
  link : Link
  weight : κ

/-- Weighed links in the order of links. -/
structure Graph (κ : Type) where
  edges : List (Edge κ)

namespace Graph

variable {κ : Type}

/-- The allowed candidates that have a weight. -/
def ofCandidates (weigh : Link → Option κ) (x : Exclusions) (candidates : List Link) : Graph κ :=
  let edges := (candidates.filter x.allows).filterMap fun l => (weigh l).map fun w => ⟨l, w⟩
  ⟨sortedOn Edge.link edges⟩

/-- The edges that leave an element. -/
def edgesFrom (g : Graph κ) (e : ElementId) : List (Edge κ) :=
  g.edges.filter (·.link.src.element = e)

end Graph

end HostRouting
