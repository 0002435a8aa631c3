import HostRouting.Heap
import HostRouting.Routing.Graph

/-!
# Search for the cheapest routes

The search settles elements one after another, the nearest first, and relaxes the edges that leave
the settled element. Hosts other than the source are settled but not left. For each element it
keeps a cost and the links by which that cost was reached; costs within a tolerance of each other
count as equal. The routes are then read backwards from the destination.

Elements that have been reached wait in a heap. Costs need not be ordered: one that is no number is
neither above nor below any other, and what is taken off the heap then depends on its shape.

Costs are of any type with the operations of `PathCost`, so the search can be run with rounded
numbers and reasoned about with exact ones.

Main definition: `Graph.cheapestRoutes`.
-/

namespace HostRouting

/-- What the search needs of costs. -/
class PathCost (κ : Type) where
  zero : κ
  add : κ → κ → κ
  /-- The first cost is above the second by more than the tolerance. -/
  exceeds : κ → κ → Bool
  /-- The costs are within the tolerance of each other. -/
  ties : κ → κ → Bool
  order : κ → κ → Ordering

/-- The progress of a search. -/
structure Search (κ : Type) where
  costs : SortedMap ElementId κ
  /-- The links by which an element was reached at its cost, in the order they were found. -/
  arrivals : SortedMap ElementId (List Link)
  settled : List ElementId
  /-- The heap of elements that have been reached, with the cost of reaching them. -/
  frontier : List (ElementId × κ)

namespace Search

variable {κ : Type} [PathCost κ]

/-- Nothing is known but the source. -/
def start (src : ElementId) : Search κ where
  costs := SortedMap.empty.insert src PathCost.zero
  arrivals := .empty
  settled := []
  frontier := [(src, PathCost.zero)]

/-- Whether the first entry is nearer than the second; elements decide between equal costs. -/
def isNearer (a b : ElementId × κ) : Bool :=
  (PathCost.order a.2 b.2).then (compare a.1 b.1) == .lt

/-- The links by which an element was reached. -/
def arrivalsAt (s : Search κ) (e : ElementId) : List Link := (s.arrivals.get? e).getD []

/-- Considers an edge that leaves an element reached at the given cost. -/
def relax (cost : κ) (s : Search κ) (edge : Edge κ) : Search κ :=
  let next := edge.link.dst.element
  let candidate := PathCost.add cost edge.weight
  let replaced : Search κ :=
    { s with
      costs := s.costs.insert next candidate
      arrivals := s.arrivals.insert next [edge.link]
      frontier := Heap.push isNearer s.frontier (next, candidate) }
  match s.costs.get? next with
  | none => replaced
  | some known =>
    if PathCost.exceeds candidate known then s
    else if PathCost.ties candidate known then
      { s with arrivals := s.arrivals.insert next (s.arrivalsAt next ++ [edge.link]) }
    else replaced

/-- Settles an element reached at the given cost. -/
def settle (g : Graph κ) (src : ElementId) (s : Search κ) (entry : ElementId × κ) : Search κ :=
  let s := { s with settled := entry.1 :: s.settled }
  if entry.1.isDevice ∨ entry.1 = src then
    (g.edgesFrom entry.1).foldl (relax entry.2) s
  else s

/-- Takes up an entry of the frontier, which is passed over when its element has been settled. -/
def visit (g : Graph κ) (src : ElementId) (s : Search κ) (entry : ElementId × κ) : Search κ :=
  if s.settled.contains entry.1 then s else settle g src s entry

/-- Takes at most the given number of entries off the frontier. An edge is considered once and adds
one entry at most, so as many rounds as there are edges, and one for the source, leave none. -/
def run (g : Graph κ) (src : ElementId) : Nat → Search κ → Search κ
  | 0, s => s
  | n + 1, s =>
    match Heap.pop? isNearer s.frontier with
    | none => s
    | some (entry, rest) => run g src n (visit g src { s with frontier := rest } entry)

/-- At most `limit` routes from the source to an element, read backwards over arrivals without
meeting an element twice. The first argument bounds the number of elements on a route. -/
def routesTo (s : Search κ) (src : ElementId) :
    Nat → Nat → List ElementId → ElementId → List (List Link)
  | 0, _, _, _ => []
  | n + 1, limit, visited, e =>
    if limit = 0 then []
    else if e = src then [[]]
    else
      (s.arrivalsAt e).foldl (fun found link =>
        let previous := link.src.element
        if visited.contains previous then found
        else
          found ++ (routesTo s src n (limit - found.length) (previous :: visited) previous).map
            (· ++ [link])) []

end Search

namespace Graph

variable {κ : Type} [PathCost κ]

/-- A bound on the number of elements that a search can meet, and of the entries of its frontier. -/
def elementBound (g : Graph κ) : Nat := g.edges.length + 1

/-- The search from an element, run to its end. -/
def search (g : Graph κ) (src : ElementId) : Search κ :=
  Search.run g src g.elementBound (Search.start src)

/-- The cost of the cheapest routes from one element to another, and at most `limit` of them in
the order of their links; nothing when there is no route or the elements are the same. -/
def cheapestRoutes (g : Graph κ) (limit : Nat) (src dst : ElementId) :
    Option (κ × List (List Link)) :=
  if src = dst then none
  else
    let s := g.search src
    (s.costs.get? dst).map fun cost =>
      (cost, sorted (s.routesTo src g.elementBound limit [dst] dst))

end Graph

/-! ## Rounded costs -/

/-- Costs closer than this count as equal: the number nearest to a thousand-millionth. -/
def costTolerance : Binary64 := .ofDecimal false 1 (-9)

instance : PathCost Binary64 where
  zero := 0
  add a b := a + b
  exceeds candidate known := known + costTolerance < candidate
  ties candidate known := (candidate - known).abs ≤ costTolerance
  order a b := (Binary64.compare? a b).getD .eq

end HostRouting
