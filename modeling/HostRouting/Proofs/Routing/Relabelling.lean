import HostRouting.Proofs.Order
import HostRouting.Proofs.SortedMap
import HostRouting.Routing.Service

/-!
# Routes under a change of links

Links are changed one by one, each keeping its ends. When the changed links weigh what they weighed
and those that leave one element stand in the same order, the search runs as before and finds the
changed routes in the same order.

1. Each step of the search sees only the ends and the weights of the edges that leave an element
   (`Search.relax_relabel`, `Search.settle_relabel`, `Search.run_relabel`).
2. The routes are read backwards over the links by which elements were reached
   (`Search.routesTo_relabel`), so they are walks over links of edges (`Search.route_of_reachedBy`).
3. Walks from one element part where two links leave the same element, so the order of such links
   decides the order of routes (`compare_map_of_walks`, `Graph.cheapestRoutes_relabel`).

Main fact: `cheapestPaths_relabel`.
-/

namespace HostRouting

open Std

variable {κ : Type} {f : Link → Link}

/-- A change of links that keeps the ends of each. -/
def KeepsEnds (f : Link → Link) : Prop := ∀ l, (f l).endpoints = l.endpoints

theorem KeepsEnds.src (h : KeepsEnds f) (l : Link) : (f l).src = l.src := (Endpoints.mk.inj (h l)).1

theorem KeepsEnds.dst (h : KeepsEnds f) (l : Link) : (f l).dst = l.dst := (Endpoints.mk.inj (h l)).2

def Edge.relabel (f : Link → Link) (e : Edge κ) : Edge κ := { e with link := f e.link }

/-- The second graph has, element by element, the changed edges of the first in the same order. -/
structure Graph.Relabelled (f : Link → Link) (g g' : Graph κ) : Prop where
  size : g'.edges.length = g.edges.length
  edgesFrom : ∀ e, g'.edgesFrom e = (g.edgesFrom e).map (Edge.relabel f)

def Search.relabel (f : Link → Link) (s : Search κ) : Search κ :=
  { s with arrivals := s.arrivals.mapValues (List.map f) }

/-- Links that leave one element stand in the order that they stood in. -/
def KeepsOrder (f : Link → Link) (links : List Link) : Prop :=
  ∀ a ∈ links, ∀ b ∈ links, a.src.element = b.src.element → compare (f a) (f b) = compare a b

instance (f : Link → Link) (links : List Link) : Decidable (KeepsOrder f links) :=
  inferInstanceAs (Decidable (∀ a ∈ _, _))

/-! ## Walks -/

/-- The links lead from one element to another, each from where the one before it ends. -/
def IsWalk (src : ElementId) (links : List Link) (dst : ElementId) : Prop :=
  match links with
  | [] => src = dst
  | l :: rest => l.src.element = src ∧ IsWalk l.dst.element rest dst

theorem IsWalk.concat {src e : ElementId} {links : List Link} {l : Link} (h : IsWalk src links e)
    (hl : l.src.element = e) : IsWalk src (links ++ [l]) l.dst.element := by
  induction links generalizing src with
  | nil => exact ⟨hl.trans (Eq.symm h), rfl⟩
  | cons a links ih => exact ⟨h.1, ih h.2⟩

/-- Walks from one element keep their order when links that leave one element do. -/
theorem compare_map_of_walks {links route route' : List Link} {src dst dst' : ElementId}
    (horder : KeepsOrder f links) (hroute : IsWalk src route dst)
    (hroute' : IsWalk src route' dst') (hlinks : ∀ l ∈ route, l ∈ links)
    (hlinks' : ∀ l ∈ route', l ∈ links) :
    compare (route.map f) (route'.map f) = compare route route' := by
  induction route generalizing src route' with
  | nil => cases route' <;> rfl
  | cons a route ih =>
    cases route' with
    | nil => rfl
    | cons b route' =>
      have hab : compare (f a) (f b) = compare a b :=
        horder a (hlinks a List.mem_cons_self) b (hlinks' b List.mem_cons_self)
          (hroute.1.trans hroute'.1.symm)
      rw [List.map_cons, List.map_cons, List.compare_cons_cons, List.compare_cons_cons, hab]
      cases hcompare : compare a b with
      | lt => rfl
      | gt => rfl
      | eq =>
        obtain rfl := LawfulEqOrd.eq_of_compare hcompare
        exact ih hroute.2 hroute'.2 (fun l hl => hlinks l (List.mem_cons_of_mem _ hl))
          fun l hl => hlinks' l (List.mem_cons_of_mem _ hl)

namespace Search

theorem arrivalsAt_relabel (f : Link → Link) (s : Search κ) (e : ElementId) :
    (s.relabel f).arrivalsAt e = (s.arrivalsAt e).map f := by
  show ((s.arrivals.mapValues (List.map f)).get? e).getD [] = _
  rw [SortedMap.get?_mapValues, arrivalsAt]
  cases s.arrivals.get? e <;> rfl

/-! ## Reading routes -/

/-- Extends what has been found by the routes that come in by a link. -/
def collect (s : Search κ) (src : ElementId) (n limit : Nat) (visited : List ElementId)
    (found : List (List Link)) (link : Link) : List (List Link) :=
  let previous := link.src.element
  if visited.contains previous then found
  else
    found ++ (s.routesTo src n (limit - found.length) (previous :: visited) previous).map
      (· ++ [link])

theorem routesTo_succ (s : Search κ) (src : ElementId) (n limit : Nat)
    (visited : List ElementId) (e : ElementId) :
    s.routesTo src (n + 1) limit visited e =
      if limit = 0 then []
      else if e = src then [[]]
      else (s.arrivalsAt e).foldl (s.collect src n limit visited) [] := rfl

theorem routesTo_relabel (hf : KeepsEnds f) (s : Search κ) (src : ElementId) (n limit : Nat)
    (visited : List ElementId) (e : ElementId) :
    (s.relabel f).routesTo src n limit visited e =
      (s.routesTo src n limit visited e).map (List.map f) := by
  induction n generalizing limit visited e with
  | zero => rfl
  | succ n ih =>
    have hcollect : ∀ found link,
        (s.relabel f).collect src n limit visited (found.map (List.map f)) (f link) =
          (s.collect src n limit visited found link).map (List.map f) := by
      intro found link
      unfold collect
      dsimp only
      rw [hf.src]
      split
      · rfl
      · rw [ih, List.length_map, List.map_append, List.map_map, List.map_map]
        simp [Function.comp_def]
    rw [routesTo_succ, routesTo_succ, arrivalsAt_relabel]
    split
    · rfl
    · split
      · rfl
      · rw [List.foldl_map]
        show List.foldl _ (([] : List (List Link)).map (List.map f)) _ = _
        refine List.foldl_hom (List.map (List.map f)) ?_
        intro found link
        exact hcollect found link

/-- Every element was reached by links among the given ones that lead to it. -/
def ReachedBy (s : Search κ) (links : List Link) : Prop :=
  ∀ e, ∀ l ∈ s.arrivalsAt e, l ∈ links ∧ l.dst.element = e

/-- Routes are walks over the links by which elements were reached. -/
theorem route_of_reachedBy {s : Search κ} {links : List Link} (hs : s.ReachedBy links)
    {src : ElementId} {n limit : Nat} {visited : List ElementId} {e : ElementId}
    {route : List Link} (hroute : route ∈ s.routesTo src n limit visited e) :
    IsWalk src route e ∧ ∀ l ∈ route, l ∈ links := by
  induction n generalizing limit visited e route with
  | zero => exact absurd hroute List.not_mem_nil
  | succ n ih =>
    have hcollect : ∀ found, (∀ route ∈ found, IsWalk src route e ∧ ∀ l ∈ route, l ∈ links) →
        ∀ link ∈ s.arrivalsAt e, ∀ route ∈ s.collect src n limit visited found link,
          IsWalk src route e ∧ ∀ l ∈ route, l ∈ links := by
      intro found hfound link hlink route hroute
      unfold collect at hroute
      dsimp only at hroute
      split at hroute
      · exact hfound route hroute
      · rcases List.mem_append.1 hroute with hroute | hroute
        · exact hfound route hroute
        · obtain ⟨init, hinit, rfl⟩ := List.mem_map.1 hroute
          obtain ⟨hwalk, hlinks⟩ := ih hinit
          obtain ⟨hlink, hend⟩ := hs e link hlink
          refine ⟨hend ▸ hwalk.concat rfl, fun l hl => ?_⟩
          rcases List.mem_append.1 hl with hl | hl
          · exact hlinks l hl
          · rw [List.mem_singleton.1 hl]
            exact hlink
    rw [routesTo_succ] at hroute
    split at hroute
    · exact absurd hroute List.not_mem_nil
    · split at hroute
      next hsrc =>
        rw [List.mem_singleton.1 hroute]
        exact ⟨hsrc.symm, fun l hl => absurd hl List.not_mem_nil⟩
      next =>
        have hnone : ∀ route ∈ ([] : List (List Link)),
            IsWalk src route e ∧ ∀ l ∈ route, l ∈ links := by simp
        exact List.foldlRecOn (s.arrivalsAt e) _ hnone hcollect route hroute

variable [PathCost κ]

/-! ## Steps of the search -/

theorem relax_relabel (hf : KeepsEnds f) (cost : κ) (s : Search κ) (edge : Edge κ) :
    relax cost (s.relabel f) (edge.relabel f) = (relax cost s edge).relabel f := by
  have hnext : (edge.relabel f).link.dst.element = edge.link.dst.element :=
    congrArg ConnectPoint.element (hf.dst edge.link)
  unfold relax
  dsimp only
  rw [hnext, arrivalsAt_relabel, show (s.relabel f).costs = s.costs from rfl]
  cases s.costs.get? edge.link.dst.element with
  | none => simp [relabel, Edge.relabel, SortedMap.mapValues_insert]
  | some known =>
    dsimp only
    by_cases hexceeds : PathCost.exceeds (PathCost.add cost edge.weight) known = true
    · rw [if_pos (show PathCost.exceeds (PathCost.add cost (edge.relabel f).weight) known = true
        from hexceeds), if_pos hexceeds]
    · rw [if_neg (show ¬PathCost.exceeds (PathCost.add cost (edge.relabel f).weight) known = true
        from hexceeds), if_neg hexceeds]
      by_cases hties : PathCost.ties (PathCost.add cost edge.weight) known = true
      · rw [if_pos (show PathCost.ties (PathCost.add cost (edge.relabel f).weight) known = true
          from hties), if_pos hties]
        simp [relabel, Edge.relabel, SortedMap.mapValues_insert]
      · rw [if_neg (show ¬PathCost.ties (PathCost.add cost (edge.relabel f).weight) known = true
          from hties), if_neg hties]
        simp [relabel, Edge.relabel, SortedMap.mapValues_insert]

theorem foldl_relax_relabel (hf : KeepsEnds f) (cost : κ) (edges : List (Edge κ)) (s : Search κ) :
    (edges.map (Edge.relabel f)).foldl (relax cost) (s.relabel f) =
      (edges.foldl (relax cost) s).relabel f := by
  rw [List.foldl_map]
  refine List.foldl_hom (Search.relabel f) ?_
  intro s edge
  exact relax_relabel hf cost s edge

variable {g g' : Graph κ}

theorem settle_relabel (hf : KeepsEnds f) (hg : g.Relabelled f g') (src : ElementId)
    (s : Search κ) (entry : ElementId × κ) :
    settle g' src (s.relabel f) entry = (settle g src s entry).relabel f := by
  unfold settle
  dsimp only
  split
  · rw [hg.edgesFrom]
    exact foldl_relax_relabel hf entry.2 _ { s with settled := entry.1 :: s.settled }
  · rfl

theorem visit_relabel (hf : KeepsEnds f) (hg : g.Relabelled f g') (src : ElementId)
    (s : Search κ) (entry : ElementId × κ) :
    visit g' src (s.relabel f) entry = (visit g src s entry).relabel f := by
  unfold visit
  rw [show (s.relabel f).settled = s.settled from rfl, settle_relabel hf hg]
  split <;> rfl

theorem run_relabel (hf : KeepsEnds f) (hg : g.Relabelled f g') (src : ElementId) (n : Nat)
    (s : Search κ) : run g' src n (s.relabel f) = (run g src n s).relabel f := by
  induction n generalizing s with
  | zero => rfl
  | succ n ih =>
    unfold run
    rw [show (s.relabel f).frontier = s.frontier from rfl]
    cases Heap.pop? isNearer s.frontier with
    | none => rfl
    | some popped =>
      dsimp only
      rw [← ih, ← visit_relabel hf hg]
      rfl

/-! ## Links by which elements are reached -/

omit [PathCost κ] in
theorem ReachedBy.insert {s s' : Search κ} {links arrivals : List Link} {next : ElementId}
    (h : s.ReachedBy links) (harrivals : ∀ l ∈ arrivals, l ∈ links ∧ l.dst.element = next)
    (hs' : s'.arrivals = s.arrivals.insert next arrivals) : s'.ReachedBy links := by
  intro e l hl
  unfold arrivalsAt at hl
  rw [hs'] at hl
  by_cases he : e = next
  · rw [he, SortedMap.get?_insert_self, Option.getD_some] at hl
    exact he ▸ harrivals l hl
  · rw [SortedMap.get?_insert_of_ne _ he] at hl
    exact h e l hl

theorem ReachedBy.relax {s : Search κ} {links : List Link} {edge : Edge κ}
    (h : s.ReachedBy links) (hedge : edge.link ∈ links) (cost : κ) :
    (Search.relax cost s edge).ReachedBy links := by
  have hone : ∀ l ∈ [edge.link], l ∈ links ∧ l.dst.element = edge.link.dst.element := by
    intro l hl
    rw [List.mem_singleton.1 hl]
    exact ⟨hedge, rfl⟩
  unfold Search.relax
  dsimp only
  split
  · exact h.insert hone rfl
  · split
    · exact h
    · split
      · refine h.insert (fun l hl => ?_) rfl
        rcases List.mem_append.1 hl with hl | hl
        · exact h _ l hl
        · exact hone l hl
      · exact h.insert hone rfl

theorem ReachedBy.settle {s : Search κ} {links : List Link} (h : s.ReachedBy links)
    (hg : ∀ edge ∈ g.edges, edge.link ∈ links) (src : ElementId) (entry : ElementId × κ) :
    (Search.settle g src s entry).ReachedBy links := by
  unfold Search.settle
  dsimp only
  split
  · refine List.foldlRecOn (motive := fun s => ReachedBy s links) _ _ h ?_
    intro s hs edge hedge
    exact hs.relax (hg edge (List.mem_filter.1 hedge).1) entry.2
  · exact h

theorem ReachedBy.run {s : Search κ} {links : List Link} (h : s.ReachedBy links)
    (hg : ∀ edge ∈ g.edges, edge.link ∈ links) (src : ElementId) (n : Nat) :
    (Search.run g src n s).ReachedBy links := by
  induction n generalizing s with
  | zero => exact h
  | succ n ih =>
    unfold Search.run
    split
    · exact h
    next entry rest _ =>
      have hrest : ({ s with frontier := rest } : Search κ).ReachedBy links := h
      apply ih
      unfold Search.visit
      split
      · exact hrest
      · exact hrest.settle hg src entry

end Search

/-! ## Cheapest routes -/

namespace Graph

section

variable [PathCost κ] {g g' : Graph κ} {links : List Link}

/-- The search of a graph reaches elements by the links of its edges only. -/
theorem reachedBy_search (hg : ∀ edge ∈ g.edges, edge.link ∈ links) (src : ElementId) :
    (g.search src).ReachedBy links := by
  have hstart : (Search.start (κ := κ) src).ReachedBy links := by
    intro e l hl
    exact absurd hl List.not_mem_nil
  exact hstart.run hg src _

theorem search_relabel (hf : KeepsEnds f) (hg : g.Relabelled f g') (src : ElementId) :
    g'.search src = (g.search src).relabel f := by
  unfold search elementBound
  rw [hg.size]
  exact Search.run_relabel hf hg src _ (Search.start src)

/-- The cheapest routes are the changed ones, in the same order. -/
theorem cheapestRoutes_relabel (hf : KeepsEnds f) (hg : g.Relabelled f g')
    (hlinks : ∀ edge ∈ g.edges, edge.link ∈ links) (horder : KeepsOrder f links) (limit : Nat)
    (src dst : ElementId) :
    g'.cheapestRoutes limit src dst =
      (g.cheapestRoutes limit src dst).map fun r => (r.1, r.2.map (List.map f)) := by
  have hbound : g'.elementBound = g.elementBound := congrArg (· + 1) hg.size
  unfold cheapestRoutes
  split
  · rfl
  · dsimp only
    rw [search_relabel hf hg, hbound, Search.routesTo_relabel hf, Option.map_map]
    congr 1
    funext cost
    refine congrArg (Prod.mk cost) (sortedOn_map fun r hr r' hr' => ?_)
    obtain ⟨hwalk, hr⟩ := Search.route_of_reachedBy (reachedBy_search hlinks src) hr
    obtain ⟨hwalk', hr'⟩ := Search.route_of_reachedBy (reachedBy_search hlinks src) hr'
    exact compare_map_of_walks horder hwalk hwalk' hr hr'

end

theorem mem_ofCandidates {weigh : Link → Option κ} {x : Exclusions} {candidates : List Link}
    {edge : Edge κ} (h : edge ∈ (ofCandidates weigh x candidates).edges) :
    edge.link ∈ candidates := by
  obtain ⟨l, hl, h⟩ := List.mem_filterMap.1 (mem_sortedOn.1 h)
  obtain ⟨w, -, rfl⟩ := Option.map_eq_some_iff.1 h
  exact (List.mem_filter.1 hl).1

/-- Changed candidates make the changed graph. -/
theorem ofCandidates_relabel (hf : KeepsEnds f) {weigh weigh' : Link → Option κ} {x : Exclusions}
    {candidates : List Link} (hweigh : ∀ l, weigh' (f l) = weigh l)
    (horder : KeepsOrder f candidates) :
    (ofCandidates weigh x candidates).Relabelled f
      (ofCandidates weigh' x (candidates.map f)) := by
  have hallows : x.allows ∘ f = x.allows := by
    funext l
    unfold Exclusions.allows
    rw [Function.comp_apply, hf l, hf.src, hf.dst]
  have hedges : ((candidates.map f).filter x.allows).filterMap
        (fun l => (weigh' l).map fun w => ({ link := l, weight := w } : Edge κ)) =
      ((candidates.filter x.allows).filterMap
        fun l => (weigh l).map fun w => ({ link := l, weight := w } : Edge κ)).map
          (Edge.relabel f) := by
    rw [List.filter_map, hallows, List.filterMap_map, List.map_filterMap]
    congr 1
    funext l
    rw [Function.comp_apply, hweigh, Option.map_map]
    rfl
  constructor
  · unfold ofCandidates
    dsimp only
    rw [hedges, length_sortedOn, length_sortedOn, List.length_map]
  · intro e
    have hleaves : (fun edge : Edge κ => decide (edge.link.src.element = e)) ∘ Edge.relabel f =
        fun edge => decide (edge.link.src.element = e) := by
      funext edge
      show decide ((f edge.link).src.element = e) = _
      rw [hf.src]
    unfold edgesFrom ofCandidates
    dsimp only
    rw [hedges, filter_sortedOn, filter_sortedOn, List.filter_map, hleaves]
    apply sortedOn_map
    intro a ha b hb
    obtain ⟨ha, hsrc⟩ := List.mem_filter.1 ha
    obtain ⟨hb, hsrc'⟩ := List.mem_filter.1 hb
    exact horder _ (mem_ofCandidates (mem_sortedOn.2 ha)) _ (mem_ofCandidates (mem_sortedOn.2 hb))
      ((of_decide_eq_true hsrc).trans (of_decide_eq_true hsrc').symm)

end Graph

/-! ## Paths -/

theorem Contiguous.relabel (hf : KeepsEnds f) {links : List Link} :
    Contiguous (links.map f) ↔ Contiguous links := by
  induction links with
  | nil => rfl
  | cons a links ih =>
    cases links with
    | nil => rfl
    | cons b links =>
      rw [List.map_cons, List.map_cons, Contiguous, Contiguous, hf.dst, hf.src, ← ih]
      rfl

/-- The path over the changed links. -/
def Path.relabel (hf : KeepsEnds f) (p : Path) : Path where
  provider := p.provider
  links := p.links.map f
  cost := p.cost
  nonempty := by simp [p.nonempty]
  contiguous := (Contiguous.relabel hf).2 p.contiguous

theorem Path.ofLinks_eq_some_iff {provider : ProviderId} {links : List Link} {cost : Binary64}
    {p : Path} :
    (Path.ofLinks provider links cost).toOption = some p ↔
      p.provider = provider ∧ p.links = links ∧ p.cost = cost := by
  rw [← Path.ofLinks_eq_ok_iff]
  cases Path.ofLinks provider links cost <;> simp [Except.toOption]

theorem Path.ofLinks_relabel (hf : KeepsEnds f) (provider : ProviderId) (links : List Link)
    (cost : Binary64) :
    (Path.ofLinks provider (links.map f) cost).toOption =
      (Path.ofLinks provider links cost).toOption.map (Path.relabel hf) := by
  apply Option.ext
  intro p
  rw [Option.map_eq_some_iff, Path.ofLinks_eq_some_iff]
  constructor
  · rintro ⟨rfl, hlinks, rfl⟩
    have hnonempty : links ≠ [] := by
      rintro rfl
      exact p.nonempty hlinks
    have hcontiguous : Contiguous links := (Contiguous.relabel hf).1 (hlinks ▸ p.contiguous)
    refine ⟨⟨p.provider, links, p.cost, hnonempty, hcontiguous⟩,
      Path.ofLinks_eq_some_iff.2 ⟨rfl, rfl, rfl⟩, ?_⟩
    cases p
    dsimp only at hlinks
    subst hlinks
    rfl
  · rintro ⟨q, hq, rfl⟩
    obtain ⟨rfl, rfl, rfl⟩ := Path.ofLinks_eq_some_iff.1 hq
    exact ⟨rfl, rfl, rfl⟩

theorem pathsOfRoutes_relabel (hf : KeepsEnds f) (cost : Binary64) (routes : List (List Link)) :
    pathsOfRoutes cost (routes.map (List.map f)) =
      (pathsOfRoutes cost routes).map (Path.relabel hf) := by
  unfold pathsOfRoutes
  rw [List.filterMap_map, List.map_filterMap]
  congr 1
  funext links
  exact Path.ofLinks_relabel hf .core links cost

/-- The cheapest paths over changed links are the changed cheapest paths, in the same order, if
weights are kept and the order of links that leave one element is. -/
theorem cheapestPaths_relabel (hf : KeepsEnds f) {weigher weigher' : Weigher}
    {candidates : List Link} (hweigh : ∀ l, weigher' (f l) = weigher l)
    (horder : KeepsOrder f candidates) (maxPaths : Nat) (x : Exclusions) (src dst : ElementId) :
    cheapestPaths maxPaths (candidates.map f) weigher' x src dst =
      (cheapestPaths maxPaths candidates weigher x src dst).map (Path.relabel hf) := by
  have hgraph : (Graph.ofCandidates (fun l => (weigher l).value?) x candidates).Relabelled f
      (Graph.ofCandidates (fun l => (weigher' l).value?) x (candidates.map f)) :=
    Graph.ofCandidates_relabel hf (fun l => congrArg Weight.value? (hweigh l)) horder
  unfold cheapestPaths
  dsimp only
  rw [Graph.cheapestRoutes_relabel hf hgraph (fun _ => Graph.mem_ofCandidates) horder]
  cases Graph.cheapestRoutes (Graph.ofCandidates (fun l => (weigher l).value?) x candidates)
    maxPaths src dst with
  | none => rfl
  | some found => exact pathsOfRoutes_relabel hf found.1 found.2

end HostRouting
