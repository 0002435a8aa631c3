import HostRouting.Proofs.Routing.Completeness
import HostRouting.Proofs.Routing.Drift
import HostRouting.Proofs.SortedMap

/-!
# Searches without rounding

The search may be run with costs that are added and compared exactly (`ExactCost`); then costs drift
by no more than the tolerance at each link (`Graph.tolerant_of_units`). The search with rounded
costs is the same as long as no sum that it makes needs rounding and the comparisons that it makes
come out as those of exact costs do (`Graph.Unrounded`, which can be evaluated): its state is then
at every moment that of the other search (`Search.unrounded_run`).

Main fact: `paths_drift`.
-/

namespace HostRouting

/-! ## Exact costs -/

/-- A cost as a count of units, added and compared without rounding. -/
structure ExactCost where
  units : Nat
deriving DecidableEq

instance : PathCost ExactCost where
  zero := ⟨0⟩
  add a b := ⟨a.units + b.units⟩
  exceeds candidate known := known.units + costTolerance.level < candidate.units
  ties candidate known := Within costTolerance.level candidate.units known.units
  order a b := compare a.units b.units

theorem Graph.tolerant_of_units {g : Graph ExactCost} {length : Link → Nat}
    (hlength : ∀ edge ∈ g.edges, edge.weight.units = length edge.link) (src : ElementId) :
    g.Tolerant src ExactCost.units costTolerance.level length where
  le_of_order _ _ horder := Nat.compare_ne_gt.1 horder
  ge_of_order _ _ horder := Nat.compare_ne_lt.1 horder
  grows _ _ := Nat.le_add_right _ _
  replaces {_ cost known} _ _ hexceeds hties := by
    have hexceeds : ¬known.units + costTolerance.level < cost.units :=
      fun h => hexceeds (decide_eq_true h)
    have hties : ¬Within costTolerance.level cost.units known.units :=
      fun h => hties (decide_eq_true h)
    unfold Within at hties
    omega
  zero := rfl
  add {cost _} _ hedge := congrArg (cost.units + ·) (hlength _ hedge)
  kept {_ cost known} _ _ hexceeds := by
    have hexceeds : known.units + costTolerance.level < cost.units := of_decide_eq_true hexceeds
    omega
  tied _ _ hties := of_decide_eq_true hties

/-! ## The same search without rounding -/

/-- The number of units of a cost that is not negative. -/
def Binary64.unrounded (x : Binary64) : ExactCost := ⟨x.level⟩

def Edge.unrounded (edge : Edge Binary64) : Edge ExactCost := ⟨edge.link, edge.weight.unrounded⟩

def Graph.unrounded (g : Graph Binary64) : Graph ExactCost := ⟨g.edges.map Edge.unrounded⟩

namespace Search

/-- An entry of the frontier with its exact cost. -/
def exactEntry (entry : ElementId × Binary64) : ElementId × ExactCost :=
  (entry.1, entry.2.unrounded)

/-- The search with exact costs. -/
def unrounded (s : Search Binary64) : Search ExactCost where
  costs := s.costs.mapValues Binary64.unrounded
  arrivals := s.arrivals
  settled := s.settled
  frontier := s.frontier.map exactEntry

/-- Considering the edge needs no rounding: the sum has its exact value and compares with the known
cost of the end as exact costs do. -/
def UnroundedAt (cost : Binary64) (s : Search Binary64) (edge : Edge Binary64) : Prop :=
  (cost + edge.weight).units? = some ((cost.level + edge.weight.level : Nat) : Int) ∧
    ∀ known ∈ s.costs.get? edge.link.dst.element,
      PathCost.exceeds (cost + edge.weight).unrounded known.unrounded =
          PathCost.exceeds (cost + edge.weight) known ∧
        PathCost.ties (cost + edge.weight).unrounded known.unrounded =
          PathCost.ties (cost + edge.weight) known

instance (cost : Binary64) (s : Search Binary64) (edge : Edge Binary64) :
    Decidable (UnroundedAt cost s edge) := inferInstanceAs (Decidable (_ ∧ _))

/-- Considering one edge after another needs no rounding. -/
def UnroundedAlong (cost : Binary64) : Search Binary64 → List (Edge Binary64) → Prop
  | _, [] => True
  | s, edge :: rest => UnroundedAt cost s edge ∧ UnroundedAlong cost (relax cost s edge) rest

instance decidableUnroundedAlong (cost : Binary64) : (s : Search Binary64) →
    (edges : List (Edge Binary64)) → Decidable (UnroundedAlong cost s edges)
  | _, [] => inferInstanceAs (Decidable True)
  | s, edge :: rest =>
    have := decidableUnroundedAlong cost (relax cost s edge) rest
    inferInstanceAs (Decidable (_ ∧ _))

/-- Taking up an entry of the frontier needs no rounding. -/
def UnroundedVisit (g : Graph Binary64) (src : ElementId) (s : Search Binary64)
    (entry : ElementId × Binary64) : Prop :=
  entry.1 ∉ s.settled →
    UnroundedAlong entry.2 { s with settled := entry.1 :: s.settled } (g.edgesOut src entry.1)

instance (g : Graph Binary64) (src : ElementId) (s : Search Binary64)
    (entry : ElementId × Binary64) : Decidable (UnroundedVisit g src s entry) :=
  inferInstanceAs (Decidable (_ → _))

/-- Taking at most the given number of entries off the frontier needs no rounding. -/
def UnroundedRun (g : Graph Binary64) (src : ElementId) : Nat → Search Binary64 → Prop
  | 0, _ => True
  | n + 1, s => ∀ popped ∈ Heap.pop? isNearer s.frontier,
    UnroundedVisit g src { s with frontier := popped.2 } popped.1 ∧
      UnroundedRun g src n (visit g src { s with frontier := popped.2 } popped.1)

instance decidableUnroundedRun (g : Graph Binary64) (src : ElementId) : (n : Nat) →
    (s : Search Binary64) → Decidable (UnroundedRun g src n s)
  | 0, _ => inferInstanceAs (Decidable True)
  | n + 1, s =>
    have := decidableUnroundedRun g src n
    inferInstanceAs (Decidable (∀ popped ∈ Heap.pop? isNearer s.frontier, _ ∧ _))

end Search

/-- The search from an element needs no rounding. -/
def Graph.Unrounded (g : Graph Binary64) (src : ElementId) : Prop :=
  Search.UnroundedRun g src g.elementBound (Search.start src)

instance (g : Graph Binary64) (src : ElementId) : Decidable (g.Unrounded src) :=
  inferInstanceAs (Decidable (Search.UnroundedRun _ _ _ _))

/-! ## Step by step -/

namespace Search

variable {g : Graph Binary64} {src e : ElementId} {cost : Binary64} {s : Search Binary64}

theorem get?_unrounded (s : Search Binary64) (e : ElementId) :
    s.unrounded.costs.get? e = (s.costs.get? e).map Binary64.unrounded :=
  SortedMap.get?_mapValues _ _ _

theorem unrounded_start (src : ElementId) :
    (start src : Search Binary64).unrounded = start src := by
  have hzero : (PathCost.zero : Binary64).unrounded = PathCost.zero := by
    rw [show (PathCost.zero : Binary64) = Binary64.zero false from Binary64.zero_eq_finite]
    rfl
  unfold start unrounded
  dsimp only [List.map_cons, List.map_nil, exactEntry]
  rw [SortedMap.mapValues_insert, hzero]
  rfl

/-- No cost in the frontier is negative. -/
def NonnegFrontier (s : Search Binary64) : Prop := ∀ p ∈ s.frontier, 0 ≤ p.2

theorem nonnegFrontier_start (src : ElementId) : (start src).NonnegFrontier := by
  intro p hp
  rw [List.mem_singleton.1 hp]
  exact Binary64.zero_nonneg

theorem NonnegFrontier.relax {edge : Edge Binary64} (h : s.NonnegFrontier) (hcost : 0 ≤ cost)
    (hweight : 0 ≤ edge.weight) : (Search.relax cost s edge).NonnegFrontier := by
  unfold NonnegFrontier
  rcases frontier_relax cost s edge with heq | heq
  · rw [heq]
    exact h
  · rw [heq]
    intro p hp
    rcases Heap.mem_push_iff.1 hp with rfl | hp
    · exact Binary64.add_nonneg hcost hweight
    · exact h p hp

/-- Exact costs that are not negative have the order of the rounded ones. -/
theorem keeps_exactEntry {entries : List (ElementId × Binary64)} (h : ∀ p ∈ entries, 0 ≤ p.2) :
    Heap.Keeps isNearer isNearer exactEntry entries := by
  intro p hp q hq
  unfold isNearer
  rw [Binary64.order_eq (h p hp) (h q hq)]
  rfl

theorem unrounded_relax {edge : Edge Binary64} (hfrontier : s.NonnegFrontier) (hcost : 0 ≤ cost)
    (hweight : 0 ≤ edge.weight) (h : UnroundedAt cost s edge) :
    (relax cost s edge).unrounded = relax cost.unrounded s.unrounded edge.unrounded := by
  obtain ⟨hsum, hcompare⟩ := h
  have hadd : PathCost.add cost.unrounded edge.unrounded.weight =
      (cost + edge.weight).unrounded :=
    congrArg ExactCost.mk (Binary64.level_of_units? hsum).symm
  have hpush : Heap.push isNearer (s.frontier.map exactEntry)
      (edge.link.dst.element, (cost + edge.weight).unrounded) =
        (Heap.push isNearer s.frontier (edge.link.dst.element, cost + edge.weight)).map
          exactEntry := by
    have hnonneg : ∀ p ∈ (edge.link.dst.element, cost + edge.weight) :: s.frontier, 0 ≤ p.2 := by
      intro p hp
      rcases List.mem_cons.1 hp with rfl | hp
      · exact Binary64.add_nonneg hcost hweight
      · exact hfrontier p hp
    exact Heap.push_map (keeps_exactEntry hnonneg)
  unfold relax
  dsimp only
  rw [show edge.unrounded.link = edge.link from rfl, get?_unrounded, hadd,
    show PathCost.add cost edge.weight = cost + edge.weight from rfl]
  cases hknown : s.costs.get? edge.link.dst.element with
  | none => simp [unrounded, hpush, SortedMap.mapValues_insert]
  | some known =>
    obtain ⟨hexceeds, hties⟩ := hcompare known hknown
    rw [Option.map_some]
    dsimp only
    rw [hexceeds, hties]
    split
    · rfl
    · split
      · rfl
      · simp [unrounded, hpush, SortedMap.mapValues_insert]

theorem unrounded_foldl_relax {edges : List (Edge Binary64)} (hfrontier : s.NonnegFrontier)
    (hcost : 0 ≤ cost) (hweights : ∀ edge ∈ edges, 0 ≤ edge.weight)
    (h : UnroundedAlong cost s edges) :
    (edges.foldl (relax cost) s).NonnegFrontier ∧ (edges.foldl (relax cost) s).unrounded =
      (edges.map Edge.unrounded).foldl (relax cost.unrounded) s.unrounded := by
  induction edges generalizing s with
  | nil => exact ⟨hfrontier, rfl⟩
  | cons edge rest ih =>
    obtain ⟨hedge, hrest⟩ := h
    obtain ⟨hweight, hweights⟩ := List.forall_mem_cons.1 hweights
    rw [List.map_cons, List.foldl_cons, List.foldl_cons,
      ← unrounded_relax hfrontier hcost hweight hedge]
    exact ih (hfrontier.relax hcost hweight) hweights hrest

theorem edgesOut_unrounded (g : Graph Binary64) (src e : ElementId) :
    g.unrounded.edgesOut src e = (g.edgesOut src e).map Edge.unrounded := by
  unfold Graph.edgesOut Graph.edgesFrom
  split
  · rw [show g.unrounded.edges = g.edges.map Edge.unrounded from rfl, List.filter_map]
    rfl
  · rfl

theorem unrounded_visit {entry : ElementId × Binary64}
    (hweights : ∀ edge ∈ g.edges, 0 ≤ edge.weight) (hfrontier : s.NonnegFrontier)
    (hentry : 0 ≤ entry.2) (h : UnroundedVisit g src s entry) :
    (visit g src s entry).NonnegFrontier ∧
      (visit g src s entry).unrounded = visit g.unrounded src s.unrounded (exactEntry entry) := by
  unfold visit
  rw [show s.unrounded.settled = s.settled from rfl,
    show (exactEntry entry).1 = entry.1 from rfl]
  split
  next => exact ⟨hfrontier, rfl⟩
  next hnew =>
    rw [settle_eq, settle_eq, show (exactEntry entry).1 = entry.1 from rfl, edgesOut_unrounded]
    exact unrounded_foldl_relax hfrontier hentry
      (fun edge hedge => hweights edge (Graph.mem_edgesOut_iff.1 hedge).1)
      (h (by simpa using hnew))

/-- While the search needs no rounding it stands where the search with exact costs does. -/
theorem unrounded_run (hweights : ∀ edge ∈ g.edges, 0 ≤ edge.weight)
    (hfrontier : s.NonnegFrontier) {n : Nat} (h : UnroundedRun g src n s) :
    (run g src n s).unrounded = run g.unrounded src n s.unrounded := by
  induction n generalizing s with
  | zero => rfl
  | succ n ih =>
    unfold run
    rw [show s.unrounded.frontier = s.frontier.map exactEntry from rfl,
      Heap.pop?_map (keeps_exactEntry hfrontier)]
    cases hpop : Heap.pop? isNearer s.frontier with
    | none => rfl
    | some popped =>
      obtain ⟨entry, rest⟩ := popped
      obtain ⟨hvisit, hrest⟩ := h _ hpop
      have hsub : NonnegFrontier { s with frontier := rest } := fun p hp =>
        hfrontier p ((Heap.mem_of_pop? hpop).2 (.inr hp))
      obtain ⟨hnonneg, hvisited⟩ := unrounded_visit hweights hsub
        (hfrontier entry ((Heap.mem_of_pop? hpop).2 (.inl rfl))) hvisit
      exact (ih hnonneg hrest).trans (congrArg (run g.unrounded src n) hvisited)

theorem chains_unrounded (s : Search Binary64) (src : ElementId) (n : Nat)
    (visited : List ElementId) (e : ElementId) :
    s.unrounded.chains src n visited e = s.chains src n visited e := by
  induction n generalizing visited e with
  | zero => rfl
  | succ n ih =>
    rw [chains, chains]
    simp only [ih]
    rfl

/-! ## Finite costs -/

/-- All costs that are known are finite. -/
def AllFinite (s : Search Binary64) : Prop := ∀ e k, s.costs.get? e = some k → k.isFinite = true

theorem allFinite_start (src : ElementId) : (start src : Search Binary64).AllFinite := by
  intro e k hk
  rw [start, SortedMap.get?_insert] at hk
  split at hk
  next =>
    rw [← Option.some.inj hk]
    exact Binary64.isFinite_of_units? Binary64.units?_ofNat_zero
  next => cases hk

theorem AllFinite.relax {edge : Edge Binary64} (h : s.AllFinite) (hat : UnroundedAt cost s edge) :
    (Search.relax cost s edge).AllFinite := by
  intro e k hk
  rcases cost_relax hk with hk | ⟨-, -, rfl⟩
  · exact h e k hk
  · exact Binary64.isFinite_of_units? hat.1

theorem AllFinite.foldl_relax {edges : List (Edge Binary64)} (h : s.AllFinite)
    (halong : UnroundedAlong cost s edges) : (edges.foldl (Search.relax cost) s).AllFinite := by
  induction edges generalizing s with
  | nil => exact h
  | cons edge rest ih => exact ih (h.relax halong.1) halong.2

/-- Costs that are found without rounding are finite. -/
theorem AllFinite.run {n : Nat} (h : s.AllFinite) (hrun : UnroundedRun g src n s) :
    (Search.run g src n s).AllFinite := by
  induction n generalizing s with
  | zero => exact h
  | succ n ih =>
    unfold Search.run
    split
    · exact h
    next entry rest hpop =>
      obtain ⟨hvisit, hrest⟩ := hrun _ hpop
      refine ih ?_ hrest
      have hkept : AllFinite { s with frontier := rest } := fun e k hk => h e k hk
      unfold visit
      split
      next => exact hkept
      next hnew =>
        rw [settle_eq]
        exact foldl_relax (fun e k hk => h e k hk) (hvisit (by simpa using hnew))

end Search

namespace Graph

variable {g : Graph Binary64} {src dst : ElementId}

theorem elementBound_unrounded (g : Graph Binary64) :
    g.unrounded.elementBound = g.elementBound :=
  congrArg (· + 1) (List.length_map _)

theorem links_unrounded (g : Graph Binary64) :
    g.unrounded.edges.map Edge.link = g.edges.map Edge.link := by
  show (g.edges.map Edge.unrounded).map Edge.link = _
  rw [List.map_map]
  rfl

theorem Unrounded.search_eq (h : g.Unrounded src) (hweights : ∀ edge ∈ g.edges, 0 ≤ edge.weight) :
    g.unrounded.search src = (g.search src).unrounded := by
  unfold search
  rw [elementBound_unrounded, ← Search.unrounded_start]
  exact (Search.unrounded_run hweights (Search.nonnegFrontier_start src) h).symm

theorem allRoutes_unrounded (g : Graph Binary64) (s : Search Binary64) (src dst : ElementId) :
    g.unrounded.allRoutes s.unrounded src dst = g.allRoutes s src dst := by
  unfold allRoutes
  rw [elementBound_unrounded, Search.chains_unrounded]

theorem Unrounded.units?_cost (h : g.Unrounded src)
    (hweights : ∀ edge ∈ g.edges, 0 ≤ edge.weight) {cost : Binary64}
    (hcost : (g.search src).costs.get? dst = some cost) :
    cost.units? = some (cost.level : Int) :=
  Binary64.units?_of_isFinite ((Search.allFinite_start src).run h dst cost hcost)
    (((g.served_search src).sound.arrives hcost).nonneg hweights)

end Graph

/-! ## Paths -/

/-- The weight of a link in units, for weights that are finite and not negative. -/
def weightUnits (weigher : Weigher) (l : Link) : Nat :=
  ((weigher l).value?.map Binary64.level).getD 0

/-- Without rounding the search of a topology drifts by no more than the tolerance at each link. -/
theorem drifts_topologyGraph {links : List Link} {hosts : List Host} {weigher : Weigher}
    {src dst : ElementId} {cost : ExactCost}
    (hcost : ((topologyGraph links hosts weigher).unrounded.search src).costs.get? dst =
      some cost) :
    Drifts (Admitted links hosts weigher) (weightUnits weigher) costTolerance.level src dst
      cost.units ((topologyGraph links hosts weigher).unrounded.allRoutes
        ((topologyGraph links hosts weigher).unrounded.search src) src dst) := by
  have hadmitted : (· ∈ (topologyGraph links hosts weigher).unrounded.edges.map Edge.link) =
      Admitted links hosts weigher := by
    rw [Graph.links_unrounded]
    exact funext fun l => propext mem_links_topologyGraph_iff
  have hlength : ∀ edge ∈ (topologyGraph links hosts weigher).unrounded.edges,
      edge.weight.units = weightUnits weigher edge.link := by
    refine List.forall_mem_map.2 fun edge hedge => ?_
    have hweight := (mem_topologyGraph_iff.1 hedge).2
    show edge.weight.level = ((weigher edge.link).value?.map Binary64.level).getD 0
    rw [hweight]
    rfl
  rw [← hadmitted]
  exact (Graph.tolerant_of_units hlength src).drift hcost

section

variable {σ : Type} [LinkStore σ] (config : PlannerConfig) (store : σ) (hosts : HostDirectory)
  (weigher : Weigher) {src dst : ElementId}

/-- How far costs drift where weights are finite and not negative. When costs are added and compared
exactly, the routes of the search carry a cost that is at least the least total of all routes and at
most the tolerance for each link of a cheapest route above it, and their own totals differ from it
by no more than the tolerance for each of their links. When rounding does not interfere the listed
paths are as good: all have the same cost, and it and their links are related in this way. -/
theorem paths_drift (hne : src ≠ dst)
    (hweights : ∀ l w, Usable (LinkStore.links store) hosts.hosts l → weigher l = .scalar w →
      w.isFinite = true ∧ 0 ≤ w) :
    let g := graphOf store hosts weigher
    let permitted := Admitted (LinkStore.links store) hosts.hosts weigher
    let drifts := Drifts permitted (weightUnits weigher) costTolerance.level src dst
    let paths := (topologyPaths config).paths store hosts weigher src dst
    (∀ cost routes, g.unrounded.cheapestRoutes config.maxPaths src dst = some (cost, routes) →
        drifts cost.units routes) ∧
      (g.Unrounded src → paths ≠ [] → ∃ cost : Nat,
        (∀ p ∈ paths, p.cost.units? = some (cost : Int)) ∧ drifts cost (paths.map Path.links)) := by
  intro g permitted drifts paths
  have hnonneg : ∀ edge ∈ g.edges, 0 ≤ edge.weight := by
    intro edge hedge
    obtain ⟨husable, hw⟩ := mem_topologyGraph_iff.1 hedge
    exact (hweights _ _ husable hw).2
  constructor
  · intro cost routes h
    unfold Graph.cheapestRoutes at h
    rw [if_neg hne] at h
    obtain ⟨found, hcost, hfound⟩ := Option.map_eq_some_iff.1 h
    obtain ⟨rfl, rfl⟩ := Prod.mk.inj hfound
    refine (drifts_topologyGraph hcost).mono fun route hroute => ?_
    rw [sorted, mem_sortedOn, Search.routesTo_eq_take] at hroute
    exact List.mem_of_mem_take hroute
  · intro hunrounded hpaths
    have hlisted : paths = listedFrom g (g.search src) config.maxPaths src dst :=
      paths_eq_listedFrom config store hosts weigher hne
    cases hcost : (g.search src).costs.get? dst with
    | none =>
      rw [hlisted, listedFrom, hcost] at hpaths
      exact absurd rfl hpaths
    | some cost =>
      have hexact : (g.unrounded.search src).costs.get? dst = some cost.unrounded := by
        rw [hunrounded.search_eq hnonneg, Search.get?_unrounded, hcost]
        rfl
      refine ⟨cost.level, fun p hp => ?_, (drifts_topologyGraph hexact).mono fun route hroute => ?_⟩
      · rw [hlisted] at hp
        obtain rfl := Option.some.inj (hcost.symm.trans (cost_of_mem_listedFrom hp))
        exact hunrounded.units?_cost hnonneg hcost
      · rw [show paths.map Path.links = _ from links_paths config store hosts weigher hne, sorted,
          mem_sortedOn] at hroute
        rw [hunrounded.search_eq hnonneg, Graph.allRoutes_unrounded]
        exact List.mem_of_mem_take hroute

end

namespace Shortcut

/-- A way over two links and a shortcut. -/
def links : LinkTable :=
  [Link.between (Row.port "s1" 1) (Row.port "s2" 1) .direct,
    .between (Row.port "s1" 2) (Row.port "s3" 1) .direct,
    .between (Row.port "s2" 2) (Row.port "s3" 2) .direct].foldl LinkTable.insert .empty

/-- The shortcut costs somewhat less than the tolerance, all other links cost nothing. -/
def weigher : Weigher := fun l =>
  .scalar (if l.src = Row.port "s1" 2 then .ofDecimal false 9 (-10) else 0)

end Shortcut

/-- The way over two links is found after the shortcut and costs less, but the cost of the shortcut
is kept, and both are listed. -/
theorem paths_drift_shortcut :
    let paths := (topologyPaths .default).paths Shortcut.links .empty Shortcut.weigher
      (.device ⟨"s1"⟩) (.device ⟨"s3"⟩)
    ElementId.device ⟨"s1"⟩ ≠ .device ⟨"s3"⟩ ∧
      (∀ l w, Usable Shortcut.links.links HostDirectory.empty.hosts l →
        Shortcut.weigher l = .scalar w → w.isFinite = true ∧ 0 ≤ w) ∧
      (graphOf Shortcut.links .empty Shortcut.weigher).Unrounded (.device ⟨"s1"⟩) ∧
      paths.length = 2 ∧ ∃ cost : Nat, (∀ p ∈ paths, p.cost.units? = some (cost : Int)) ∧
        Drifts (Admitted Shortcut.links.links HostDirectory.empty.hosts Shortcut.weigher)
          (weightUnits Shortcut.weigher) costTolerance.level (.device ⟨"s1"⟩) (.device ⟨"s3"⟩) cost
          (paths.map Path.links) ∧
        ∃ p ∈ paths, total (weightUnits Shortcut.weigher) p.links < cost := by
  intro paths
  have hne : ElementId.device ⟨"s1"⟩ ≠ .device ⟨"s3"⟩ := by decide
  have hweights : ∀ l w, Usable Shortcut.links.links HostDirectory.empty.hosts l →
      Shortcut.weigher l = .scalar w → w.isFinite = true ∧ 0 ≤ w := by
    intro l w _ hw
    rw [← Weight.scalar.inj hw]
    split <;> decide +kernel
  have hunrounded :
      (graphOf Shortcut.links .empty Shortcut.weigher).Unrounded (.device ⟨"s1"⟩) := by
    decide +kernel
  have hlength : paths.length = 2 := by decide +kernel
  have hcheaper : ∃ p ∈ paths, total (weightUnits Shortcut.weigher) p.links < p.cost.level := by
    decide +kernel
  obtain ⟨cost, hcost, hdrifts⟩ := (paths_drift .default Shortcut.links .empty Shortcut.weigher hne
    hweights).2 hunrounded (List.ne_nil_of_length_pos (by rw [hlength]; decide))
  obtain ⟨p, hp, hlt⟩ := hcheaper
  rw [Binary64.level_of_units? (hcost p hp)] at hlt
  exact ⟨hne, hweights, hunrounded, hlength, cost, hcost, hdrifts, p, hp, hlt⟩

end HostRouting
