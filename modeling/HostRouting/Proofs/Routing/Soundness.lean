import HostRouting.Proofs.Routing.Progress

/-!
# What the path service lists

Every listed path is a route over usable links with a weight, in whatever order the search has
served its frontier and whatever the weights are: a weigher may give negative, infinite or
meaningless ones. There are no more paths than asked for, and they stand in the order of their
links.

The listed paths are those of the first routes that are read backwards (`links_paths`).

Main fact: `paths_sound`.
-/

namespace HostRouting

variable {κ : Type} {src dst : ElementId}

/-! ## Routes that are read -/

theorem IsRoute.mono {P Q : Link → Prop} {links : List Link} (h : IsRoute P src dst links)
    (hPQ : ∀ l, P l → Q l) : IsRoute Q src dst links :=
  { h with permits := fun l hl => hPQ l (h.permits l hl) }

namespace Search

variable [PathCost κ] {g : Graph κ} {s : Search κ}

theorem Served.consistent (h : Served g src s) : s.Consistent :=
  fun e l hl => (h.sound.reached e l hl).1

theorem Served.mem_allRoutes_iff (h : Served g src s) {route : List Link} :
    route ∈ g.allRoutes s src dst ↔ IsWalk src route dst ∧
      (∀ l ∈ route, l ∈ s.arrivalsAt l.dst.element) ∧
        (src :: route.map (·.dst.element)).Nodup :=
  Graph.mem_allRoutes_iff h.consistent fun e l hl => (h.sound.reached e l hl).2.2

/-- At every moment of a search, what is read backwards is a route. -/
theorem Served.isRoute (h : Served g src s) {route : List Link}
    (hroute : route ∈ g.allRoutes s src dst) :
    IsRoute (· ∈ g.edges.map Edge.link) src dst route := by
  obtain ⟨hwalk, harrives, hsimple⟩ := h.mem_allRoutes_iff.1 hroute
  refine IsRoute.of_walk hwalk hsimple fun l hl => ?_
  obtain ⟨-, hleave, hlink⟩ := h.sound.reached _ l (harrives l hl)
  exact ⟨hlink, hleave⟩

end Search

/-! ## The graph of a topology -/

/-- A usable link that the weigher does not rule out. -/
def Admitted (links : List Link) (hosts : List Host) (weigher : Weigher) (l : Link) : Prop :=
  Usable links hosts l ∧ ∃ w, weigher l = .scalar w

/-- The graph in which the path service searches. -/
def topologyGraph (links : List Link) (hosts : List Host) (weigher : Weigher) : Graph Binary64 :=
  .ofCandidates (fun l => (weigher l).value?) .none (candidateLinks links hosts)

theorem Weight.value?_eq_some_iff {w : Weight} {x : Binary64} :
    w.value? = some x ↔ w = .scalar x := by
  cases w <;> simp [value?]

variable {links : List Link} {hosts : List Host} {weigher : Weigher}

theorem mem_topologyGraph_iff {edge : Edge Binary64} :
    edge ∈ (topologyGraph links hosts weigher).edges ↔
      Usable links hosts edge.link ∧ weigher edge.link = .scalar edge.weight := by
  rw [topologyGraph, Graph.mem_ofCandidates_iff, mem_candidateLinks_iff,
    Weight.value?_eq_some_iff]

theorem mem_links_topologyGraph_iff {l : Link} :
    l ∈ (topologyGraph links hosts weigher).edges.map Edge.link ↔
      Admitted links hosts weigher l := by
  rw [List.mem_map]
  constructor
  · rintro ⟨edge, hedge, rfl⟩
    obtain ⟨husable, hw⟩ := mem_topologyGraph_iff.1 hedge
    exact ⟨husable, _, hw⟩
  · rintro ⟨husable, w, hw⟩
    exact ⟨⟨l, w⟩, mem_topologyGraph_iff.2 ⟨husable, hw⟩, rfl⟩

/-! ## Paths -/

/-- Routes between different elements make paths. -/
theorem map_links_pathsOfRoutes {cost : Binary64} {routes : List (List Link)}
    (h : ∀ route ∈ routes, route ≠ [] ∧ Contiguous route) :
    (pathsOfRoutes cost routes).map Path.links = routes := by
  induction routes with
  | nil => rfl
  | cons route routes ih =>
    obtain ⟨hnonempty, hcontiguous⟩ := h route List.mem_cons_self
    have hpath : (Path.ofLinks .core route cost).toOption =
        some ⟨.core, route, cost, hnonempty, hcontiguous⟩ :=
      Path.ofLinks_eq_some_iff.2 ⟨rfl, rfl, rfl⟩
    rw [pathsOfRoutes, List.filterMap_cons, hpath, List.map_cons]
    exact congrArg _ (ih fun r hr => h r (List.mem_cons_of_mem _ hr))

theorem cost_of_mem_pathsOfRoutes {cost : Binary64} {routes : List (List Link)} {p : Path}
    (h : p ∈ pathsOfRoutes cost routes) : p.cost = cost := by
  obtain ⟨route, -, hp⟩ := List.mem_filterMap.1 h
  exact (Path.ofLinks_eq_some_iff.1 hp).2.2

/-- The paths that are listed when the search has come to a state. -/
def listedFrom (g : Graph Binary64) (s : Search Binary64) (maxPaths : Nat) (src dst : ElementId) :
    List Path :=
  match s.costs.get? dst with
  | some cost => pathsOfRoutes cost (sorted ((g.allRoutes s src dst).take maxPaths))
  | none => []

theorem cost_of_mem_listedFrom {g : Graph Binary64} {s : Search Binary64} {maxPaths : Nat}
    {p : Path} (h : p ∈ listedFrom g s maxPaths src dst) : s.costs.get? dst = some p.cost := by
  unfold listedFrom at h
  split at h
  next cost hcost => rw [hcost, cost_of_mem_pathsOfRoutes h]
  next => exact absurd h List.not_mem_nil

namespace Search.Served

variable {g : Graph Binary64} {s : Search Binary64}

/-- The links of what would be listed are the first routes that are read, in order. -/
theorem links_listedFrom (h : Served g src s) (hne : src ≠ dst) (maxPaths : Nat) :
    (listedFrom g s maxPaths src dst).map Path.links =
      sorted ((g.allRoutes s src dst).take maxPaths) := by
  have hpath : ∀ route ∈ g.allRoutes s src dst, route ≠ [] ∧ Contiguous route := by
    intro route hroute
    have hwalk := (h.isRoute hroute).walk
    exact ⟨fun hnil => hne (by rw [hnil] at hwalk; exact hwalk), hwalk.contiguous⟩
  unfold listedFrom
  split
  next =>
    refine map_links_pathsOfRoutes fun route hroute => hpath route ?_
    exact List.mem_of_mem_take (mem_sortedOn.1 hroute)
  next hcost =>
    -- The last link of a route would have given the destination a cost.
    have hnone : g.allRoutes s src dst = [] := by
      refine List.eq_nil_iff_forall_not_mem.2 fun route hroute => ?_
      obtain ⟨hwalk, harrives, -⟩ := h.mem_allRoutes_iff.1 hroute
      rcases List.eq_nil_or_concat route with hnil | ⟨init, l, rfl⟩
      · exact (hpath route hroute).1 hnil
      · rw [List.concat_eq_append] at hwalk harrives
        obtain ⟨-, -, -, hend⟩ := IsWalk.append_iff.1 hwalk
        have hl := harrives l (List.mem_append_right _ (List.mem_singleton_self l))
        have hknown := h.sound.reachedKnown _ (List.ne_nil_of_mem hl)
        rw [show l.dst.element = dst from hend, hcost] at hknown
        exact nomatch hknown
    rw [hnone, List.take_nil]
    rfl

/-- At every moment of a search and in whatever order its frontier has been served, what would be
listed are routes, not more than asked for and in the order of their links. -/
theorem listedFrom_sound (h : Served g src s) (hne : src ≠ dst) (maxPaths : Nat) :
    (∀ p ∈ listedFrom g s maxPaths src dst,
        IsRoute (· ∈ g.edges.map Edge.link) src dst p.links) ∧
      (listedFrom g s maxPaths src dst).length ≤ maxPaths ∧
      Increases Path.links (listedFrom g s maxPaths src dst) := by
  have hlinks := h.links_listedFrom hne maxPaths
  refine ⟨fun p hp => ?_, ?_, ?_⟩
  · have hroute := List.mem_map_of_mem (f := Path.links) hp
    rw [hlinks] at hroute
    exact h.isRoute (List.mem_of_mem_take (mem_sortedOn.1 hroute))
  · rw [← List.length_map Path.links, hlinks, sorted, length_sortedOn, List.length_take]
    exact Nat.min_le_left _ _
  · have hincreases : Increases id ((listedFrom g s maxPaths src dst).map Path.links) := by
      rw [hlinks]
      exact increases_sortedOn
    exact List.pairwise_map.1 hincreases

end Search.Served

theorem cheapestPaths_eq_listedFrom (maxPaths : Nat) (hne : src ≠ dst) :
    cheapestPaths maxPaths (candidateLinks links hosts) weigher .none src dst =
      listedFrom (topologyGraph links hosts weigher)
        ((topologyGraph links hosts weigher).search src) maxPaths src dst := by
  unfold cheapestPaths Graph.cheapestRoutes
  simp only [if_neg hne, Search.routesTo_eq_take]
  show (match Option.map _ (((topologyGraph links hosts weigher).search src).costs.get? dst) with
    | some (cost, routes) => pathsOfRoutes cost routes
    | none => []) = _
  unfold listedFrom
  cases ((topologyGraph links hosts weigher).search src).costs.get? dst <;> rfl

theorem isRoute_of_mem_cheapestPaths {maxPaths : Nat} {p : Path}
    (h : p ∈ cheapestPaths maxPaths (candidateLinks links hosts) weigher .none src dst) :
    IsRoute (Admitted links hosts weigher) src dst p.links := by
  by_cases hne : src = dst
  · subst hne
    simp [cheapestPaths, Graph.cheapestRoutes] at h
  · rw [cheapestPaths_eq_listedFrom maxPaths hne] at h
    have hserved := Graph.served_search (topologyGraph links hosts weigher) src
    exact ((hserved.listedFrom_sound hne maxPaths).1 p h).mono fun l hl =>
      mem_links_topologyGraph_iff.1 hl

section

variable {σ : Type} [LinkStore σ] (config : PlannerConfig) (store : σ) (hosts : HostDirectory)
  (weigher : Weigher) (src dst : ElementId)

/-- The graph of the stored links and the known hosts. -/
abbrev graphOf : Graph Binary64 := topologyGraph (LinkStore.links store) hosts.hosts weigher

theorem paths_self (e : ElementId) : (topologyPaths config).paths store hosts weigher e e = [] := by
  show cheapestPaths config.maxPaths _ weigher .none e e = []
  simp [cheapestPaths, Graph.cheapestRoutes]

variable {src dst}

theorem paths_eq_listedFrom (hne : src ≠ dst) :
    (topologyPaths config).paths store hosts weigher src dst =
      listedFrom (graphOf store hosts weigher) ((graphOf store hosts weigher).search src)
        config.maxPaths src dst :=
  cheapestPaths_eq_listedFrom config.maxPaths hne

/-- The links of the listed paths are the first routes that are read backwards, in order. -/
theorem links_paths (hne : src ≠ dst) :
    ((topologyPaths config).paths store hosts weigher src dst).map Path.links =
      sorted (((graphOf store hosts weigher).allRoutes
        ((graphOf store hosts weigher).search src) src dst).take config.maxPaths) := by
  rw [paths_eq_listedFrom config store hosts weigher hne]
  exact (Graph.served_search _ src).links_listedFrom hne config.maxPaths

variable (src dst)

/-- Every listed path is a route over usable links with a weight, there are at most as many as
asked for, in the order of their links, and none from an element to itself. -/
theorem paths_sound :
    (∀ p ∈ (topologyPaths config).paths store hosts weigher src dst,
        IsRoute (Admitted (LinkStore.links store) hosts.hosts weigher) src dst p.links) ∧
      ((topologyPaths config).paths store hosts weigher src dst).length ≤ config.maxPaths ∧
      Increases Path.links ((topologyPaths config).paths store hosts weigher src dst) ∧
      (topologyPaths config).paths store hosts weigher src src = [] := by
  have hself := paths_self config store hosts weigher src
  by_cases hne : src = dst
  · subst hne
    simp [hself, Increases]
  · have hserved := Graph.served_search (graphOf store hosts weigher) src
    obtain ⟨hroutes, hlength, hincreases⟩ := hserved.listedFrom_sound hne config.maxPaths
    rw [paths_eq_listedFrom config store hosts weigher hne]
    refine ⟨fun p hp => ?_, hlength, hincreases, hself⟩
    exact (hroutes p hp).mono fun l hl => mem_links_topologyGraph_iff.1 hl

end

end HostRouting
