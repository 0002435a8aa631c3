import HostRouting.Proofs.Binary64.Whole
import HostRouting.Proofs.Routing.Arrivals
import HostRouting.Proofs.Routing.Candidates
import HostRouting.Proofs.Routing.Completeness
import Mathlib.Data.List.Induction

/-!
# Cheapest routes

Where ranks count lengths up to a limit (`Graph.Exact`) and no route is as long as the limit:

1. along a walk the rank grows by at most the total length, and by just that when the walk is over
   links by which elements were reached (`Graph.Exact.rankAt_walk`, `Graph.Exact.arrives_iff`);
2. some route is as long as the rank of its end, so this is the least total, and the routes that
   are read backwards are the cheapest ones (`Graph.Exact.mem_allRoutes_iff`).

Weights that are whole numbers have such a rank (`Graph.exact_of_whole`): then the path service
lists cheapest routes only, each at its total, and as many as there are or as were asked for
(`paths_exact`).
-/

namespace HostRouting

/-! ## Totals -/

section

variable {permitted : Link → Prop} {length : Link → Nat} {src dst : ElementId}
  {links links' : List Link}

/-- How long a walk is. -/
def total (length : Link → Nat) : List Link → Nat
  | [] => 0
  | l :: links => length l + total length links

theorem total_append :
    total length (links ++ links') = total length links + total length links' := by
  induction links with
  | nil => exact (Nat.zero_add _).symm
  | cons l links ih =>
    rw [List.cons_append, total, total, ih, Nat.add_assoc]

theorem total_one (links : List Link) : total (fun _ => 1) links = links.length := by
  induction links with
  | nil => rfl
  | cons l links ih => rw [total, ih, List.length_cons, Nat.add_comm]

theorem total_le_of_sublist (h : links.Sublist links') :
    total length links ≤ total length links' := by
  induction h with
  | slnil => exact Nat.le_refl _
  | cons _ _ ih => exact Nat.le_trans ih (Nat.le_add_left _ _)
  | cons_cons _ _ ih => exact Nat.add_le_add_left ih _

/-- A route with the least total. -/
structure IsCheapest (permitted : Link → Prop) (length : Link → Nat) (src dst : ElementId)
    (links : List Link) : Prop extends IsRoute permitted src dst links where
  least : ∀ other, IsRoute permitted src dst other → total length links ≤ total length other

end

/-! ## Ranks along walks -/

namespace Graph.Exact

section

variable {κ : Type} [PathCost κ] {g : Graph κ} {src dst e : ElementId} {rank : κ → Nat}
  {limit : Nat} {length : Link → Nat} {links route : List Link}

theorem rankAt_walk (hexact : g.Exact src rank limit length) (hwalk : IsWalk e links dst)
    (hlinks : ∀ l ∈ links, l ∈ g.edges.map Edge.link ∧ MayLeave src l.src.element)
    (he : ((g.search src).costs.get? e).isSome) :
    ((g.search src).costs.get? dst).isSome ∧
      (g.search src).rankAt rank dst ≤ (g.search src).rankAt rank e + total length links := by
  induction links generalizing e with
  | nil =>
    obtain rfl : e = dst := hwalk
    exact ⟨he, Nat.le_add_right _ _⟩
  | cons l links ih =>
    obtain ⟨rfl, hwalk⟩ := hwalk
    obtain ⟨hl, hleave⟩ := hlinks l List.mem_cons_self
    obtain ⟨edge, hedge, rfl⟩ := List.mem_map.1 hl
    have hnext := (g.served_search src).sound.doneKnown edge
      (mem_edgesServed_search_iff.2 ⟨hedge, hleave, he⟩)
    obtain ⟨hdst, hle⟩ := ih hwalk (fun l hl => hlinks l (List.mem_cons_of_mem _ hl)) hnext
    have hstep := hexact.rankAt_le hedge hleave he
    refine ⟨hdst, ?_⟩
    simp only [total] at hle ⊢
    omega

/-- A walk to an element below the limit is over links by which elements were reached exactly when
it is as long as the rank of the element. -/
theorem arrives_iff (hexact : g.Exact src rank limit length) (hwalk : IsWalk src links e)
    (he : (g.search src).rankAt rank e < limit) :
    (∀ l ∈ links, l ∈ (g.search src).arrivalsAt l.dst.element) ↔
      (∀ l ∈ links, l ∈ g.edges.map Edge.link ∧ MayLeave src l.src.element) ∧
        total length links = (g.search src).rankAt rank e := by
  -- From the end, where the rank is known to be below the limit, to the source.
  induction links using List.reverseRecOn generalizing e with
  | nil =>
    obtain rfl : src = e := hwalk
    simp [total, hexact.tight.source]
  | append_singleton init l ih =>
    obtain ⟨previous, hinit, hlast⟩ := IsWalk.append_iff.1 hwalk
    obtain ⟨rfl, rfl⟩ : l.src.element = previous ∧ l.dst.element = e := hlast
    rw [List.forall_mem_append, List.forall_mem_append, List.forall_mem_singleton,
      List.forall_mem_singleton, hexact.mem_arrivalsAt_iff he, total_append,
      show total length [l] = length l from Nat.add_zero _]
    constructor
    · rintro ⟨hall, ⟨hl, hleave, -⟩, -, hat⟩
      obtain ⟨hlinks, htotal⟩ := (ih hinit (by omega)).1 hall
      exact ⟨⟨hlinks, hl, hleave⟩, by omega⟩
    · rintro ⟨⟨hlinks, hl, hleave⟩, htotal⟩
      obtain ⟨hknown, hle⟩ := hexact.rankAt_walk hinit hlinks (g.served_search src).sound.source
      rw [hexact.tight.source] at hle
      obtain ⟨edge, hedge, rfl⟩ := List.mem_map.1 hl
      have hstep := hexact.rankAt_le hedge hleave hknown
      exact ⟨(ih hinit (by omega)).2 ⟨hlinks, by omega⟩, ⟨hl, hleave, hknown⟩, rfl, by omega⟩

/-! ## The least total -/

/-- Some route is no longer than the rank of its end. -/
theorem exists_route (hexact : g.Exact src rank limit length)
    (hknown : ((g.search src).costs.get? dst).isSome) :
    ∃ route, IsRoute (· ∈ g.edges.map Edge.link) src dst route ∧
      min (total length route) limit ≤ (g.search src).rankAt rank dst := by
  obtain ⟨cost, hcost⟩ := Option.isSome_iff_exists.1 hknown
  rw [Search.rankAt_of_cost hcost]
  obtain ⟨links, hpassage, hle⟩ := ((g.served_search src).sound.arrives hcost).exists_passage
    (P := fun links cost => min (total length links) limit ≤ rank cost)
    (fun _ => by simp [total]) (fun {links cost edge} harrives hedge hle => by
      rw [hexact.add harrives hedge, total_append,
        show total length [edge.link] = length edge.link from Nat.add_zero _]
      omega)
  obtain ⟨route, hsub, hroute⟩ := hpassage.exists_route
  have hshort : total length route ≤ total length links := total_le_of_sublist hsub
  exact ⟨route, hroute, by omega⟩

theorem rankAt_le_total (hexact : g.Exact src rank limit length)
    (hroute : IsRoute (· ∈ g.edges.map Edge.link) src dst route) :
    ((g.search src).costs.get? dst).isSome ∧
      (g.search src).rankAt rank dst ≤ total length route := by
  have h := hexact.rankAt_walk hroute.walk
    (fun l hl => ⟨hroute.permits l hl, hroute.mayLeave l hl⟩) (g.served_search src).sound.source
  rwa [hexact.tight.source, Nat.zero_add] at h

/-- The cheapest routes are those as long as the rank of their end. -/
theorem isCheapest_iff (hexact : g.Exact src rank limit length)
    (hsmall : ∀ route, IsRoute (· ∈ g.edges.map Edge.link) src dst route →
      total length route < limit) :
    IsCheapest (· ∈ g.edges.map Edge.link) length src dst route ↔
      IsRoute (· ∈ g.edges.map Edge.link) src dst route ∧
        total length route = (g.search src).rankAt rank dst := by
  constructor
  · intro h
    obtain ⟨hknown, hle⟩ := hexact.rankAt_le_total h.toIsRoute
    obtain ⟨best, hbest, hleast⟩ := hexact.exists_route hknown
    have hlt := hsmall best hbest
    have := h.least best hbest
    exact ⟨h.toIsRoute, by omega⟩
  · rintro ⟨hroute, htotal⟩
    refine ⟨hroute, fun other hother => ?_⟩
    rw [htotal]
    exact (hexact.rankAt_le_total hother).2

/-- The routes that are read backwards are the cheapest ones. -/
theorem mem_allRoutes_iff (hexact : g.Exact src rank limit length)
    (hsmall : ∀ route, IsRoute (· ∈ g.edges.map Edge.link) src dst route →
      total length route < limit) :
    route ∈ g.allRoutes (g.search src) src dst ↔
      IsCheapest (· ∈ g.edges.map Edge.link) length src dst route := by
  have hserved := g.served_search src
  rw [hexact.isCheapest_iff hsmall]
  have hbelow : IsRoute (· ∈ g.edges.map Edge.link) src dst route →
      (g.search src).rankAt rank dst < limit := fun h =>
    Nat.lt_of_le_of_lt (hexact.rankAt_le_total h).2 (hsmall route h)
  constructor
  · intro h
    have hroute := hserved.isRoute h
    obtain ⟨hwalk, harrives, -⟩ := hserved.mem_allRoutes_iff.1 h
    exact ⟨hroute, ((hexact.arrives_iff hwalk (hbelow hroute)).1 harrives).2⟩
  · rintro ⟨hroute, htotal⟩
    refine hserved.mem_allRoutes_iff.2 ⟨hroute.walk, ?_, hroute.simple⟩
    exact (hexact.arrives_iff hroute.walk (hbelow hroute)).2
      ⟨fun l hl => ⟨hroute.permits l hl, hroute.mayLeave l hl⟩, htotal⟩

theorem allRoutes_eq_nil_iff (hexact : g.Exact src rank limit length)
    (hsmall : ∀ route, IsRoute (· ∈ g.edges.map Edge.link) src dst route →
      total length route < limit) :
    g.allRoutes (g.search src) src dst = [] ↔
      ¬∃ route, IsRoute (· ∈ g.edges.map Edge.link) src dst route := by
  constructor
  · rintro hnil ⟨route, hroute⟩
    obtain ⟨hknown, hle⟩ := hexact.rankAt_le_total hroute
    obtain ⟨best, hbest, hleast⟩ := hexact.exists_route hknown
    have hlt := hsmall best hbest
    have hge := (hexact.rankAt_le_total hbest).2
    have hmem := (hexact.mem_allRoutes_iff hsmall).2
      ((hexact.isCheapest_iff hsmall).2 ⟨hbest, by omega⟩)
    rw [hnil] at hmem
    exact List.not_mem_nil hmem
  · intro hnone
    refine List.eq_nil_iff_forall_not_mem.2 fun route hroute => ?_
    exact hnone ⟨route, (g.served_search src).isRoute hroute⟩

end

end Graph.Exact

/-! ## Whole numbers -/

section

variable {g : Graph Binary64} {src dst e : ElementId} {length : Link → Nat} {cost : Binary64}

/-- Costs of walks hold whole numbers. -/
theorem Graph.Arrives.holds (hwhole : ∀ edge ∈ g.edges, edge.weight.IsWhole (length edge.link))
    (h : g.Arrives src e cost) : ∃ n, cost.Holds n := by
  induction h with
  | start => exact ⟨0, Binary64.holds_zero⟩
  | step _ _ hedge ih =>
    obtain ⟨n, hn⟩ := ih
    exact ⟨_, hn.add (hwhole _ hedge).holds⟩

/-- The values of costs count lengths. -/
theorem Graph.exact_of_whole
    (hwhole : ∀ edge ∈ g.edges, edge.weight.IsWhole (length edge.link)) :
    g.Exact src Binary64.wholeRank Binary64.wholeLimit length := by
  have horder : ∀ {e e' a b}, g.Arrives src e a → g.Arrives src e' b →
      PathCost.order a b = compare a.level b.level := by
    intro e e' a b ha hb
    obtain ⟨n, hn⟩ := ha.holds hwhole
    obtain ⟨k, hk⟩ := hb.holds hwhole
    exact Binary64.order_eq hn.nonneg hk.nonneg
  have hadd : ∀ {cost edge}, g.Arrives src edge.link.src.element cost → edge ∈ g.edges →
      (PathCost.add cost edge.weight).wholeRank =
        min (cost.wholeRank + length edge.link) Binary64.wholeLimit := by
    intro cost edge hcost hedge
    obtain ⟨n, hn⟩ := hcost.holds hwhole
    exact hn.wholeRank_add (hwhole edge hedge).holds
  have hexceeds : ∀ {e cost known}, g.Arrives src e cost → g.Arrives src e known →
      cost.wholeRank < Binary64.wholeLimit ∨ known.wholeRank < Binary64.wholeLimit →
      (PathCost.exceeds cost known = true ↔ known.wholeRank < cost.wholeRank) := by
    intro e cost known hcost hknown hlt
    obtain ⟨n, hn⟩ := hcost.holds hwhole
    obtain ⟨k, hk⟩ := hknown.holds hwhole
    exact hn.exceeds_iff_wholeRank hk hlt
  refine { le_of_order := ?le, ge_of_order := ?ge, grows := ?grows, replaces := ?replaces,
           zero := Binary64.holds_zero.wholeRank_eq.trans (Nat.zero_min _)
           add := hadd, exceeds_iff := hexceeds, ties_iff := ?ties }
  case le =>
    intro e e' a b ha hb hnot
    rw [horder ha hb, Nat.compare_ne_gt] at hnot
    exact Binary64.wholeRank_mono hnot
  case ge =>
    intro e e' a b ha hb hnot
    rw [horder ha hb, Nat.compare_ne_lt] at hnot
    exact Binary64.wholeRank_mono hnot
  case grows =>
    intro cost edge hcost hedge
    rw [hadd hcost hedge]
    exact Nat.le_min.2 ⟨Nat.le_add_right _ _, cost.wholeRank_le⟩
  case replaces =>
    intro e cost known hcost hknown hnot _
    by_cases hlt : known.wholeRank < Binary64.wholeLimit
    · exact Nat.le_of_not_lt fun hgt => hnot ((hexceeds hcost hknown (.inr hlt)).2 hgt)
    · exact Nat.le_trans cost.wholeRank_le (Nat.le_of_not_lt hlt)
  case ties =>
    intro e cost known hcost hknown hlt
    obtain ⟨n, hn⟩ := hcost.holds hwhole
    obtain ⟨k, hk⟩ := hknown.holds hwhole
    exact hn.ties_iff_wholeRank hk hlt

/-- The cost of a destination is the total of a cheapest route. -/
theorem Graph.isWhole_cost (hwhole : ∀ edge ∈ g.edges, edge.weight.IsWhole (length edge.link))
    {dst : ElementId} (hcost : (g.search src).costs.get? dst = some cost) {n : Nat}
    (hn : n < Binary64.wholeLimit)
    (hrank : n = (g.search src).rankAt Binary64.wholeRank dst) : cost.IsWhole n := by
  obtain ⟨k, hk⟩ := ((g.served_search src).sound.arrives hcost).holds hwhole
  rw [Search.rankAt_of_cost hcost, hk.wholeRank_eq] at hrank
  obtain rfl : n = k := by omega
  exact hk.isWhole hn

end

/-! ## Paths -/

section

variable {σ : Type} [LinkStore σ] [LawfulLinkStore σ] (config : PlannerConfig) (store : σ)
  (hosts : HostDirectory) (weigher : Weigher) {src dst : ElementId} {length : Link → Nat}

/-- No route is read twice. -/
theorem nodup_allRoutes (hlocated : OnDevices hosts.hosts)
    (hapart : Apart (LinkStore.links store) hosts.hosts) (src dst : ElementId) :
    ((graphOf store hosts weigher).allRoutes
      ((graphOf store hosts weigher).search src) src dst).Nodup := by
  have hcandidates := nodup_candidateLinks (LawfulLinkStore.nodup_links store) hosts.nodup_ids
    hlocated hapart
  exact Search.nodup_chains (Graph.nodup_arrivalsAt (Graph.nodup_links_ofCandidates hcandidates))
    _ _ _

/-- Between different elements the path service lists cheapest routes, in the order of their links
and each at its total, none twice and none left out before there are as many as asked for. Weights
are whole numbers, zero allowed, and no route is as long as `2 ^ 53`. As between two points there is
one link, a store lists none twice; hosts are located on devices, and no stored link stands for the
attachment of a host. -/
theorem paths_exact (hne : src ≠ dst)
    (hwhole : ∀ l w, Usable (LinkStore.links store) hosts.hosts l → weigher l = .scalar w →
      w.IsWhole (length l))
    (hlocated : OnDevices hosts.hosts) (hapart : Apart (LinkStore.links store) hosts.hosts)
    (hsmall : ∀ route,
      IsRoute (Admitted (LinkStore.links store) hosts.hosts weigher) src dst route →
      total length route < 2 ^ 53) :
    let permitted := Admitted (LinkStore.links store) hosts.hosts weigher
    let paths := (topologyPaths config).paths store hosts weigher src dst
    ∃ cheapest : List (List Link), cheapest.Nodup ∧
      (∀ route, route ∈ cheapest ↔ IsCheapest permitted length src dst route) ∧
      (paths = [] ↔ config.maxPaths = 0 ∨ ¬∃ route, IsRoute permitted src dst route) ∧
      (∀ p ∈ paths, p.links ∈ cheapest ∧ p.cost.IsWhole (total length p.links)) ∧
      paths.length = min config.maxPaths cheapest.length ∧
      (cheapest.length ≤ config.maxPaths → ∀ route ∈ cheapest, ∃ p ∈ paths, p.links = route) ∧
      paths.Pairwise fun p q => compare p.links q.links = .lt := by
  intro permitted paths
  let g := graphOf store hosts weigher
  have hadmitted : (· ∈ g.edges.map Edge.link) = permitted :=
    funext fun l => propext mem_links_topologyGraph_iff
  have hedges : ∀ edge ∈ g.edges, edge.weight.IsWhole (length edge.link) := by
    intro edge hedge
    obtain ⟨husable, hw⟩ := mem_topologyGraph_iff.1 hedge
    exact hwhole _ _ husable hw
  have hexact : g.Exact src Binary64.wholeRank Binary64.wholeLimit length :=
    Graph.exact_of_whole hedges
  have hsmall' : ∀ route, IsRoute (· ∈ g.edges.map Edge.link) src dst route →
      total length route < Binary64.wholeLimit := by
    rw [hadmitted]
    exact hsmall
  have hcheapest : ∀ route, route ∈ g.allRoutes (g.search src) src dst ↔
      IsCheapest permitted length src dst route := by
    rw [← hadmitted]
    exact fun route => hexact.mem_allRoutes_iff hsmall'
  have hnone : g.allRoutes (g.search src) src dst = [] ↔
      ¬∃ route, IsRoute permitted src dst route := by
    rw [← hadmitted]
    exact hexact.allRoutes_eq_nil_iff hsmall'
  have hnodup := nodup_allRoutes store hosts weigher hlocated hapart src dst
  have hlinks : paths.map Path.links =
      sorted ((g.allRoutes (g.search src) src dst).take config.maxPaths) :=
    links_paths config store hosts weigher hne
  have hlength : paths.length =
      min config.maxPaths (g.allRoutes (g.search src) src dst).length := by
    rw [← List.length_map Path.links, hlinks, sorted, length_sortedOn, List.length_take]
  have hlisted : ∀ p ∈ paths, p.links ∈ g.allRoutes (g.search src) src dst := by
    intro p hp
    have hroute := List.mem_map_of_mem (f := Path.links) hp
    rw [hlinks] at hroute
    exact List.mem_of_mem_take (mem_sortedOn.1 hroute)
  refine ⟨g.allRoutes (g.search src) src dst, hnodup, hcheapest, ?_,
    fun p hp => ⟨hlisted p hp, ?_⟩, hlength, fun hle route hroute => ?_, ?_⟩
  · rw [← hnone, ← List.length_eq_zero_iff, hlength, ← List.length_eq_zero_iff]
    omega
  · obtain ⟨hroute, htotal⟩ := (hexact.isCheapest_iff hsmall').1
      ((hexact.mem_allRoutes_iff hsmall').1 (hlisted p hp))
    rw [show paths = _ from paths_eq_listedFrom config store hosts weigher hne] at hp
    exact Graph.isWhole_cost hedges (cost_of_mem_listedFrom hp) (hsmall' _ hroute) htotal
  · rw [List.take_of_length_le hle] at hlinks
    refine List.mem_map.1 ?_
    rw [hlinks]
    exact mem_sortedOn.2 hroute
  · have hstrict := pairwise_lt_sorted (hnodup.sublist (List.take_sublist config.maxPaths _))
    rw [← hlinks] at hstrict
    exact List.pairwise_map.1 hstrict

end

/-- The row with a second cable between the first two devices. -/
def Row.doubled : LinkTable :=
  (Row.cable (Row.port "s1" 3) (Row.port "s2" 3)).foldl LinkTable.insert Row.links

/-- Of the two cheapest ways between the hosts one is listed when one is asked for. -/
theorem paths_exact_doubled :
    let permitted := Admitted Row.doubled.links Row.hosts.hosts hopCount
    let paths := (topologyPaths ⟨1⟩).paths Row.doubled Row.hosts hopCount (.host Row.one)
      (.host Row.two)
    ElementId.host Row.one ≠ .host Row.two ∧
      (∀ l w, Usable Row.doubled.links Row.hosts.hosts l → hopCount l = .scalar w →
        w.IsWhole 1) ∧
      OnDevices Row.hosts.hosts ∧ Apart Row.doubled.links Row.hosts.hosts ∧
      (∀ route, IsRoute permitted (.host Row.one) (.host Row.two) route →
        total (fun _ => 1) route < 2 ^ 53) ∧
      paths.length = 1 ∧ ∀ p ∈ paths,
        IsCheapest permitted (fun _ => 1) (.host Row.one) (.host Row.two) p.links ∧
          p.cost.IsWhole (total (fun _ => 1) p.links) := by
  intro permitted paths
  have hne : ElementId.host Row.one ≠ .host Row.two := by decide
  have hwhole : ∀ l w, Usable Row.doubled.links Row.hosts.hosts l → hopCount l = .scalar w →
      w.IsWhole 1 := by
    intro l w _ hw
    rw [← Weight.scalar.inj hw]
    show hopWeight.units? = _
    decide +kernel
  have hlocated : OnDevices Row.hosts.hosts := by decide +kernel
  have hapart : Apart Row.doubled.links Row.hosts.hosts := by decide +kernel
  have hsmall : ∀ route, IsRoute permitted (.host Row.one) (.host Row.two) route →
      total (fun _ => 1) route < 2 ^ 53 := by
    intro route hroute
    have hsub : route ⊆ candidateLinks Row.doubled.links Row.hosts.hosts :=
      fun l hl => mem_candidateLinks_iff.2 (hroute.permits l hl).1
    have hcandidates : (candidateLinks Row.doubled.links Row.hosts.hosts).length = 10 := by
      decide +kernel
    have hlength := (List.subperm_of_subset
      (List.Nodup.of_map _ hroute.nodup_sources) hsub).length_le
    rw [total_one]
    omega
  have hway : IsRoute permitted (.host Row.one) (.host Row.two) Row.way := by
    refine IsRoute.of_walk (by decide +kernel) (by decide +kernel) fun l hl => ?_
    have hl' : ∀ l ∈ Row.way, l ∈ candidateLinks Row.doubled.links Row.hosts.hosts ∧
        MayLeave (.host Row.one) l.src.element := by decide +kernel
    exact ⟨⟨mem_candidateLinks_iff.1 (hl' l hl).1, hopWeight, rfl⟩, (hl' l hl).2⟩
  obtain ⟨cheapest, -, hcheapest, hnil, hlisted, hlength, -⟩ :=
    paths_exact ⟨1⟩ Row.doubled Row.hosts hopCount hne hwhole hlocated hapart hsmall
  refine ⟨hne, hwhole, hlocated, hapart, hsmall, ?_, fun p hp => ?_⟩
  · have hsome : paths ≠ [] := fun h => (hnil.1 h).elim (by decide) fun hno => hno ⟨_, hway⟩
    have hpos := List.length_pos_iff.2 hsome
    replace hlength : paths.length = min 1 cheapest.length := hlength
    omega
  · exact ⟨(hcheapest _).1 (hlisted p hp).1, (hlisted p hp).2⟩

end HostRouting
