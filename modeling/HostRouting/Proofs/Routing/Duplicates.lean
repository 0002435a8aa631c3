import HostRouting.Proofs.Routing.Candidates
import HostRouting.Proofs.Routing.Completeness
import HostRouting.Proofs.Routing.Multiplicity

/-!
# Paths that are listed more than once

A link is a candidate twice when it is stored and attaches a host as well, or attaches two hosts
(`one_lt_count_candidateLinks_iff`). A path over such a link is listed once for each of the two,
unless the search came to no finite cost at the end of the link. Nothing else repeats a path.

Main fact: `nodup_paths_iff`.
-/

namespace HostRouting

/-! ## Candidates -/

section

variable {links : List Link} {hosts : List Host} {l : Link}

/-- The link is stored and attaches a host as well, or attaches two hosts. -/
inductive Doubled (links : List Link) (hosts : List Host) (l : Link) : Prop
  | stored {h : Host} (hl : l ∈ links) (hactive : l.state = .active) (hh : h ∈ hosts)
      (hattached : l ∈ attachmentLinks h)
  | shared {h h' : Host} (hh : h ∈ hosts) (hh' : h' ∈ hosts) (hne : h.id ≠ h'.id)
      (hattached : l ∈ attachmentLinks h) (hattached' : l ∈ attachmentLinks h')

/-- One host is attached by a link between different elements at most once. -/
theorem count_attachmentLinks_le (h : Host) (hends : l.src.element ≠ l.dst.element) :
    (attachmentLinks h).count l ≤ 1 := by
  unfold attachmentLinks
  split
  next p hp =>
    rw [List.count_cons, List.count_singleton]
    split
    next hback =>
      rw [← beq_iff_eq.1 hback] at hends ⊢
      split
      next hthere =>
        have hsame := congrArg (fun l => l.src.element) (beq_iff_eq.1 hthere)
        exact absurd hsame.symm hends
      next => exact Nat.le_refl 1
    next =>
      split
      · exact Nat.le_refl 1
      · exact Nat.zero_le 1
  next => exact Nat.zero_le 1

/-- A link between different elements attaches hosts more than once iff it attaches two. -/
theorem one_lt_count_attachments_iff (hids : (hosts.map Host.id).Nodup)
    (hends : l.src.element ≠ l.dst.element) :
    1 < (hosts.flatMap attachmentLinks).count l ↔ ∃ h ∈ hosts, ∃ h' ∈ hosts,
      h.id ≠ h'.id ∧ l ∈ attachmentLinks h ∧ l ∈ attachmentLinks h' := by
  induction hosts with
  | nil => simp
  | cons host hosts ih =>
    obtain ⟨hhost, hids⟩ := List.nodup_cons.1 hids
    have hid {h : Host} (hh : h ∈ hosts) : h.id ≠ host.id :=
      fun heq => hhost (heq ▸ List.mem_map_of_mem hh)
    have hrest : l ∈ hosts.flatMap attachmentLinks ↔ ∃ h ∈ hosts, l ∈ attachmentLinks h :=
      List.mem_flatMap
    have hle := count_attachmentLinks_le host hends
    rw [List.flatMap_cons, List.count_append]
    by_cases hl : l ∈ attachmentLinks host
    · have hone := List.count_pos_iff.2 hl
      rw [show (attachmentLinks host).count l = 1 by omega, Nat.lt_add_right_iff_pos,
        List.count_pos_iff, hrest]
      constructor
      · rintro ⟨h, hh, hl'⟩
        exact ⟨host, List.mem_cons_self, h, List.mem_cons_of_mem _ hh, (hid hh).symm, hl, hl'⟩
      · rintro ⟨h, hh, h', hh', hne, hl, hl'⟩
        rcases List.mem_cons.1 hh with rfl | hh
        · rcases List.mem_cons.1 hh' with rfl | hh'
          · exact absurd rfl hne
          · exact ⟨h', hh', hl'⟩
        · exact ⟨h, hh, hl⟩
    · rw [List.count_eq_zero_of_not_mem hl, Nat.zero_add, ih hids]
      constructor
      · rintro ⟨h, hh, h', hh', hpair⟩
        exact ⟨h, List.mem_cons_of_mem _ hh, h', List.mem_cons_of_mem _ hh', hpair⟩
      · rintro ⟨h, hh, h', hh', hne, hattached, hattached'⟩
        refine ⟨h, (List.mem_cons.1 hh).resolve_left ?_, h', (List.mem_cons.1 hh').resolve_left ?_,
          hne, hattached, hattached'⟩
        · rintro rfl
          exact hl hattached
        · rintro rfl
          exact hl hattached'

theorem one_lt_count_candidateLinks_iff (hlinks : links.Nodup) (hids : (hosts.map Host.id).Nodup)
    (hends : l.src.element ≠ l.dst.element) :
    1 < (candidateLinks links hosts).count l ↔ Doubled links hosts l := by
  have hstored := List.nodup_iff_count_le_one.1 (hlinks.filter fun l => l.state = .active) l
  have hattached := one_lt_count_attachments_iff hids hends
  unfold candidateLinks
  rw [List.count_append]
  constructor
  · intro hlt
    by_cases hl : l ∈ links.filter (·.state = .active)
    · have hpos : 0 < (hosts.flatMap attachmentLinks).count l := by omega
      obtain ⟨h, hh, hl'⟩ := List.mem_flatMap.1 (List.count_pos_iff.1 hpos)
      obtain ⟨hl, hactive⟩ := List.mem_filter.1 hl
      exact .stored hl (of_decide_eq_true hactive) hh hl'
    · rw [List.count_eq_zero_of_not_mem hl, Nat.zero_add] at hlt
      obtain ⟨h, hh, h', hh', hne, hl, hl'⟩ := hattached.1 hlt
      exact .shared hh hh' hne hl hl'
  · intro h
    cases h with
    | stored hl hactive hh hl' =>
      have hmem : l ∈ links.filter (·.state = .active) :=
        List.mem_filter.2 ⟨hl, decide_eq_true hactive⟩
      have hpos := List.count_pos_iff.2 hmem
      have hpos' := List.count_pos_iff.2 (List.mem_flatMap.2 ⟨_, hh, hl'⟩)
      omega
    | shared hh hh' hne hl hl' =>
      have hlt := hattached.2 ⟨_, hh, _, hh', hne, hl, hl'⟩
      omega

end

/-! ## Listed paths -/

namespace Search

/-- The search has come to a finite cost at the element. -/
def finiteAt (s : Search Binary64) (e : ElementId) : Bool := (s.costs.get? e).any Binary64.isFinite

theorem steady_eq_finiteAt (s : Search Binary64) (e : ElementId) : s.steady e = s.finiteAt e := by
  unfold steady finiteAt
  congr 1
  funext known
  rw [Bool.eq_iff_iff]
  exact Binary64.ties_self_iff

end Search

/-- As how many links a candidate counts at the end of a search. -/
def copies (links : List Link) (hosts : List Host) (s : Search Binary64) (l : Link) : Nat :=
  if s.finiteAt l.dst.element then (candidateLinks links hosts).count l else 1

theorem provider_of_mem_listedFrom {g : Graph Binary64} {s : Search Binary64} {maxPaths : Nat}
    {src dst : ElementId} {p : Path} (h : p ∈ listedFrom g s maxPaths src dst) :
    p.provider = .core := by
  unfold listedFrom at h
  split at h
  next =>
    obtain ⟨route, -, hp⟩ := List.mem_filterMap.1 h
    exact (Path.ofLinks_eq_some_iff.1 hp).1
  next => exact absurd h List.not_mem_nil

/-- Listed paths with the same links are the same. -/
theorem eq_of_mem_listedFrom {g : Graph Binary64} {s : Search Binary64} {maxPaths : Nat}
    {src dst : ElementId} {p q : Path} (hp : p ∈ listedFrom g s maxPaths src dst)
    (hq : q ∈ listedFrom g s maxPaths src dst) (hlinks : p.links = q.links) : p = q := by
  have hprovider : p.provider = q.provider :=
    (provider_of_mem_listedFrom hp).trans (provider_of_mem_listedFrom hq).symm
  have hcost : p.cost = q.cost := Option.some.inj
    ((cost_of_mem_listedFrom hp).symm.trans (cost_of_mem_listedFrom hq))
  cases p
  cases q
  cases hprovider
  cases hcost
  cases hlinks
  rfl

theorem ordered_topologyGraph (links : List Link) (hosts : List Host) (weigher : Weigher) :
    (topologyGraph links hosts weigher).Ordered := Graph.ordered_ofCandidates _ _

theorem count_topologyGraph {links : List Link} {hosts : List Host} {weigher : Weigher} {l : Link}
    (hl : l ∈ (topologyGraph links hosts weigher).edges.map Edge.link) :
    ((topologyGraph links hosts weigher).edges.map Edge.link).count l =
      (candidateLinks links hosts).count l := Graph.count_ofCandidates hl

/-- Where its links lead to different elements, a route has one choice iff no doubled link leads to
an element at a finite cost. -/
theorem prod_copies_eq_one_iff {links : List Link} {hosts : List Host} {s : Search Binary64}
    {route : List Link} (hlinks : links.Nodup) (hids : (hosts.map Host.id).Nodup)
    (hroute : ∀ l ∈ route, Usable links hosts l ∧ l.src.element ≠ l.dst.element) :
    (route.map (copies links hosts s)).prod = 1 ↔
      ∀ l ∈ route, Doubled links hosts l → s.finiteAt l.dst.element = false := by
  have hcopies : ∀ l ∈ route, copies links hosts s l = 1 ↔
      (Doubled links hosts l → s.finiteAt l.dst.element = false) := by
    intro l hl
    obtain ⟨husable, hends⟩ := hroute l hl
    have hpos := List.count_pos_iff.2 (mem_candidateLinks_iff.2 husable)
    rw [← one_lt_count_candidateLinks_iff hlinks hids hends]
    unfold copies
    cases s.finiteAt l.dst.element with
    | false => simp
    | true =>
      rw [if_pos rfl]
      constructor
      · intro hone hlt
        omega
      · intro hle
        by_contra hne
        exact nomatch hle (by omega)
  constructor
  · intro hprod l hl
    have hdvd := List.dvd_prod (List.mem_map_of_mem (f := copies links hosts s) hl)
    rw [hprod] at hdvd
    exact (hcopies l hl).1 (Nat.dvd_one.1 hdvd)
  · intro h
    refine List.prod_eq_one fun n hn => ?_
    obtain ⟨l, hl, rfl⟩ := List.mem_map.1 hn
    exact (hcopies l hl).2 (h l hl)

section

variable {σ : Type} [LinkStore σ] (config : PlannerConfig) (store : σ) (hosts : HostDirectory)
  (weigher : Weigher) (src dst : ElementId)

theorem nodup_paths_iff_links :
    ((topologyPaths config).paths store hosts weigher src dst).Nodup ↔
      (((topologyPaths config).paths store hosts weigher src dst).map Path.links).Nodup := by
  refine ⟨fun h => (List.nodup_map_iff_inj_on h).2 fun p hp q hq => ?_, List.Nodup.of_map _⟩
  by_cases hne : src = dst
  · subst hne
    rw [paths_self] at hp
    exact absurd hp List.not_mem_nil
  · rw [paths_eq_listedFrom config store hosts weigher hne] at hp hq
    exact eq_of_mem_listedFrom hp hq

variable {src dst}

/-- A path is listed at most once for each choice of copies of its links, and exactly that many
times when the list is not full. -/
theorem count_links_paths (hne : src ≠ dst) {p : Path}
    (hp : p ∈ (topologyPaths config).paths store hosts weigher src dst) :
    let s := (graphOf store hosts weigher).search src
    let paths := (topologyPaths config).paths store hosts weigher src dst
    let times := (p.links.map (copies (LinkStore.links store) hosts.hosts s)).prod
    (paths.map Path.links).count p.links ≤ times ∧
      (paths.length < config.maxPaths → (paths.map Path.links).count p.links = times) := by
  intro s paths times
  have hserved : Search.Served (graphOf store hosts weigher) src s := Graph.served_search _ src
  have hlinks : paths.map Path.links =
      sorted (((graphOf store hosts weigher).allRoutes s src dst).take config.maxPaths) :=
    links_paths config store hosts weigher hne
  have hroute : p.links ∈ (graphOf store hosts weigher).allRoutes s src dst := by
    have hmem : p.links ∈ paths.map Path.links := List.mem_map_of_mem hp
    rw [hlinks] at hmem
    exact List.mem_of_mem_take (mem_sortedOn.1 hmem)
  have htimes : ((graphOf store hosts weigher).allRoutes s src dst).count p.links = times := by
    rw [hserved.count_allRoutes (ordered_topologyGraph _ _ _) hroute]
    congr 1
    refine List.map_congr_left fun l hl => ?_
    unfold copies
    rw [Search.steady_eq_finiteAt, count_topologyGraph ((hserved.isRoute hroute).permits l hl)]
  have hcount : (paths.map Path.links).count p.links =
      (((graphOf store hosts weigher).allRoutes s src dst).take config.maxPaths).count p.links := by
    rw [hlinks]
    exact (perm_sortedOn id _).count_eq p.links
  refine ⟨?_, fun hlength => ?_⟩
  · rw [hcount, ← htimes]
    exact (List.take_sublist _ _).count_le _
  · have hall : paths.length =
        min config.maxPaths ((graphOf store hosts weigher).allRoutes s src dst).length := by
      rw [← List.length_map Path.links, hlinks, sorted, length_sortedOn, List.length_take]
    rw [hcount, ← htimes, List.take_of_length_le (by omega)]

variable (src dst)

/-- A path is listed no more often than there are choices of copies of its links, and as often when
fewer paths are listed than asked for. So paths repeat only over doubled links, and when fewer are
listed than asked for they repeat iff one leads over a doubled link to an element at a finite
cost. -/
theorem nodup_paths_iff [LawfulLinkStore σ] :
    let links := LinkStore.links store
    let s := (graphOf store hosts weigher).search src
    let paths := (topologyPaths config).paths store hosts weigher src dst
    let times (p : Path) := (p.links.map (copies links hosts.hosts s)).prod
    (∀ p ∈ paths, (paths.map Path.links).count p.links ≤ times p) ∧
      ((∀ p ∈ paths, ∀ l ∈ p.links, ¬Doubled links hosts.hosts l) → paths.Nodup) ∧
      (paths.length < config.maxPaths →
        (∀ p ∈ paths, (paths.map Path.links).count p.links = times p) ∧
          (paths.Nodup ↔ ∀ p ∈ paths, ∀ l ∈ p.links,
            Doubled links hosts.hosts l → s.finiteAt l.dst.element = false)) := by
  intro links s paths times
  by_cases hne : src = dst
  · subst hne
    have hself : paths = [] := paths_self config store hosts weigher src
    simp [hself]
  have hcount : ∀ p ∈ paths, (paths.map Path.links).count p.links ≤ times p ∧
      (paths.length < config.maxPaths → (paths.map Path.links).count p.links = times p) :=
    fun p hp => count_links_paths config store hosts weigher hne hp
  have honce : (∀ p ∈ paths, (paths.map Path.links).count p.links ≤ 1) → paths.Nodup := by
    intro hle
    rw [nodup_paths_iff_links, List.nodup_iff_count_le_one]
    intro route
    by_cases hroute : route ∈ paths.map Path.links
    · obtain ⟨p, hp, rfl⟩ := List.mem_map.1 hroute
      exact hle p hp
    · rw [List.count_eq_zero_of_not_mem hroute]
      exact Nat.zero_le 1
  have htimes : ∀ p ∈ paths, times p = 1 ↔ ∀ l ∈ p.links,
      Doubled links hosts.hosts l → s.finiteAt l.dst.element = false := by
    intro p hp
    have hroute := isRoute_of_mem_cheapestPaths hp
    exact prod_copies_eq_one_iff (LawfulLinkStore.nodup_links store) hosts.nodup_ids fun l hl =>
      ⟨(hroute.permits l hl).1, hroute.walk.ends_ne hroute.simple l hl⟩
  refine ⟨fun p hp => (hcount p hp).1, fun hclear => honce fun p hp => ?_,
    fun hlength => ⟨fun p hp => (hcount p hp).2 hlength, fun hnodup p hp => ?_,
      fun hinfinite => honce fun p hp => ?_⟩⟩
  · rw [← (htimes p hp).2 fun l hl hdoubled => absurd hdoubled (hclear p hp l hl)]
    exact (hcount p hp).1
  · rw [← htimes p hp, ← (hcount p hp).2 hlength]
    exact List.count_eq_one_of_mem ((nodup_paths_iff_links ..).1 hnodup) (List.mem_map_of_mem hp)
  · rw [← (htimes p hp).2 (hinfinite p hp)]
    exact (hcount p hp).1

end

/-! ## A host whose link is stored -/

namespace Row

/-- The link by which the first host enters the network. -/
def entry : Link := .between (.ofHost one) (port "s1" 9) .edge

/-- The entry of the first host, and two links from the first device to the second. -/
def recorded : LinkTable :=
  ((LinkTable.empty.insert entry).insert (.between (port "s1" 3) (port "s2" 3) .direct)).insert
    (.between (port "s1" 4) (port "s2" 4) .direct)

/-- A host at each of the two devices. -/
def neighbours : HostDirectory :=
  (HostDirectory.empty.add ((Host.named one ⟨#v[0, 0, 0, 0, 0, 3]⟩).locatedAt (port "s1" 9))).add
    ((Host.named two ⟨#v[0, 0, 0, 0, 0, 4]⟩).locatedAt (port "s2" 9))

/-- The weigher of no constraints. -/
def hop : Weigher := (Context.ofStores recorded Ledger.empty).weigher []

/-- The way from host to host by the link at the given port. -/
def across (number : UInt64) : List Link :=
  [entry, .between (port "s1" number) (port "s2" number) .direct,
    .between (port "s2" 9) (.ofHost two) .edge]

end Row

theorem nodup_paths_iff_recorded :
    let paths := (topologyPaths .default).paths Row.recorded Row.neighbours Row.hop (.host Row.one)
      (.host Row.two)
    paths.map Path.links = [Row.across 3, Row.across 3, Row.across 4, Row.across 4] ∧
      ∀ p ∈ paths, (paths.map Path.links).count p.links = 2 := by
  intro paths
  have hlinks : paths.map Path.links =
      [Row.across 3, Row.across 3, Row.across 4, Row.across 4] := by decide +kernel
  have hlength : paths.length < PlannerConfig.default.maxPaths := by
    rw [← List.length_map Path.links, hlinks]
    decide
  have hcopies : ∀ route ∈ [Row.across 3, Row.across 3, Row.across 4, Row.across 4],
      (route.map (copies Row.recorded.links Row.neighbours.hosts
        ((graphOf Row.recorded Row.neighbours Row.hop).search (.host Row.one)))).prod = 2 := by
    decide +kernel
  obtain ⟨-, -, hexact⟩ := nodup_paths_iff .default Row.recorded Row.neighbours Row.hop
    (.host Row.one) (.host Row.two)
  refine ⟨hlinks, fun p hp => ?_⟩
  have hroute : p.links ∈ paths.map Path.links := List.mem_map_of_mem hp
  rw [(hexact hlength).1 p hp]
  exact hcopies p.links (hlinks ▸ hroute)

/-- Asked for two paths, the service lists one of them twice and the other not at all. -/
theorem paths_listed_twice :
    let paths := (topologyPaths ⟨2⟩).paths Row.recorded Row.neighbours Row.hop (.host Row.one)
      (.host Row.two)
    paths.map Path.links = [Row.across 3, Row.across 3] ∧ ¬paths.Nodup := by
  intro paths
  have hlinks : paths.map Path.links = [Row.across 3, Row.across 3] := by decide +kernel
  refine ⟨hlinks, fun hnodup => ?_⟩
  rw [nodup_paths_iff_links, show _ = _ from hlinks] at hnodup
  exact absurd hnodup (by decide +kernel)

end HostRouting
