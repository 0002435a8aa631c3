import HostRouting.LinkStore.Table
import HostRouting.Proofs.Routing.Disjointness

/-!
# Hosts attached once

The paths of a pair have no link in common, so there is no pair where every route takes one and the
same link (`disjointPaths_eq_nil_of_taken`). A host that is the end of no stored link, and at which
no other host is located, has two usable links at most: the one from it and the one to it that
attach it at its first location. A route from the host begins with the one and a route to it ends
with the other.

Main fact: `disjointPaths_eq_nil_of_attachedOnce`.
-/

namespace HostRouting

/-! ## The links at the ends of a route -/

section

variable {permitted : Link → Prop} {src dst : ElementId} {route : List Link}

/-- A route begins with a link that leads away from its source. -/
theorem IsRoute.exists_first (h : IsRoute permitted src dst route) (hroute : route ≠ []) :
    ∃ l ∈ route, permitted l ∧ l.src.element = src ∧ l.dst.element ≠ src := by
  cases route with
  | nil => exact absurd rfl hroute
  | cons l rest =>
    have hl : l ∈ l :: rest := List.mem_cons_self
    have hsrc : l.src.element = src := h.walk.1
    have hends : l.src.element ≠ l.dst.element := h.walk.ends_ne h.simple l hl
    exact ⟨l, hl, h.permits l hl, hsrc, hsrc ▸ hends.symm⟩

/-- A route ends with a link that leads to its destination. -/
theorem IsRoute.exists_last (h : IsRoute permitted src dst route) (hroute : route ≠ []) :
    ∃ l ∈ route, permitted l ∧ l.src.element ≠ dst ∧ l.dst.element = dst := by
  rcases List.eq_nil_or_concat route with hnil | ⟨init, l, hlast⟩
  · exact absurd hnil hroute
  · rw [List.concat_eq_append] at hlast
    have hl : l ∈ route := hlast ▸ List.mem_append_right _ (List.mem_singleton_self l)
    have hends : l.src.element ≠ l.dst.element := h.walk.ends_ne h.simple l hl
    have hdst : l.dst.element = dst := by
      have hwalk := h.walk
      rw [hlast] at hwalk
      obtain ⟨-, -, -, hdst⟩ := IsWalk.append_iff.1 hwalk
      exact hdst
    exact ⟨l, hl, h.permits l hl, hdst ▸ hends, hdst⟩

end

/-! ## Where no pair is left -/

section

variable {σ : Type} [LinkStore σ] {config : PlannerConfig} {store : σ} {hosts : HostDirectory}
  {weigher : Weigher} {src dst : ElementId}

/-- The paths of a pair are routes with no link in common. -/
theorem routes_of_mem_disjointPaths {d : DisjointPaths}
    (hd : d ∈ (topologyPaths config).disjointPaths store hosts weigher src dst) :
    IsRoute (Usable (LinkStore.links store) hosts.hosts) src dst d.primary.links ∧
      IsRoute (Usable (LinkStore.links store) hosts.hosts) src dst d.backup.links ∧
      ∀ l ∈ d.primary.links, l ∉ d.backup.links := by
  rw [disjointPaths_eq, List.mem_filterMap] at hd
  obtain ⟨p, hp, hd⟩ := hd
  obtain ⟨backup, hbackup, rfl⟩ := Option.map_eq_some_iff.1 hd
  have hprimary := isRoute_of_mem_cheapestPaths hp
  have hclear := isRoute_of_mem_pathsWithout (List.mem_of_mem_head? hbackup)
  exact ⟨hprimary.mono fun l hl => hl.1, hclear.mono fun l hl => hl.1.1,
    fun l hl hl' => ((hclear.permits l hl').2.links l hl).1 rfl⟩

/-- There is no pair where every route takes one and the same link. -/
theorem disjointPaths_eq_nil_of_taken (bridge? : Option Link)
    (h : ∀ route, IsRoute (Usable (LinkStore.links store) hosts.hosts) src dst route →
      route ≠ [] → ∃ l ∈ route, bridge? = some l) :
    (topologyPaths config).disjointPaths store hosts weigher src dst = [] := by
  refine List.eq_nil_iff_forall_not_mem.2 fun d hd => ?_
  obtain ⟨hprimary, hbackup, hshared⟩ := routes_of_mem_disjointPaths hd
  obtain ⟨l, hl, hbridge⟩ := h _ hprimary d.primary.nonempty
  obtain ⟨l', hl', hbridge'⟩ := h _ hbackup d.backup.nonempty
  obtain rfl : l = l' := Option.some.inj (hbridge.symm.trans hbridge')
  exact hshared l hl hl'

end

/-! ## Hosts attached once -/

/-- The host is the end of no stored link, and no other host is located at it. -/
structure AttachedOnce (links : List Link) (hosts : List Host) (id : HostId) : Prop where
  stored : ∀ l ∈ links, l.src.element ≠ .host id ∧ l.dst.element ≠ .host id
  located : ∀ h ∈ hosts, h.id ≠ id → ∀ p, h.location? = some p → p.element ≠ .host id

instance (links : List Link) (hosts : List Host) (id : HostId) :
    Decidable (AttachedOnce links hosts id) :=
  decidable_of_iff ((∀ l ∈ links, l.src.element ≠ .host id ∧ l.dst.element ≠ .host id) ∧
      ∀ h ∈ hosts, h.id ≠ id → (h.location?.all fun p => p.element ≠ .host id) = true)
    ⟨fun h => ⟨h.1, by simpa [Option.all_eq_true] using h.2⟩,
      fun h => ⟨h.stored, by simpa [Option.all_eq_true] using h.located⟩⟩

namespace HostDirectory

/-- The point that routes attach the host with the identifier at. -/
def location? (d : HostDirectory) (id : HostId) : Option ConnectPoint :=
  (d.host? id).bind Host.location?

/-- The link from the host to the point that it is attached at. -/
def linkFrom? (d : HostDirectory) (id : HostId) : Option Link :=
  (d.location? id).map fun p => .between (.ofHost id) p .edge

/-- The link to the host from the point that it is attached at. -/
def linkTo? (d : HostDirectory) (id : HostId) : Option Link :=
  (d.location? id).map fun p => .between p (.ofHost id) .edge

theorem location?_of_mem {d : HostDirectory} {h : Host} {p : ConnectPoint} (hh : h ∈ d.hosts)
    (hp : h.location? = some p) : d.location? h.id = some p := by
  unfold location?
  rw [mem_hosts_iff.1 hh]
  exact hp

end HostDirectory

namespace AttachedOnce

variable {links : List Link} {hosts : HostDirectory} {id : HostId} {l : Link}

/-- The only usable link from the host to another element is the one that attaches it. -/
theorem linkFrom?_eq_some (h : AttachedOnce links hosts.hosts id) (hl : Usable links hosts.hosts l)
    (hsrc : l.src.element = .host id) (hdst : l.dst.element ≠ .host id) :
    hosts.linkFrom? id = some l := by
  cases hl with
  | stored hl _ => exact absurd hsrc (h.stored l hl).1
  | @leavesHost host p hh hp =>
    obtain rfl : host.id = id := ElementId.host.inj hsrc
    exact Option.map_eq_some_iff.2 ⟨p, HostDirectory.location?_of_mem hh hp, rfl⟩
  | @entersHost host p hh hp =>
    have hother : host.id ≠ id := fun heq => hdst (congrArg ElementId.host heq)
    exact absurd hsrc (h.located host hh hother p hp)

/-- The only usable link to the host from another element is the one that attaches it. -/
theorem linkTo?_eq_some (h : AttachedOnce links hosts.hosts id) (hl : Usable links hosts.hosts l)
    (hsrc : l.src.element ≠ .host id) (hdst : l.dst.element = .host id) :
    hosts.linkTo? id = some l := by
  cases hl with
  | stored hl _ => exact absurd hdst (h.stored l hl).2
  | @leavesHost host p hh hp =>
    have hother : host.id ≠ id := fun heq => hsrc (congrArg ElementId.host heq)
    exact absurd hdst (h.located host hh hother p hp)
  | @entersHost host p hh hp =>
    obtain rfl : host.id = id := ElementId.host.inj hdst
    exact Option.map_eq_some_iff.2 ⟨p, HostDirectory.location?_of_mem hh hp, rfl⟩

end AttachedOnce

/-- No pair of disjoint paths begins or ends at a host that is attached once, whatever the rest of
the topology is and however many locations the host has. -/
theorem disjointPaths_eq_nil_of_attachedOnce {σ : Type} [LinkStore σ] (config : PlannerConfig)
    (store : σ) (hosts : HostDirectory) (weigher : Weigher) (id : HostId)
    (h : AttachedOnce (LinkStore.links store) hosts.hosts id) (e : ElementId) :
    (topologyPaths config).disjointPaths store hosts weigher (.host id) e = [] ∧
      (topologyPaths config).disjointPaths store hosts weigher e (.host id) = [] := by
  constructor
  · -- Every route from the host begins with the link that attaches it.
    refine disjointPaths_eq_nil_of_taken (hosts.linkFrom? id) fun route hroute hne => ?_
    obtain ⟨l, hl, husable, hsrc, hdst⟩ := hroute.exists_first hne
    exact ⟨l, hl, h.linkFrom?_eq_some husable hsrc hdst⟩
  · -- Every route to the host ends with the link that attaches it.
    refine disjointPaths_eq_nil_of_taken (hosts.linkTo? id) fun route hroute hne => ?_
    obtain ⟨l, hl, husable, hsrc, hdst⟩ := hroute.exists_last hne
    exact ⟨l, hl, h.linkTo?_eq_some husable hsrc hdst⟩

/-! ## Two ways between the devices -/

namespace Square

def port (device : String) (number : UInt64) : ConnectPoint := ⟨.device ⟨device⟩, number⟩

/-- Two ways from the first device to the last one. -/
def links : LinkTable :=
  [Link.between (port "s1" 1) (port "s2" 1) .direct,
    .between (port "s1" 2) (port "s3" 1) .direct,
    .between (port "s2" 2) (port "s4" 1) .direct,
    .between (port "s3" 2) (port "s4" 2) .direct].foldl LinkTable.insert .empty

/-- A host at the first device and one at the last, each with a second location. -/
def hosts : HostDirectory :=
  (HostDirectory.empty.add
      (((Host.named ⟨"h1"⟩ ⟨#v[0, 0, 0, 0, 0, 5]⟩).locatedAt (port "s1" 9)).locatedAt
        (port "s2" 9))).add
    (((Host.named ⟨"h2"⟩ ⟨#v[0, 0, 0, 0, 0, 6]⟩).locatedAt (port "s4" 9)).locatedAt (port "s3" 9))

end Square

/-- There are pairs between the devices, but none between the hosts, although each lists two
locations and there are paths. -/
theorem disjointPaths_eq_nil_of_attachedOnce_square :
    AttachedOnce (LinkStore.links Square.links) Square.hosts.hosts ⟨"h1"⟩ ∧
      (topologyPaths .default).disjointPaths Square.links Square.hosts hopCount (.host ⟨"h1"⟩)
        (.host ⟨"h2"⟩) = [] ∧
      ((topologyPaths .default).paths Square.links Square.hosts hopCount (.host ⟨"h1"⟩)
        (.host ⟨"h2"⟩)).length = 2 ∧
      ((topologyPaths .default).disjointPaths Square.links Square.hosts hopCount
        (.device ⟨"s1"⟩) (.device ⟨"s4"⟩)).length = 2 := by
  have hattached : AttachedOnce (LinkStore.links Square.links) Square.hosts.hosts ⟨"h1"⟩ := by
    decide +kernel
  refine ⟨hattached,
    (disjointPaths_eq_nil_of_attachedOnce .default Square.links Square.hosts hopCount ⟨"h1"⟩
      hattached (.host ⟨"h2"⟩)).1, by decide +kernel, by decide +kernel⟩

end HostRouting
