import HostRouting.Proofs.Compiler.BandwidthRecompilation
import HostRouting.Proofs.Compiler.Retention
import HostRouting.Proofs.Compiler.Safety
import HostRouting.Proofs.Routing.Soundness

/-!
# The links between two hosts

When the candidates lead from host to host through devices, and their edge links are those that
attach hosts, then what is installed over links is the part of the recorded path between the two
attachments. The device end of the first link is found although the link is searched from its
beginning: there it has a host.

1. A path that can be installed has two links at least, for a link between two hosts has no device
   end (`exists_between`).
2. Then what is left without the edge links are the links in between (`joinsHosts_of_passage`).
3. The path the other way joins the hosts the other way (`JoinsHosts.inverted`).

Main fact: `compile_geometry`.
-/

namespace HostRouting

/-- A link is an edge link just when it attaches a host. -/
def Link.EdgeAtHosts (l : Link) : Prop :=
  l.isEdge = true ↔ ¬(l.src.element.isDevice = true ∧ l.dst.element.isDevice = true)

instance (l : Link) : Decidable l.EdgeAtHosts := inferInstanceAs (Decidable (_ ↔ _))

/-- The links of a path that do not attach hosts, in order. -/
def Path.trunk (p : Path) : List Link := p.links.filter (!·.isEdge)

/-- The path attaches one host by its first link and another by its last, and the links in between
lead from device to device, from where the first host is attached to where the second is. -/
structure JoinsHosts (src dst : HostId) (p : Path) : Prop where
  links : p.links = p.first :: (p.trunk ++ [p.last])
  leaves : p.first.src.element = .host src
  enters : p.last.dst.element = .host dst
  entry : p.first.dst.element.isDevice = true
  exit : p.last.src.element.isDevice = true
  chain : IsWalk p.first.dst.element p.trunk p.last.src.element

/-! ## Device ends -/

theorem devicePoint_of_device {l : Link} (h : l.src.element.isDevice = true) :
    devicePoint l = .ok (.plain l.src) := by
  unfold devicePoint
  rw [List.find?_cons_of_pos (p := fun p : ConnectPoint => p.element.isDevice) h]

theorem devicePoint_of_host {l : Link} (h : l.src.element.isDevice = false)
    (h' : l.dst.element.isDevice = true) : devicePoint l = .ok (.plain l.dst) := by
  unfold devicePoint
  rw [List.find?_cons_of_neg (by simp [h]),
    List.find?_cons_of_pos (p := fun p : ConnectPoint => p.element.isDevice) h']

theorem isDevice_of_devicePoint {l : Link} (h : (devicePoint l).isOk = true) :
    l.src.element.isDevice = true ∨ l.dst.element.isDevice = true := by
  unfold devicePoint at h
  cases hfind : [l.src, l.dst].find? (·.element.isDevice) with
  | none =>
    rw [hfind] at h
    exact nomatch h
  | some point =>
    have hdevice : point.element.isDevice = true :=
      List.find?_some (p := fun p : ConnectPoint => p.element.isDevice) hfind
    rcases List.mem_cons.1 (List.mem_of_find?_eq_some hfind) with rfl | hmem
    · exact .inl hdevice
    · exact .inr (List.mem_singleton.1 hmem ▸ hdevice)

/-! ## Paths between hosts -/

section

variable {p : Path} {src dst : HostId}

/-- A walk over links from devices to a device starts at a device and has only devices on it. -/
theorem IsWalk.devices {a b : ElementId} {links : List Link} (h : IsWalk a links b)
    (hlinks : ∀ l ∈ links, l.src.element.isDevice = true) (hb : b.isDevice = true) :
    ∀ e ∈ a :: links.map (·.dst.element), e.isDevice = true := by
  rw [h.elements_eq]
  intro e he
  rcases List.mem_append.1 he with he | he
  · obtain ⟨l, hl, rfl⟩ := List.mem_map.1 he
    exact hlinks l hl
  · exact List.mem_singleton.1 he ▸ hb

theorem filter_between {first last : Link} {inner : List Link} (hfirst : first.isEdge = true)
    (hlast : last.isEdge = true) (hinner : ∀ l ∈ inner, l.isEdge = false) :
    (first :: (inner ++ [last])).filter (!·.isEdge) = inner := by
  have hkept : inner.filter (!·.isEdge) = inner :=
    List.filter_eq_self.2 fun l hl => by simp [hinner l hl]
  rw [List.filter_cons_of_neg (by simp [hfirst]), List.filter_append, hkept,
    List.filter_cons_of_neg (by simp [hlast]), List.filter_nil, List.append_nil]

/-- The links of a passage from host to host that has a device at its first link. -/
theorem exists_between (h : IsPassage Link.EdgeAtHosts (.host src) (.host dst) p.links)
    (hfirst : (devicePoint p.first).isOk = true) :
    ∃ inner, p.links = p.first :: (inner ++ [p.last]) := by
  obtain ⟨rest, hlinks⟩ : ∃ rest, p.links = p.first :: rest :=
    ⟨p.links.tail, (List.cons_head_tail p.nonempty).symm⟩
  rcases List.eq_nil_or_concat rest with rfl | ⟨inner, last, rfl⟩
  · -- A link between two hosts has no device end.
    have hwalk := h.walk
    rw [hlinks] at hwalk
    obtain ⟨hleaves, henters⟩ := hwalk
    rcases isDevice_of_devicePoint hfirst with hdevice | hdevice
    · rw [hleaves] at hdevice
      exact nomatch hdevice
    · rw [show p.first.dst.element = .host dst from henters] at hdevice
      exact nomatch hdevice
  · rw [List.concat_eq_append] at hlinks
    have hlast : p.last = last := by simp [Path.last, hlinks]
    exact ⟨inner, hlast ▸ hlinks⟩

theorem joinsHosts_of_passage (h : IsPassage Link.EdgeAtHosts (.host src) (.host dst) p.links)
    (hfirst : (devicePoint p.first).isOk = true) : JoinsHosts src dst p := by
  obtain ⟨inner, hlinks⟩ := exists_between h hfirst
  obtain ⟨hwalk, hpermits, htransit⟩ := h
  rw [hlinks] at hwalk hpermits htransit
  obtain ⟨hleaves, hwalk⟩ := hwalk
  obtain ⟨e, hchain, rfl, henters⟩ := IsWalk.append_iff.1 hwalk
  have hexit : p.last.src.element.isDevice = true := htransit p.last (by simp)
  have hinner : ∀ l ∈ inner, l.src.element.isDevice = true := fun l hl =>
    htransit l (List.mem_append_left _ hl)
  have hdevices := hchain.devices hinner hexit
  have hbetween : p.trunk = inner := by
    unfold Path.trunk
    rw [hlinks]
    refine filter_between ?_ ?_ fun l hl => ?_
    · refine (hpermits p.first List.mem_cons_self).2 fun hends => ?_
      rw [hleaves] at hends
      exact nomatch hends.1
    · refine (hpermits p.last (by simp)).2 fun hends => ?_
      rw [show p.last.dst.element = .host dst from henters] at hends
      exact nomatch hends.2
    · rw [Bool.eq_false_iff]
      intro hedge
      have hdst := hdevices _ (List.mem_cons_of_mem _ (List.mem_map.2 ⟨l, hl, rfl⟩))
      exact (hpermits l (by simp [hl])).1 hedge ⟨hinner l hl, hdst⟩
  exact {
    links := hbetween ▸ hlinks
    leaves := hleaves
    enters := henters
    entry := hdevices _ List.mem_cons_self
    exit := hexit
    chain := hbetween ▸ hchain }

theorem first_inverted (p : Path) : p.inverted.first = p.last.reversed := by
  simp [Path.first, Path.last, Path.inverted]

theorem last_inverted (p : Path) : p.inverted.last = p.first.reversed := by
  simp [Path.first, Path.last, Path.inverted]

theorem trunk_inverted (p : Path) :
    p.inverted.trunk = p.trunk.reverse.map Link.reversed := by
  show (p.links.reverse.map Link.reversed).filter (!·.isEdge) = _
  rw [List.filter_map, List.filter_reverse]
  rfl

theorem JoinsHosts.inverted (h : JoinsHosts src dst p) : JoinsHosts dst src p.inverted where
  links := by
    show p.links.reverse.map Link.reversed = _
    rw [first_inverted, last_inverted, trunk_inverted, h.links]
    simp
  leaves := by
    rw [first_inverted]
    exact h.enters
  enters := by
    rw [last_inverted]
    exact h.leaves
  entry := by
    rw [first_inverted]
    exact h.exit
  exit := by
    rw [last_inverted]
    exact h.entry
  chain := by
    rw [first_inverted, last_inverted, trunk_inverted]
    exact h.chain.reverse

/-- What is installed over the links of a path between hosts. -/
theorem JoinsHosts.installable_eq (h : JoinsHosts src dst p) (i : HostIntent) (one two : Host) :
    installable .linkCollection i p one two =
      .ok (.linkCollection (i.base.derive (directedSelector .linkCollection i one two)) p.trunk
        [.plain p.first.dst] [.plain p.last.src] true) := by
  unfold installable
  have hhost : p.first.src.element.isDevice = false := by
    rw [h.leaves]
    rfl
  rw [devicePoint_of_host hhost h.entry, devicePoint_of_device h.exit]
  rfl

end

/-! ## Compilations -/

section

variable {σ ρ : Type} [LinkStore σ] [Reservations ρ]

/-- The candidates for an intent lead from host to host through devices, and their edge links are
those that attach hosts. -/
structure OffersHostPaths (c : Compiler σ) (s : Stores σ ρ) (i : HostIntent) : Prop where
  there : ∀ p ∈ offers c s i i.one i.two,
    IsPassage Link.EdgeAtHosts (.host i.one) (.host i.two) p.links
  back : i.base.hasConstraint .asymmetricPath = true → ∀ p ∈ offers c s i i.two i.one,
    IsPassage Link.EdgeAtHosts (.host i.two) (.host i.one) p.links

/-- The paths of the topology do so when the active ones among the stored links are edge links just
when they attach hosts. -/
theorem offersHostPaths_topology {planner : PlannerConfig} {config : CompilerConfig}
    {s : Stores σ ρ} {i : HostIntent}
    (hlinks : ∀ l ∈ LinkStore.links s.links, l.state = .active → l.EdgeAtHosts) :
    OffersHostPaths ⟨topologyPaths planner, config⟩ s i := by
  have husable : ∀ l, Usable (LinkStore.links s.links) s.hosts.hosts l → l.EdgeAtHosts := by
    intro l hl
    cases hl with
    | stored hl hactive => exact hlinks l hl hactive
    | leavesHost hh hp => exact iff_of_true rfl fun hends => nomatch hends.1
    | entersHost hh hp => exact iff_of_true rfl fun hends => nomatch hends.2
  have hoffers : ∀ src dst, ∀ p ∈ offers ⟨topologyPaths planner, config⟩ s i src dst,
      IsPassage Link.EdgeAtHosts (.host src) (.host dst) p.links := by
    intro src dst p hp
    exact ((isRoute_of_mem_cheapestPaths hp).mono fun l hl => husable l hl.1).toIsPassage
  exact ⟨hoffers _ _, fun _ => hoffers _ _⟩

/-- What a successful compilation installs over links: in each direction the links between the
attachments of the two hosts, in order, which lead from the port where traffic enters to the port
where it leaves. Unless the directions are independent, one is the mirror image of the other. -/
theorem compile_geometry {c : Compiler σ} {s : Stores σ ρ} {i : HostIntent}
    (hflavor : c.config.flavor = .linkCollection)
    (hoffers : ∀ bare, retract c.config s.links i = .ok (bare, i.unrouted) →
      OffersHostPaths c { s with links := bare } i)
    (hok : (compile c s i).result.isOk = true) :
    (i.one = i.two ∧ (compile c s i).result = .ok []) ∨
      ∃ there back forward reverse, (compile c s i).intent.paths = some (there, back) ∧
        (compile c s i).result = .ok
          [.linkCollection forward there.trunk [.plain there.first.dst]
              [.plain there.last.src] true,
            .linkCollection reverse back.trunk [.plain back.first.dst]
              [.plain back.last.src] true] ∧
        JoinsHosts i.one i.two there ∧ JoinsHosts i.two i.one back ∧
        (.asymmetricPath ∉ i.base.constraints →
          back.trunk = there.trunk.reverse.map Link.reversed ∧
            back.first.dst = there.last.src ∧ back.last.src = there.first.dst) := by
  by_cases hends : i.one = i.two
  · exact .inl ⟨hends, congrArg Outcome.result (if_pos hends)⟩
  obtain ⟨bare, links, there, back, one, two, forward, reverse, hrouting, hpaths, hresult,
    hforward, hreverse⟩ := installed_of_compile hok hends
  obtain ⟨hthereOffered, hbackOffered⟩ := hoffers bare hrouting.retracted
  obtain ⟨hpicksThere, hpicksBack⟩ := selectRoutes_eq_ok_iff_picks.1 hrouting.selected
  rw [hflavor] at hforward hreverse
  -- What is installed has a device at its first link.
  have hopens : ∀ {p : Path} {src dst : Host} {x : Installable},
      installable .linkCollection (i.routed there back) p src dst = .ok x →
        (devicePoint p.first).isOk = true := fun h =>
    (Bool.and_eq_true_iff.1 ((isOk_installable_iff.1 (congrArg Except.isOk h)).resolve_left
      nofun)).1
  have hthere : JoinsHosts i.one i.two there :=
    joinsHosts_of_passage
      (hthereOffered there (List.mem_filter.1 (mem_of_pick hpicksThere)).1) (hopens hforward)
  have hback : JoinsHosts i.two i.one back := by
    split at hpicksBack
    next hasym =>
      exact joinsHosts_of_passage
        (hbackOffered hasym back (List.mem_filter.1 (mem_of_pick hpicksBack)).1) (hopens hreverse)
    next =>
      rw [hpicksBack]
      exact hthere.inverted
  rw [hthere.installable_eq] at hforward
  rw [hback.installable_eq] at hreverse
  obtain rfl := Except.ok.inj hforward
  obtain rfl := Except.ok.inj hreverse
  refine .inr ⟨there, back, _, _, hpaths, hresult, hthere, hback, fun hsymmetric => ?_⟩
  have hshared : ¬i.unrouted.base.hasConstraint .asymmetricPath = true := fun hasym =>
    hsymmetric (Connectivity.hasConstraint_asymmetricPath.1 hasym)
  rw [if_neg hshared] at hpicksBack
  rw [hpicksBack, trunk_inverted, first_inverted, last_inverted]
  exact ⟨rfl, rfl, rfl⟩

end

namespace Sample

/-- The two devices with a host at each. -/
def parallelStores : Stores LinkTable Ledger := ⟨parallel, parallelHosts, .empty⟩

def topologyCompiler : Compiler LinkTable := ⟨topologyPaths .default, .default⟩

end Sample

theorem compile_geometry_parallel :
    Sample.topologyCompiler.config.flavor = .linkCollection ∧
      (∀ bare, retract Sample.topologyCompiler.config Sample.parallelStores.links
          (Sample.intent []) = .ok (bare, (Sample.intent []).unrouted) →
        OffersHostPaths Sample.topologyCompiler { Sample.parallelStores with links := bare }
          (Sample.intent [])) ∧
      (compile Sample.topologyCompiler Sample.parallelStores (Sample.intent [])).result.isOk =
        true ∧
      ∃ there back, (compile Sample.topologyCompiler Sample.parallelStores
          (Sample.intent [])).intent.paths = some (there, back) ∧
        JoinsHosts Sample.one Sample.two there ∧ JoinsHosts Sample.two Sample.one back ∧
        back.trunk = there.trunk.reverse.map Link.reversed := by
  have hflavor : Sample.topologyCompiler.config.flavor = .linkCollection := rfl
  have hoffers : ∀ bare, retract Sample.topologyCompiler.config Sample.parallelStores.links
      (Sample.intent []) = .ok (bare, (Sample.intent []).unrouted) →
        OffersHostPaths Sample.topologyCompiler { Sample.parallelStores with links := bare }
          (Sample.intent []) := by
    intro bare hbare
    obtain rfl : Sample.parallelStores.links = bare := (Prod.mk.inj (Except.ok.inj hbare)).1
    have hlinks : ∀ l ∈ Sample.parallel.links, l.state = .active → l.EdgeAtHosts := by
      decide +kernel
    exact offersHostPaths_topology hlinks
  have hok : (compile Sample.topologyCompiler Sample.parallelStores
      (Sample.intent [])).result.isOk = true := by decide +kernel
  rcases compile_geometry hflavor hoffers hok with
    ⟨hsame, -⟩ | ⟨there, back, forward, reverse, hpaths, -, hthere, hback, hmirror⟩
  · exact absurd hsame (by decide)
  · exact ⟨hflavor, hoffers, hok, there, back, hpaths, hthere, hback,
      (hmirror List.not_mem_nil).1⟩

end HostRouting
