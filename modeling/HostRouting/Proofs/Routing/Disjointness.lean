import HostRouting.Proofs.Routing.Soundness

/-!
# Disjoint pairs

A backup is searched for in the topology without the links of the primary path and the elements in
between. Leaving out the candidates that the primary excludes is the same as leaving out stored
links and the attachments of hosts (`filter_candidateLinks`), so the backup is the first path that
would be listed there (`cheapestPaths_disjointFrom`), and a route over links that are clear of the
primary.

Main fact: `disjointPaths_sound`.
-/

namespace HostRouting

/-! ## What a path leaves -/

/-- The elements between the ends of a path. -/
def Path.transit (p : Path) : List ElementId := p.links.tail.map (·.src.element)

/-- The link is none of those of the path, in either direction, and leads neither to nor from an
element in between. -/
structure Link.ClearOf (l : Link) (p : Path) : Prop where
  links : ∀ m ∈ p.links, l.endpoints ≠ m.endpoints ∧ l.endpoints ≠ m.endpoints.swap
  transit : l.src.element ∉ p.transit ∧ l.dst.element ∉ p.transit

/-- The links that attach the host are clear of the path. -/
def Host.ClearOf (h : Host) (p : Path) : Prop := ∀ l ∈ attachmentLinks h, l.ClearOf p

instance (l : Link) (p : Path) : Decidable (l.ClearOf p) :=
  decidable_of_iff ((∀ m ∈ p.links, l.endpoints ≠ m.endpoints ∧ l.endpoints ≠ m.endpoints.swap) ∧
      l.src.element ∉ p.transit ∧ l.dst.element ∉ p.transit)
    ⟨fun h => ⟨h.1, h.2⟩, fun h => ⟨h.links, h.transit⟩⟩

instance (h : Host) (p : Path) : Decidable (h.ClearOf p) :=
  inferInstanceAs (Decidable (∀ l ∈ _, _))

theorem Endpoints.eq_swap_iff {e e' : Endpoints} : e = e'.swap ↔ e.swap = e' := by
  constructor <;> rintro rfl <;> rfl

/-- Both directions of a link are clear of a path or neither is. -/
theorem Link.ClearOf.opposite {l l' : Link} {p : Path} (h : l.ClearOf p)
    (hswap : l'.endpoints = l.endpoints.swap) : l'.ClearOf p := by
  obtain ⟨hsrc, hdst⟩ := Endpoints.mk.inj hswap
  refine ⟨fun m hm => ?_, ?_⟩
  · obtain ⟨hne, hne'⟩ := h.links m hm
    rw [hswap]
    exact ⟨fun heq => hne' (Endpoints.eq_swap_iff.2 heq),
      fun heq => hne (Endpoints.eq_swap_iff.1 heq.symm).symm⟩
  · rw [hsrc, hdst]
    exact h.transit.symm

theorem Exclusions.allows_disjointFrom_iff {l : Link} {p : Path} :
    (Exclusions.disjointFrom p).allows l = true ↔ l.ClearOf p := by
  have hlinks : l.endpoints ∉ (Exclusions.disjointFrom p).links ↔
      ∀ m ∈ p.links, l.endpoints ≠ m.endpoints ∧ l.endpoints ≠ m.endpoints.swap := by
    simp [disjointFrom]
  simp only [allows, Bool.and_eq_true, Bool.not_eq_true', List.contains_eq_mem,
    decide_eq_false_iff_not, hlinks]
  exact ⟨fun h => ⟨h.1.1, h.1.2, h.2⟩, fun h => ⟨⟨h.links, h.transit.1⟩, h.transit.2⟩⟩

/-! ## The topology without a path -/

variable {links : List Link} {hosts : List Host} {weigher : Weigher} {src dst : ElementId}
  {p : Path} {maxPaths : Nat}

/-- The links that attach a host are both clear of a path or both not. -/
theorem filter_attachmentLinks (h : Host) (p : Path) :
    (attachmentLinks h).filter (fun l => l.ClearOf p) =
      if h.ClearOf p then attachmentLinks h else [] := by
  split
  next hclear => exact List.filter_eq_self.2 fun l hl => decide_eq_true (hclear l hl)
  next hclear =>
    refine List.filter_eq_nil_iff.2 fun l hl hl' => hclear fun l' hmem => ?_
    have hl' : l.ClearOf p := of_decide_eq_true hl'
    obtain ⟨point, hpoint, hl⟩ := mem_attachmentLinks_iff.1 hl
    obtain ⟨point', hpoint', hmem⟩ := mem_attachmentLinks_iff.1 hmem
    obtain rfl : point = point' := Option.some.inj (hpoint.symm.trans hpoint')
    rcases hl with rfl | rfl <;> rcases hmem with rfl | rfl
    · exact hl'
    · exact hl'.opposite rfl
    · exact hl'.opposite rfl
    · exact hl'

/-- The candidates that are clear of a path are those of the stored links and the hosts that are. -/
theorem filter_candidateLinks (links : List Link) (hosts : List Host) (p : Path) :
    (candidateLinks links hosts).filter (fun l => l.ClearOf p) =
      candidateLinks (links.filter fun l => l.ClearOf p) (hosts.filter fun h => h.ClearOf p) := by
  have hattached : (hosts.flatMap attachmentLinks).filter (fun l => l.ClearOf p) =
      (hosts.filter fun h => h.ClearOf p).flatMap attachmentLinks := by
    induction hosts with
    | nil => rfl
    | cons h hosts ih =>
      rw [List.flatMap_cons, List.filter_append, filter_attachmentLinks, ih, List.filter_cons]
      by_cases hclear : h.ClearOf p <;> simp [hclear]
  unfold candidateLinks
  rw [List.filter_append, hattached, List.filter_comm]

/-- The paths that would be listed without the links of a path and the elements in between. -/
def pathsWithout (p : Path) (maxPaths : Nat) (links : List Link) (hosts : List Host)
    (weigher : Weigher) (src dst : ElementId) : List Path :=
  cheapestPaths maxPaths
    (candidateLinks (links.filter fun l => l.ClearOf p) (hosts.filter fun h => h.ClearOf p))
    weigher .none src dst

theorem cheapestPaths_disjointFrom :
    cheapestPaths maxPaths (candidateLinks links hosts) weigher (.disjointFrom p) src dst =
      pathsWithout p maxPaths links hosts weigher src dst := by
  have hallows : (Exclusions.disjointFrom p).allows = fun l => decide (l.ClearOf p) := by
    funext l
    rw [Bool.eq_iff_iff, decide_eq_true_iff, Exclusions.allows_disjointFrom_iff]
  have hnone : Exclusions.none.allows = fun _ => true := funext Exclusions.allows_none
  unfold pathsWithout cheapestPaths Graph.ofCandidates
  rw [hallows, hnone, filter_candidateLinks, List.filter_true]

/-! ## Routes without a path -/

/-- The paths without a path are routes over links that are clear of it. -/
theorem isRoute_of_mem_pathsWithout {backup : Path}
    (h : backup ∈ pathsWithout p maxPaths links hosts weigher src dst) :
    IsRoute (fun l => Admitted links hosts weigher l ∧ l.ClearOf p) src dst backup.links := by
  refine (isRoute_of_mem_cheapestPaths h).mono fun l hl => ?_
  obtain ⟨husable, hweight⟩ := hl
  rw [← mem_candidateLinks_iff, ← filter_candidateLinks, List.mem_filter,
    mem_candidateLinks_iff] at husable
  exact ⟨⟨husable.1, hweight⟩, of_decide_eq_true husable.2⟩

/-! ## Pairs -/

/-- The paths share no link, in either direction, and no element in between. -/
structure DisjointPaths.NothingShared (d : DisjointPaths) : Prop where
  links : ∀ l ∈ d.primary.links, ∀ m ∈ d.backup.links,
    m.endpoints ≠ l.endpoints ∧ m.endpoints ≠ l.endpoints.swap
  transit : ∀ e ∈ d.primary.transit, e ∉ d.backup.transit

theorem DisjointPaths.nothingShared_of_clear {d : DisjointPaths}
    (h : ∀ m ∈ d.backup.links, m.ClearOf d.primary) : d.NothingShared := by
  refine ⟨fun l hl m hm => (h m hm).links l hl, fun e he he' => ?_⟩
  obtain ⟨m, hm, rfl⟩ := List.mem_map.1 he'
  exact (h m (List.mem_of_mem_tail hm)).transit.1 he

/-- The pairs are the listed paths for which a path is left without their links and the elements in
between, each with the first that is left. -/
theorem disjointPaths_eq {σ : Type} [LinkStore σ] (config : PlannerConfig) (store : σ)
    (hosts : HostDirectory) (weigher : Weigher) (src dst : ElementId) :
    (topologyPaths config).disjointPaths store hosts weigher src dst =
      ((topologyPaths config).paths store hosts weigher src dst).filterMap fun p =>
        (pathsWithout p config.maxPaths (LinkStore.links store) hosts.hosts weigher src
          dst).head?.map fun backup => ⟨p, backup⟩ := by
  show disjointPairs config.maxPaths _ weigher src dst = _
  unfold disjointPairs
  simp only [cheapestPaths_disjointFrom]
  rfl

/-- The paths of a pair are routes over usable links with a weight and share nothing but their
ends. The primary paths are those listed that leave a path, in order, and the backup is the first
that is listed without the links of the primary and the elements in between. -/
theorem disjointPaths_sound {σ : Type} [LinkStore σ] (config : PlannerConfig) (store : σ)
    (hosts : HostDirectory) (weigher : Weigher) (src dst : ElementId) :
    let admitted := Admitted (LinkStore.links store) hosts.hosts weigher
    let paths := (topologyPaths config).paths store hosts weigher src dst
    let pairs := (topologyPaths config).disjointPaths store hosts weigher src dst
    let without (p : Path) :=
      pathsWithout p config.maxPaths (LinkStore.links store) hosts.hosts weigher src dst
    (∀ d ∈ pairs, IsRoute admitted src dst d.primary.links ∧
        IsRoute admitted src dst d.backup.links ∧ d.NothingShared ∧
          (without d.primary).head? = some d.backup) ∧
      pairs.map DisjointPaths.primary = paths.filter (fun p => !(without p).isEmpty) ∧
      (pairs.map DisjointPaths.primary).Sublist paths := by
  intro admitted paths pairs without
  have hpairs : pairs = paths.filterMap fun p => (without p).head?.map fun backup => ⟨p, backup⟩ :=
    disjointPaths_eq config store hosts weigher src dst
  have hprimaries : pairs.map DisjointPaths.primary =
      paths.filter fun p => !(without p).isEmpty := by
    rw [hpairs, List.map_filterMap, ← List.filterMap_eq_filter]
    congr 1
    funext p
    cases h : without p <;> simp [Option.guard, h]
  refine ⟨fun d hd => ?_, hprimaries, hprimaries ▸ List.filter_sublist⟩
  rw [hpairs, List.mem_filterMap] at hd
  obtain ⟨p, hp, hd⟩ := hd
  obtain ⟨backup, hbackup, rfl⟩ := Option.map_eq_some_iff.1 hd
  have hroute := isRoute_of_mem_pathsWithout (List.mem_of_mem_head? hbackup)
  exact ⟨isRoute_of_mem_cheapestPaths hp, hroute.mono fun l hl => hl.1,
    DisjointPaths.nothingShared_of_clear fun m hm => (hroute.permits m hm).2, hbackup⟩

end HostRouting
