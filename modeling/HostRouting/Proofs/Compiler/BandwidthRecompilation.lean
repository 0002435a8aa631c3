import HostRouting.Proofs.Compiler.Bandwidth
import HostRouting.Proofs.Compiler.Courses

/-!
# Compiling again with reserved bandwidth

An intent that asks for bandwidth and limits no annotation leaves the links alone. When it is
compiled again, its own reservations count against it: a candidate stays eligible only if the
requested bandwidth fits once more beside them. So the second compilation repeats the first exactly
when the fingerprint still picks the recorded paths from what stays eligible, and then it reserves
nothing and gives nothing back. What is held is added in the order of consumers; in another order
the same holds as long as no sum depends on it (`recompile_book`).

Main fact: `recompile_bandwidth_iff`.
-/

namespace HostRouting

section

variable {σ : Type} [LinkStore σ]

/-- The paths that the service of a compiler offers an intent. -/
def offers {ρ : Type} [Reservations ρ] (c : Compiler σ) (s : Stores σ ρ) (i : HostIntent)
    (src dst : HostId) : List Path :=
  c.paths.paths s.links s.hosts
    ((Context.ofStores s.links s.resources).weigher i.base.constraints) (.host src) (.host dst)

/-- The fingerprint picks a path among those on offer that satisfy the constraints of the intent
in the given stores. -/
def Picks {ρ : Type} [Reservations ρ] (s : Stores σ ρ) (i : HostIntent) (offered : List Path)
    (p : Path) : Prop :=
  pick (fingerprint s.hosts i.flow)
    (offered.filter (satisfies (Context.ofStores s.links s.resources) i.base.constraints)) =
      some p

/-- Compiling the intent that a first compilation leaves succeeds again, records the same paths and
leaves the ledger as it was. -/
def Repeats {ρ : Type} [Reservations ρ] (c : Compiler σ) (first : Outcome σ ρ (List Installable)) :
    Prop :=
  let second := compile c first.stores first.intent
  second.result.isOk = true ∧ second.intent.paths = first.intent.paths ∧
    second.stores.resources = first.stores.resources

/-- The routes selected for an intent are those that the fingerprint picks. -/
theorem selectRoutes_eq_ok_iff_picks {ρ : Type} [Reservations ρ] {c : Compiler σ}
    {s : Stores σ ρ} {i : HostIntent} {there back : Path} :
    selectRoutes c.paths s i = .ok (there, back) ↔
      Picks s i (offers c s i i.one i.two) there ∧
        if i.base.hasConstraint .asymmetricPath then
          Picks s i (offers c s i i.two i.one) back
        else back = there.inverted := by
  rw [selectRoutes_eq_ok, selectPath_eq_ok, selectPath_eq_ok]
  rfl

/-- Reserving what is held already changes nothing. -/
theorem reserve_of_holds {l : Ledger} {c : Connectivity} {b : Bandwidth}
    {points : List ConnectPoint} (hc : c.requestedBandwidth? = some b)
    (h : ∀ r ∈ neededResources b points, ∃ held ∈ l.holding c.consumer, (held == r) = true) :
    reserve l c points = (l, []) := by
  rw [reserve_eq hc, outstanding_eq_nil_iff.2 h]
  rfl

/-! ## Constraints without limits -/

theorem satisfies_congr {ctx ctx' : Context} {constraints : List Constraint} {p : Path}
    (h : ∀ k ∈ constraints, ∀ l ∈ p.links, k.isValid l ctx = k.isValid l ctx') :
    satisfies ctx constraints p = satisfies ctx' constraints p := by
  rw [Bool.eq_iff_iff, satisfies_iff, satisfies_iff]
  exact forall₂_congr fun k hk => forall₂_congr fun l hl => by rw [h k hk l hl]

/-- Ledgers with the same room for what the constraints ask on the ports of a path agree on it. -/
theorem satisfies_congr_of_fits {links : σ} {l l' : Ledger} {constraints : List Constraint}
    {p : Path} (hunlimited : ∀ k ∈ constraints, k.annotationLimit? = none)
    (hfits : ∀ b, .bandwidth b ∈ constraints → ∀ r ∈ neededResources b p.connectPoints,
      l'.fits r.id b.bps = l.fits r.id b.bps) :
    satisfies (Context.ofStores links l') constraints p =
      satisfies (Context.ofStores links l) constraints p := by
  apply satisfies_congr
  intro k hk link hlink
  cases k with
  | bandwidth b =>
    show ([link.src, link.dst].filterMap _).all l'.isAvailable =
      ([link.src, link.dst].filterMap _).all l.isAvailable
    have havailable : ∀ r ∈ [link.src, link.dst].filterMap (Resource.atPoint? · b),
        l'.isAvailable r = l.isAvailable r := by
      intro r hr
      obtain ⟨point, hpoint, hr⟩ := List.mem_filterMap.1 hr
      have hneeded : r ∈ neededResources b p.connectPoints :=
        mem_neededResources.2 ⟨point, mem_connectPoints.2 ⟨link, hlink, hpoint⟩, hr⟩
      have := hfits b hk r hneeded
      rw [← value_of_mem_neededResources hneeded] at this
      exact this
    rw [Bool.eq_iff_iff, List.all_eq_true, List.all_eq_true]
    exact forall₂_congr fun r hr => by rw [havailable r hr]
  | atMost key threshold => exact nomatch hunlimited _ hk
  | limit key threshold upper => exact nomatch hunlimited _ hk
  | asymmetricPath => rfl
  | linkType inclusive types => rfl
  | marker name => rfl
  | pathViability => rfl

theorem picks_congr {s s' : Stores σ Ledger} {i : HostIntent} {offered : List Path} {p : Path}
    (hunlimited : ∀ k ∈ i.base.constraints, k.annotationLimit? = none)
    (hlinks : s'.links = s.links) (hhosts : s'.hosts = s.hosts)
    (hfits : ∀ p ∈ offered, ∀ b, .bandwidth b ∈ i.base.constraints →
      ∀ r ∈ neededResources b p.connectPoints,
        s'.resources.fits r.id b.bps = s.resources.fits r.id b.bps) :
    Picks s' i offered p ↔ Picks s i offered p := by
  unfold Picks
  rw [hlinks, hhosts, List.filter_congr fun p hp =>
    satisfies_congr_of_fits hunlimited (hfits p hp)]

/-! ## The second compilation -/

section

variable {c : Compiler σ} {s s' : Stores σ Ledger} {i : HostIntent} {there back : Path}
variable {one two : Host}

/-- An intent that limits no annotation is routed on the links as they are. -/
theorem rerouting_of_unlimited {bare links : σ}
    (hunlimited : ∀ k ∈ i.base.constraints, k.annotationLimit? = none)
    (h : Rerouting c s i bare links there back one two) : bare = s.links ∧ links = s.links := by
  have hlimit := lastLimit?_of_unlimited hunlimited
  have hretracted := h.retracted
  rw [retract_of_unlimited hlimit] at hretracted
  obtain ⟨rfl, -⟩ := Prod.mk.inj (Except.ok.inj hretracted)
  have hrouted : ∀ key, lastLimit? (i.routed there back).base.constraints key = none := hlimit
  have hcontributed : contribute c.config s.links (i.routed there back) .add = .ok s.links :=
    contribute_of_unlimited hrouted s.links .add
  exact ⟨rfl, Except.ok.inj (h.contributed.symm.trans hcontributed)⟩

/-- It is routed again as before exactly when the same routes are selected. -/
theorem rerouting_again_iff
    (hunlimited : ∀ k ∈ i.base.constraints, k.annotationLimit? = none)
    (h : Rerouting c s i s.links s.links there back one two) (hlinks : s'.links = s.links)
    (hhosts : s'.hosts = s.hosts) :
    Rerouting c s' (i.routed there back) s'.links s'.links there back one two ↔
      selectRoutes c.paths s' i = .ok (there, back) := by
  constructor
  · intro h'
    exact h'.selected
  · intro hselected
    have hlimit : ∀ key, lastLimit? (i.routed there back).base.constraints key = none :=
      lastLimit?_of_unlimited hunlimited
    refine ⟨h.distinct, ?_, hselected, ?_, ?_⟩
    · exact retract_of_unlimited hlimit s'.links
    · rw [hhosts]
      exact h.ends
    · rw [hlinks]
      exact h.contributed

/-- The second compilation repeats the first exactly when it selects the same routes. -/
theorem repeats_iff {b : Bandwidth}
    (hunlimited : ∀ k ∈ i.base.constraints, k.annotationLimit? = none)
    (hrequested : i.base.requestedBandwidth? = some b) (hb : 0 ≤ b.bps)
    (hnonneg : s.resources.Nonneg) (h : Rerouting c s i s.links s.links there back one two)
    (hok : (reroutingOutcome c s i s.links there back one two).result.isOk = true) :
    Repeats c (reroutingOutcome c s i s.links there back one two) ↔
      selectRoutes c.paths (reroutingOutcome c s i s.links there back one two).stores i =
        .ok (there, back) := by
  obtain ⟨first, hfirst⟩ : ∃ first, first = reroutingOutcome c s i s.links there back one two :=
    ⟨_, rfl⟩
  have hintent : first.intent = i.routed there back := hfirst ▸ rfl
  have hlinks : first.stores.links = s.links := hfirst ▸ rfl
  have hhosts : first.stores.hosts = s.hosts := hfirst ▸ rfl
  rw [← hfirst] at hok ⊢
  unfold Repeats
  rw [hintent]
  constructor
  · rintro ⟨hok', hpaths, -⟩
    obtain ⟨bare, links, there', back', one', two', h', hcompile'⟩ :=
      rerouting_of_compile_isOk hok' h.distinct
    rw [hcompile'] at hpaths
    obtain ⟨rfl, rfl⟩ := Prod.mk.inj (Option.some.inj hpaths)
    obtain ⟨rfl, rfl⟩ := rerouting_of_unlimited (i := i.routed there' back') hunlimited h'
    exact h'.selected
  · intro hselected
    have hcompile := ((rerouting_again_iff hunlimited h hlinks hhosts).2 hselected).compile_eq
    rw [hcompile]
    have hok' : (installBoth c.config.flavor first.stores.resources (i.routed there back) there
        back one two).1.isOk = true := by
      rw [hfirst] at hok
      exact (isOk_installBoth rfl rfl _ _ _ _ _ _ _).trans hok
    refine ⟨hok', rfl, ?_⟩
    obtain ⟨hthere, hback⟩ := fits_of_selectRoutes hrequested h.selected
    obtain ⟨-, -, hholds⟩ := reserve_both hnonneg hrequested hb hthere hback
    have hresources : first.stores.resources =
        (reserve (reserve s.resources i.base there.connectPoints).1 i.base
          back.connectPoints).1 := by
      rw [hfirst] at hok ⊢
      exact resources_installBoth hok
    rw [← hresources] at hholds
    have hagain : reserve first.stores.resources i.base there.connectPoints =
        (first.stores.resources, []) :=
      reserve_of_holds hrequested fun r hr => hholds r (.inl hr)
    have hagain' : reserve first.stores.resources i.base back.connectPoints =
        (first.stores.resources, []) :=
      reserve_of_holds hrequested fun r hr => hholds r (.inr hr)
    calc (installBoth c.config.flavor first.stores.resources (i.routed there back) there back one
          two).2
      _ = (reserve (reserve first.stores.resources i.base there.connectPoints).1 i.base
          back.connectPoints).1 := resources_installBoth hok'
      _ = first.stores.resources := by rw [hagain, hagain']

/-- Compiled again, an intent that limits no annotation repeats its compilation exactly when the
fingerprint picks its paths again from what the service offered the first time, and then there is
room for the requested bandwidth beside what the intent holds. It does so when the first
compilation leaves as much room for the constraints on the offered paths as there was before. -/
theorem recompile_bandwidth_iff {b : Bandwidth}
    (hunlimited : ∀ k ∈ i.base.constraints, k.annotationLimit? = none)
    (hrequested : i.base.requestedBandwidth? = some b) (hb : 0 ≤ b.bps)
    (hnonneg : s.resources.Nonneg) (hends : i.one ≠ i.two)
    (hok : (compile c s i).result.isOk = true)
    (hthere : offers c (compile c s i).stores i i.one i.two = offers c s i i.one i.two)
    (hback : offers c (compile c s i).stores i i.two i.one = offers c s i i.two i.one) :
    ∃ there back, (compile c s i).intent.paths = some (there, back) ∧
      (Repeats c (compile c s i) ↔
        Picks (compile c s i).stores i (offers c s i i.one i.two) there ∧
          (i.base.hasConstraint .asymmetricPath = true →
            Picks (compile c s i).stores i (offers c s i i.two i.one) back)) ∧
      (Repeats c (compile c s i) →
        ∀ p ∈ there.connectPoints ++ back.connectPoints, ∀ r, Resource.atPoint? p b = some r →
          (compile c s i).stores.resources.fits r.id b.bps = true) ∧
      ((∀ p ∈ offers c s i i.one i.two ++ offers c s i i.two i.one,
        ∀ b', .bandwidth b' ∈ i.base.constraints → ∀ r ∈ neededResources b' p.connectPoints,
          (compile c s i).stores.resources.fits r.id b'.bps = s.resources.fits r.id b'.bps) →
        Repeats c (compile c s i)) := by
  obtain ⟨bare, links, there, back, one, two, hrouting, hcompile⟩ :=
    rerouting_of_compile_isOk hok hends
  obtain ⟨rfl, rfl⟩ := rerouting_of_unlimited hunlimited hrouting
  rw [hcompile] at hok hthere hback ⊢
  obtain ⟨first, hfirst⟩ : ∃ first, first = reroutingOutcome c s i s.links there back one two :=
    ⟨_, rfl⟩
  have hrepeats := repeats_iff hunlimited hrequested hb hnonneg hrouting hok
  rw [← hfirst] at hok hthere hback hrepeats ⊢
  have hpicks := selectRoutes_eq_ok_iff_picks.1 hrouting.selected
  have hselect : selectRoutes c.paths first.stores i = .ok (there, back) ↔
      Picks first.stores i (offers c s i i.one i.two) there ∧
        (i.base.hasConstraint .asymmetricPath = true →
          Picks first.stores i (offers c s i i.two i.one) back) := by
    rw [selectRoutes_eq_ok_iff_picks, hthere, hback]
    apply and_congr_right
    intro _
    split
    next hasym => exact ⟨fun h _ => h, fun h => h hasym⟩
    next hasym =>
      have hinverted := hpicks.2
      rw [if_neg (show ¬i.unrouted.base.hasConstraint .asymmetricPath = true from hasym)]
        at hinverted
      exact ⟨fun _ h => absurd h hasym, fun _ => hinverted⟩
  refine ⟨there, back, hfirst ▸ rfl, hrepeats.trans hselect, ?_, ?_⟩
  · intro hrep p hp r hr
    obtain ⟨hfits, hfits'⟩ := fits_of_selectRoutes hrequested (hrepeats.1 hrep)
    rcases List.mem_append.1 hp with hp | hp
    · exact hfits r (mem_neededResources.2 ⟨p, hp, hr⟩)
    · exact hfits' r (mem_neededResources.2 ⟨p, hp, hr⟩)
  · intro hsame
    rw [hrepeats, hselect]
    have hlinks : first.stores.links = s.links := hfirst ▸ rfl
    have hhosts : first.stores.hosts = s.hosts := hfirst ▸ rfl
    refine ⟨?_, fun hasym => ?_⟩
    · refine (picks_congr hunlimited hlinks hhosts fun p hp => ?_).2 hpicks.1
      exact hsame p (List.mem_append_left _ hp)
    · have hpicked := hpicks.2
      rw [if_pos (show i.unrouted.base.hasConstraint .asymmetricPath = true from hasym)]
        at hpicked
      refine (picks_congr hunlimited hlinks hhosts fun p hp => ?_).2 hpicked
      exact hsame p (List.mem_append_right _ hp)

end

end

/-- The sample intent with a request for bandwidth, compiled once. -/
def Sample.compiled (bps : Binary64) : Outcome LinkTable Ledger (List Installable) :=
  compile compiler stores (intent [.bandwidth ⟨bps⟩])

theorem Sample.offers_eq (s : Stores LinkTable Ledger) (i : HostIntent) (src dst : HostId) :
    offers compiler s i src dst = [path] := rfl

/-- With twice the bandwidth free at both ports of the link the compilation is repeated. -/
theorem recompile_bandwidth_iff_sample :
    (∀ k ∈ (Sample.intent [.bandwidth ⟨5⟩]).base.constraints, k.annotationLimit? = none) ∧
      (Sample.intent [.bandwidth ⟨5⟩]).base.requestedBandwidth? = some ⟨5⟩ ∧
      (0 : Binary64) ≤ 5 ∧ Sample.stores.resources.Nonneg ∧ Sample.one ≠ Sample.two ∧
      (Sample.compiled 5).result.isOk = true ∧
      Repeats Sample.compiler (Sample.compiled 5) := by
  have hunlimited :
      ∀ k ∈ (Sample.intent [.bandwidth ⟨5⟩]).base.constraints, k.annotationLimit? = none := by
    intro k hk
    obtain rfl := List.mem_singleton.1 hk
    rfl
  have hrequested : (Sample.intent [.bandwidth ⟨5⟩]).base.requestedBandwidth? = some ⟨5⟩ := rfl
  have hb : (0 : Binary64) ≤ 5 := by decide +kernel
  have hnonneg : Sample.stores.resources.Nonneg := by decide +kernel
  have hends : Sample.one ≠ Sample.two := by decide
  have hok : (Sample.compiled 5).result.isOk = true := by decide +kernel
  obtain ⟨there, back, -, -, -, hrepeats⟩ :=
    recompile_bandwidth_iff hunlimited hrequested hb hnonneg hends hok
      ((Sample.offers_eq _ _ _ _).trans (Sample.offers_eq _ _ _ _).symm)
      ((Sample.offers_eq _ _ _ _).trans (Sample.offers_eq _ _ _ _).symm)
  refine ⟨hunlimited, hrequested, hb, hnonneg, hends, hok, hrepeats ?_⟩
  intro p hp b hb r hr
  rw [Sample.offers_eq, Sample.offers_eq] at hp
  obtain rfl : b = ⟨5⟩ := by
    have := List.mem_singleton.1 hb
    exact Constraint.bandwidth.inj this
  have hfits : ∀ p ∈ [Sample.path] ++ [Sample.path],
      ∀ r ∈ neededResources ⟨5⟩ p.connectPoints,
      (Sample.compiled 5).stores.resources.fits r.id (Bandwidth.mk 5).bps =
        Sample.stores.resources.fits r.id (Bandwidth.mk 5).bps := by decide +kernel
  unfold Sample.compiled at hfits
  exact hfits p hp r hr

/-- With room for the bandwidth but not for twice as much, the second compilation fails. -/
theorem recompile_bandwidth_refused :
    (∀ k ∈ (Sample.intent [.bandwidth ⟨10⟩]).base.constraints, k.annotationLimit? = none) ∧
      (Sample.compiled 10).result.isOk = true ∧
      ¬Repeats Sample.compiler (Sample.compiled 10) := by
  refine ⟨?_, by decide +kernel, ?_⟩
  · intro k hk
    obtain rfl := List.mem_singleton.1 hk
    rfl
  · rintro ⟨hok, -⟩
    have hrefused : (compile Sample.compiler (Sample.compiled 10).stores
        (Sample.compiled 10).intent).result.isOk = false := by decide +kernel
    rw [hrefused] at hok
    exact nomatch hok

end HostRouting
