import HostRouting.Proofs.Compiler.Courses
import HostRouting.Proofs.Contribution.Repetition

/-!
# Compiling again over restored links

An intent without a request for bandwidth is compiled twice in a row. The second compilation takes
the contribution of the first back, which always succeeds, and selects routes over the links that
are left. Their numbers may be what they were, but the writer now provides them. Links are ordered
by their providers first, so the fingerprint may pick another of several equally cheap routes.

1. Paths along the same courses are selected when links that leave one element stand in the order
   that they stood in (`Revised.selectRoutes`).
2. The contribution can be taken back and made again (`contribute_again`), so the second compilation
   repeats the first exactly when it selects the same courses (`sticks_iff`).

Main fact: `recompile_sticks_iff`.
-/

namespace HostRouting

/-! ## Selecting again -/

section

variable {ρ : Type} [Reservations ρ] {planner : PlannerConfig} {s : Stores LinkTable ρ}
variable {i : HostIntent} {there back : Path}

/-- Over revised links that keep their order, paths along the same courses are selected. -/
theorem Revised.selectRoutes {f : Link → Link} (s s' : Stores LinkTable ρ)
    (h : Revised f s.links s'.links) (hhosts : s'.hosts = s.hosts)
    (hfree : ∀ k ∈ i.base.constraints, k.requestedBandwidth? = none)
    (horder : KeepsOrder f (HostRouting.candidateLinks s.links.links s.hosts.hosts))
    (hselected : HostRouting.selectRoutes (topologyPaths planner) s i = .ok (there, back)) :
    ∃ there' back',
      HostRouting.selectRoutes (topologyPaths planner) s' i = .ok (there', back') ∧
        there'.course = there.course ∧ back'.course = back.course := by
  obtain ⟨hthere, hback⟩ := selectRoutes_eq_ok.1 hselected
  have hthere' := h.selectPath (i := i.flow) hfree horder hthere s'.resources
  rw [← hhosts] at hthere'
  split at hback
  next hasym =>
    have hback' := h.selectPath (i := i.flow) hfree horder hback s'.resources
    rw [← hhosts] at hback'
    refine ⟨there.relabel h.keepsEnds, back.relabel h.keepsEnds,
      selectRoutes_eq_ok.2 ⟨hthere', ?_⟩, course_relabel _ h.alike, course_relabel _ h.alike⟩
    rw [if_pos hasym]
    exact hback'
  next hasym =>
    refine ⟨there.relabel h.keepsEnds, (there.relabel h.keepsEnds).inverted,
      selectRoutes_eq_ok.2 ⟨hthere', ?_⟩, course_relabel _ h.alike, ?_⟩
    · rw [if_neg hasym]
    · rw [hback, course_inverted, course_inverted, course_relabel _ h.alike]

/-! ## The second compilation -/

/-- Compiling the intent that a first compilation leaves succeeds again, along the same courses, and
leaves the same texts on every link. -/
def Sticks (c : Compiler LinkTable) (first : Outcome LinkTable ρ (List Installable)) : Prop :=
  let second := compile c first.stores first.intent
  second.result.isOk = true ∧ second.intent.courses = first.intent.courses ∧
    ∀ e key, second.stores.links.textAt? e key = first.stores.links.textAt? e key

variable {c : Compiler LinkTable} {bare links restored : LinkTable} {one two : Host}

/-- After a contribution of an intent, one that touches no other links is not refused. -/
theorem contribute_again {config : CompilerConfig} {writer : ProviderId} {i' : HostIntent}
    {d : Direction} {touched : List Link} (d' : Direction)
    (h : Pass writer i'.base.constraints d touched bare links)
    (htouches : ∀ e, Touches i'.routedLinks e → Touches touched e) :
    ∃ again, contribute config links i' d' = .ok again := by
  obtain ⟨report, again, happly⟩ := h.isOk_again htouches config.writeAttempts
  exact ⟨again, Except.map_eq_ok_iff.2 ⟨(report, again), happly, rfl⟩⟩

/-- The contribution of a compilation can be taken back. -/
theorem retract_of_rerouting (hattempts : 0 < c.config.writeAttempts)
    (h : Rerouting c s i bare links there back one two) :
    ∃ restored, retract c.config links (i.routed there back) = .ok (restored, i.unrouted) := by
  obtain ⟨restored, hcontribute⟩ :=
    contribute_again .remove (contribute_pass hattempts h.contributed) fun e he => he
  refine ⟨restored, ?_⟩
  unfold retract
  rw [hcontribute]
  rfl

theorem pass_of_retract (hattempts : 0 < c.config.writeAttempts)
    (h : retract c.config links (i.routed there back) = .ok (restored, i.unrouted)) :
    Pass c.config.writer i.base.constraints .remove (i.routed there back).routedLinks links
      restored := by
  obtain ⟨-, ⟨hpaths, -⟩ | hremoved⟩ := retract_eq_ok h
  · exact nomatch hpaths
  · exact contribute_pass hattempts hremoved

/-- The second compilation repeats the first exactly when it selects the same courses over the
links that are left when the contribution of the first is taken back. -/
theorem sticks_iff (hattempts : 0 < c.config.writeAttempts)
    (h : Rerouting c s i bare links there back one two)
    (hok : (reroutingOutcome c s i links there back one two).result.isOk = true)
    (hback : retract c.config links (i.routed there back) = .ok (restored, i.unrouted))
    (hnumbers : SameNumbers bare restored) :
    Sticks c (reroutingOutcome c s i links there back one two) ↔
      ∃ there' back',
        selectRoutes c.paths
            { (reroutingOutcome c s i links there back one two).stores with links := restored }
            i.unrouted = .ok (there', back') ∧
          there'.course = there.course ∧ back'.course = back.course := by
  obtain ⟨first, hfirst⟩ : ∃ first, first = reroutingOutcome c s i links there back one two :=
    ⟨_, rfl⟩
  have hintent : first.intent = i.routed there back := hfirst ▸ rfl
  have hlinks : first.stores.links = links := hfirst ▸ rfl
  have hhosts : first.stores.hosts = s.hosts := hfirst ▸ rfl
  rw [← hfirst] at hok ⊢
  rw [← hlinks] at hback
  unfold Sticks
  rw [hintent]
  constructor
  · rintro ⟨hok', hcourses, -⟩
    obtain ⟨bare', links', there', back', one', two', h', hcompile'⟩ :=
      rerouting_of_compile_isOk hok' h.distinct
    rw [hcompile'] at hcourses
    obtain ⟨hthere, hback'⟩ := Prod.mk.inj (Option.some.inj hcourses)
    obtain ⟨rfl, -⟩ := Prod.mk.inj (Except.ok.inj (h'.retracted.symm.trans hback))
    exact ⟨there', back', h'.selected, hthere, hback'⟩
  · rintro ⟨there', back', hselected, hthere, hback'⟩
    have hadd := contribute_pass hattempts h.contributed
    rw [← hlinks] at hadd
    have hremove := pass_of_retract hattempts hback
    have htouches : ∀ e, Touches (i.routed there' back').routedLinks e ↔
        Touches (i.routed there back).routedLinks e := by
      intro e
      rw [touches_routed, touches_routed, hthere, hback']
    obtain ⟨links', hcontributed⟩ : ∃ links', contribute c.config restored
        (i.routed there' back') .add = .ok links' :=
      contribute_again .add hremove fun e => (htouches e).1
    have h' : Rerouting c first.stores (i.routed there back) restored links' there' back' one two :=
      ⟨h.distinct, hback, hselected, hhosts ▸ h.ends, hcontributed⟩
    rw [h'.compile_eq]
    refine ⟨?_, ?_, fun e key => ?_⟩
    · rw [hfirst] at hok
      exact (isOk_installBoth hthere hback' _ _ _ _ _ _ _).trans hok
    · show some (there'.course, back'.course) = some (there.course, back.course)
      rw [hthere, hback']
    · have hagain := contribute_pass hattempts hcontributed
      exact hadd.textAt?_again hremove hnumbers hagain htouches e key

/-- An intent without a request for bandwidth is compiled and compiled again at once. Its
contribution can be taken back in between. If the numbers are then what they were before it was
made, the second compilation repeats the first exactly when it selects the same courses over the
links that are left, and it does so when those that leave one element stand as they stood. -/
theorem recompile_sticks_iff {config : CompilerConfig} (hattempts : 0 < config.writeAttempts)
    (hends : i.one ≠ i.two) (hfree : ∀ k ∈ i.base.constraints, k.requestedBandwidth? = none)
    (hok : (compile ⟨topologyPaths planner, config⟩ s i).result.isOk = true) :
    ∃ first, first = compile ⟨topologyPaths planner, config⟩ s i ∧
      ∃ bare restored there back, retract config s.links i = .ok (bare, i.unrouted) ∧
        first.intent.paths = some (there, back) ∧
        retract config first.stores.links first.intent = .ok (restored, i.unrouted) ∧
        (SameNumbers bare restored →
          (Sticks ⟨topologyPaths planner, config⟩ first ↔
            ∃ there' back',
              selectRoutes (topologyPaths planner) { first.stores with links := restored }
                  i.unrouted = .ok (there', back') ∧
                there'.course = there.course ∧ back'.course = back.course) ∧
          (KeepsOrder (bare.successor restored) (candidateLinks bare.links s.hosts.hosts) →
            Sticks ⟨topologyPaths planner, config⟩ first)) := by
  obtain ⟨bare, links, there, back, one, two, hrouting, hcompile⟩ :=
    rerouting_of_compile_isOk hok hends
  rw [hcompile] at hok
  obtain ⟨restored, hback⟩ := retract_of_rerouting hattempts hrouting
  refine ⟨_, hcompile.symm, bare, restored, there, back, hrouting.retracted, rfl, hback,
    fun hnumbers => ?_⟩
  have hsticks := sticks_iff hattempts hrouting hok hback hnumbers
  refine ⟨hsticks, fun horder => hsticks.2 ?_⟩
  have hadd := contribute_pass hattempts hrouting.contributed
  have hrevised := hadd.revised (pass_of_retract hattempts hback) hnumbers
  exact Revised.selectRoutes { s with links := bare }
    { (reroutingOutcome ⟨topologyPaths planner, config⟩ s i links there back one two).stores
      with links := restored } hrevised rfl hfree horder hrouting.selected

end

/-! ## Two ways around -/

namespace Sample

/-- A cable between two ports: a link in each direction, with a latency of ten. -/
def cable (a b : ConnectPoint) : List Link :=
  [(a, b), (b, a)].map fun ends =>
    { Link.between ends.1 ends.2 .direct with annotations := .ofList [("latency", "10")] }

def port (device : String) (number : UInt64) : ConnectPoint := ⟨.device ⟨device⟩, number⟩

/-- Four devices on a ring, so that there are two ways from the first to the last. -/
def ring : LinkTable :=
  (cable (port "s1" 1) (port "s2" 1) ++ cable (port "s1" 2) (port "s3" 1) ++
    cable (port "s2" 2) (port "s4" 1) ++ cable (port "s3" 2) (port "s4" 2)).foldl
      LinkTable.insert .empty

/-- The ring with a host at each end; the address of the first decides the fingerprint. -/
def ringStores (address : UInt8) : Stores LinkTable Ledger where
  links := ring
  hosts :=
    (HostDirectory.empty.add (((Host.named one (mac 1)).withAddress
      (.v4 ⟨#v[10, 0, 0, address]⟩)).locatedAt (port "s1" 0))).add
        ((Host.named two (mac 2)).locatedAt (port "s4" 0))
  resources := .empty

/-- The sample intent with a limit on latency, compiled once on the ring. -/
def onRing (address : UInt8) : Outcome LinkTable Ledger (List Installable) :=
  compile ⟨topologyPaths .default, .default⟩ (ringStores address)
    (intent [.limit "latency" 20 true])

/-- The links after the contribution of the compilation is taken back. -/
def restoredRing (address : UInt8) : LinkTable :=
  match retract .default (onRing address).stores.links (onRing address).intent with
  | .ok (links, _) => links
  | .error _ => ring

end Sample

/-- With the address 10.0.0.3 the way over the later links is taken; they are still the later ones
when the writer provides them. -/
theorem recompile_sticks_iff_sample :
    0 < CompilerConfig.default.writeAttempts ∧ Sample.one ≠ Sample.two ∧
      (∀ k ∈ (Sample.intent [.limit "latency" 20 true]).base.constraints,
        k.requestedBandwidth? = none) ∧
      (Sample.onRing 3).result.isOk = true ∧
      Sticks ⟨topologyPaths .default, .default⟩ (Sample.onRing 3) := by
  have hattempts : 0 < CompilerConfig.default.writeAttempts := by decide
  have hends : Sample.one ≠ Sample.two := by decide
  have hfree : ∀ k ∈ (Sample.intent [.limit "latency" 20 true]).base.constraints,
      k.requestedBandwidth? = none := by
    intro k hk
    obtain rfl := List.mem_singleton.1 hk
    rfl
  -- One evaluation serves all that is to be known of the run.
  have hrun : (Sample.onRing 3).result.isOk = true ∧
      Sample.ring.byEnds.byKey.mapValues Link.annotations =
        (Sample.restoredRing 3).byEnds.byKey.mapValues Link.annotations ∧
      KeepsOrder (Sample.ring.successor (Sample.restoredRing 3))
        (candidateLinks Sample.ring.links (Sample.ringStores 3).hosts.hosts) := by
    decide +kernel
  obtain ⟨hok, hannotations, horder⟩ := hrun
  obtain ⟨first, hfirst, bare, restored, there, back, hbare, -, hrestored, hsticks⟩ :=
    recompile_sticks_iff hattempts hends hfree hok
  rw [show first = Sample.onRing 3 from hfirst] at hrestored hsticks
  rw [retract_of_unrouted rfl] at hbare
  obtain ⟨rfl, -⟩ := Prod.mk.inj (Except.ok.inj hbare)
  obtain rfl : Sample.restoredRing 3 = restored := by
    unfold Sample.restoredRing
    rw [hrestored]
  exact ⟨hattempts, hends, hfree, hok,
    (hsticks (sameNumbers_of_annotations hannotations)).2 horder⟩

/-- With the address 10.0.0.1 the way over the earlier links is taken. Under the writer's name they
come later, and the second compilation takes the other way. -/
theorem recompile_takes_other_way :
    (Sample.onRing 1).result.isOk = true ∧
      (retract .default (Sample.onRing 1).stores.links (Sample.onRing 1).intent).isOk = true ∧
      SameNumbers Sample.ring (Sample.restoredRing 1) ∧
      let second := compile ⟨topologyPaths .default, .default⟩ (Sample.onRing 1).stores
        (Sample.onRing 1).intent
      second.result.isOk = true ∧
        second.intent.paths.map (·.1.links.map Link.endpoints) ≠
          (Sample.onRing 1).intent.paths.map (·.1.links.map Link.endpoints) := by
  have hrun : (Sample.onRing 1).result.isOk = true ∧
      (retract .default (Sample.onRing 1).stores.links (Sample.onRing 1).intent).isOk = true ∧
      Sample.ring.byEnds.byKey.mapValues Link.annotations =
        (Sample.restoredRing 1).byEnds.byKey.mapValues Link.annotations ∧
      let second := compile ⟨topologyPaths .default, .default⟩ (Sample.onRing 1).stores
        (Sample.onRing 1).intent
      second.result.isOk = true ∧
        second.intent.paths.map (·.1.links.map Link.endpoints) ≠
          (Sample.onRing 1).intent.paths.map (·.1.links.map Link.endpoints) := by
    decide +kernel
  obtain ⟨hok, hretracted, hannotations, hother⟩ := hrun
  exact ⟨hok, hretracted, sameNumbers_of_annotations hannotations, hother⟩

end HostRouting
