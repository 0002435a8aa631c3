import HostRouting.Intent.Wire
import HostRouting.Proofs.Compiler.Bandwidth
import HostRouting.Proofs.Compiler.Conservation

/-!
# Recorded routes keep to the constraints

1. An intent that is built or read excludes optical links, whatever other constraints it has, and
   no call changes its constraints (`Obtainable.notOptical_mem`).
2. Weighing may miss a forbidden link, but a candidate is selected only when all of its links pass
   (`safelyRouted_of_selectRoutes`).
3. A compilation records paths that it has just selected or leaves none
   (`compile_routes_safely`), so no path that a session records crosses an optical link
   (`Session.run_opticalFree`).
-/

namespace HostRouting

/-! ## Intents that can be had -/

theorem Constraint.eq_notOptical_of_beq {c : Constraint} (h : (notOptical == c) = true) :
    c = .notOptical := by
  cases c with
  | linkType inclusive types =>
    have hparts : (false == inclusive && [LinkType.optical] == types) = true := h
    rw [Bool.and_eq_true, beq_iff_eq, beq_iff_eq] at hparts
    rw [← hparts.1, ← hparts.2]
    rfl
  | _ => exact nomatch h

theorem notOptical_mem_withNotOptical (constraints : List Constraint) :
    .notOptical ∈ withNotOptical constraints := by
  unfold withNotOptical
  split
  next h =>
    obtain ⟨c, hc, hbeq⟩ := List.contains_iff_exists_mem_beq.1 h
    exact Constraint.eq_notOptical_of_beq hbeq ▸ hc
  next => exact List.mem_cons_self

theorem withNotOptical_of_mem {constraints : List Constraint} (h : .notOptical ∈ constraints) :
    withNotOptical constraints = constraints :=
  if_pos (List.contains_iff_exists_mem_beq.2 ⟨_, h, rfl⟩)

/-- The intents that can be had: they are built or read, and paths are recorded in them. -/
inductive HostIntent.Obtainable : HostIntent → Prop
  | built {d : Draft} {i : HostIntent} : d.build = .ok i → Obtainable i
  | read {v : Json} {i : HostIntent} : HostIntent.ofJson v = .ok i → Obtainable i
  | recorded {i : HostIntent} (paths : Option (Path × Path)) :
      Obtainable i → Obtainable { i with paths := paths }

theorem Draft.constraints_of_build {d : Draft} {i : HostIntent} (h : d.build = .ok i) :
    i.base.constraints = withNotOptical d.constraints := by
  unfold build at h
  obtain ⟨app, -, h⟩ := Except.bind_eq_ok_iff.1 h
  obtain ⟨one, -, h⟩ := Except.bind_eq_ok_iff.1 h
  obtain ⟨two, -, h⟩ := Except.bind_eq_ok_iff.1 h
  rw [← Except.ok.inj h]

/-- What is read is built. -/
theorem HostIntent.built_of_ofJson {v : Json} {i : HostIntent} (h : ofJson v = .ok i) :
    ∃ d : Draft, d.build = .ok i := by
  obtain ⟨w, -, h⟩ := Except.bind_eq_ok_iff.1 h
  obtain ⟨one, -, h⟩ := Except.bind_eq_ok_iff.1 h
  obtain ⟨two, -, h⟩ := Except.bind_eq_ok_iff.1 h
  obtain ⟨app, -, h⟩ := Except.bind_eq_ok_iff.1 h
  exact ⟨_, h⟩

theorem HostIntent.Obtainable.notOptical_mem {i : HostIntent} (h : i.Obtainable) :
    .notOptical ∈ i.base.constraints := by
  induction h with
  | built h =>
    rw [Draft.constraints_of_build h]
    exact notOptical_mem_withNotOptical _
  | read h =>
    obtain ⟨d, h⟩ := HostIntent.built_of_ofJson h
    rw [Draft.constraints_of_build h]
    exact notOptical_mem_withNotOptical _
  | recorded paths _ ih => exact ih

theorem type_ne_optical {l : Link} {ctx : Context}
    (h : Constraint.notOptical.isValid l ctx = true) : l.type ≠ .optical := by
  intro htype
  have hlisted : ([LinkType.optical].contains l.type == false) = true := h
  rw [htype] at hlisted
  exact absurd hlisted (by decide)

/-! ## Selected routes -/

/-- Paths for both directions of an intent that keep to its constraints, as a context has it: without
optical links, every link of the path there passing every constraint, and the way back either a
path of its own that passes or the way there inverted. -/
structure SafelyRouted (ctx : Context) (i : HostIntent) (there back : Path) : Prop where
  type_ne_optical : ∀ l ∈ there.links ++ back.links, l.type ≠ .optical
  validates : ∀ c ∈ i.base.constraints, c.validates there ctx = true
  validates_back : .asymmetricPath ∈ i.base.constraints →
    ∀ c ∈ i.base.constraints, c.validates back ctx = true
  inverse : .asymmetricPath ∉ i.base.constraints →
    back.links = there.links.reverse.map Link.reversed ∧ back.cost = there.cost ∧
      back.provider = there.provider

theorem Connectivity.hasConstraint_asymmetricPath {c : Connectivity} :
    c.hasConstraint .asymmetricPath = true ↔ .asymmetricPath ∈ c.constraints := by
  unfold hasConstraint
  rw [List.contains_iff_exists_mem_beq]
  constructor
  · rintro ⟨constraint, hmem, hbeq⟩
    cases constraint with
    | asymmetricPath => exact hmem
    | _ => exact nomatch hbeq
  · intro h
    exact ⟨_, h, rfl⟩

section

variable {σ ρ : Type} [LinkStore σ] [Reservations ρ]

theorem validates_of_selectPath {service : PathService σ} {links : σ} {hosts : HostDirectory}
    {resources : ρ} {i : FlowIntent} {src dst : ElementId} {p : Path}
    (h : selectPath service links hosts resources i src dst = .ok p) :
    ∀ c ∈ i.connectivity.constraints,
      c.validates p (Context.ofStores links resources) = true :=
  List.all_eq_true.1 (satisfies_of_selectPath h)

theorem safelyRouted_of_selectRoutes {service : PathService σ} {s : Stores σ ρ} {i : HostIntent}
    {there back : Path} (hi : .notOptical ∈ i.base.constraints)
    (h : selectRoutes service s i = .ok (there, back)) :
    SafelyRouted (Context.ofStores s.links s.resources) i there back := by
  obtain ⟨hthere, hback⟩ := selectRoutes_eq_ok.1 h
  have hthere := validates_of_selectPath hthere
  have hclear : ∀ l ∈ there.links, l.type ≠ .optical := fun l hl =>
    type_ne_optical (List.all_eq_true.1 (hthere _ hi) l hl)
  split at hback
  next hasym =>
    rw [Connectivity.hasConstraint_asymmetricPath] at hasym
    have hback := validates_of_selectPath hback
    refine ⟨fun l hl => ?_, hthere, fun _ => hback, fun hn => absurd hasym hn⟩
    rcases List.mem_append.1 hl with hl | hl
    · exact hclear l hl
    · exact type_ne_optical (List.all_eq_true.1 (hback _ hi) l hl)
  next hasym =>
    rw [Connectivity.hasConstraint_asymmetricPath] at hasym
    subst hback
    refine ⟨fun l hl => ?_, hthere, fun hn => absurd hn hasym, fun _ => ⟨rfl, rfl, rfl⟩⟩
    rcases List.mem_append.1 hl with hl | hl
    · exact hclear l hl
    · obtain ⟨l', hl', rfl⟩ := List.mem_map.1 hl
      exact hclear l' (List.mem_reverse.1 hl')

/-! ## Compilation -/

variable {c : Compiler σ} {s : Stores σ ρ} {i : HostIntent}

/-- The paths of a compilation keep to the constraints on the links without the old contribution. -/
theorem Rerouting.safelyRouted {bare links : σ} {there back : Path} {one two : Host}
    (h : Rerouting c s i bare links there back one two) (hi : .notOptical ∈ i.base.constraints) :
    SafelyRouted (Context.ofStores bare s.resources) i there back := by
  obtain ⟨hoptical, hthere, hback, hinverse⟩ :=
    safelyRouted_of_selectRoutes (show .notOptical ∈ i.unrouted.base.constraints from hi) h.selected
  exact ⟨hoptical, hthere, hback, hinverse⟩

/-- A compilation either stops before it selects anything and leaves the intent as it is, or fails
and leaves no paths, or records the paths it has selected on the links without the old
contribution. These keep to the constraints, whatever becomes of the rest of the compilation. -/
theorem compile_routes_safely (hi : i.Obtainable) (c : Compiler σ) (s : Stores σ ρ) :
    let outcome := compile c s i
    ((i.one = i.two ∨ ∃ e, retract c.config s.links i = .error e) ∧ outcome.intent = i) ∨
      (outcome.result.isOk = false ∧ outcome.intent = i.unrouted) ∨
      ∃ bare there back, retract c.config s.links i = .ok (bare, i.unrouted) ∧
        selectRoutes c.paths { s with links := bare } i.unrouted = .ok (there, back) ∧
        outcome.intent = i.routed there back ∧
        SafelyRouted (Context.ofStores bare s.resources) i there back := by
  intro outcome
  rcases compile_cases c s i with ⟨hends, hc⟩ | ⟨e, hr, hc⟩ | ⟨bare, e, -, hc⟩ |
    ⟨bare, links, there, back, one, two, h, hc⟩
  · exact .inl ⟨.inl hends, congrArg Outcome.intent hc⟩
  · exact .inl ⟨.inr ⟨e, hr⟩, congrArg Outcome.intent hc⟩
  · refine .inr (.inl ⟨?_, congrArg Outcome.intent hc⟩)
    rw [show outcome.result = .error e from congrArg Outcome.result hc]
    rfl
  · exact .inr (.inr ⟨bare, there, back, h.retracted, h.selected, congrArg Outcome.intent hc,
      h.safelyRouted hi.notOptical_mem⟩)

end

namespace Sample

/-- A draft that allows direct links only, and also direct and optical ones. -/
def draft : Draft :=
  { Draft.empty with
    app := some ⟨"sample"⟩
    one := some one
    two := some two
    constraints := [.linkType true [.direct], .linkType true [.direct, .optical],
      .limit "latency" 20 true] }

end Sample

theorem compile_routes_safely_sample :
    ∃ i, Sample.draft.build = .ok i ∧ i.Obtainable ∧
      ∃ bare there back,
        retract Sample.compiler.config Sample.stores.links i = .ok (bare, i.unrouted) ∧
        (compile Sample.compiler Sample.stores i).intent = i.routed there back ∧
        SafelyRouted (Context.ofStores bare Sample.stores.resources) i there back := by
  refine ⟨_, rfl, .built (d := Sample.draft) rfl, ?_⟩
  rcases compile_routes_safely (.built (d := Sample.draft) rfl) Sample.compiler Sample.stores with
    ⟨hends | ⟨e, hr⟩, -⟩ | ⟨hfails, -⟩ | ⟨bare, there, back, hr, -, hintent, hsafe⟩
  · exact absurd hends (by decide)
  · rw [retract_of_unrouted rfl] at hr
    exact nomatch hr
  · exact absurd hfails (by decide +kernel)
  · exact ⟨bare, there, back, hr, hintent, hsafe⟩

/-! ## Sessions -/

/-- No link of the recorded paths is optical. -/
def HostIntent.OpticalFree (i : HostIntent) : Prop :=
  ∀ there back, i.paths = some (there, back) → ∀ l ∈ there.links ++ back.links, l.type ≠ .optical

theorem HostIntent.opticalFree_unrouted (i : HostIntent) : i.unrouted.OpticalFree :=
  fun _ _ h => nomatch h

section

variable {σ ρ : Type} [LinkStore σ] [Reservations ρ] {i : HostIntent}

theorem compile_opticalFree (hi : .notOptical ∈ i.base.constraints) (hfree : i.OpticalFree)
    (c : Compiler σ) (s : Stores σ ρ) : (compile c s i).intent.OpticalFree := by
  rcases compile_cases c s i with ⟨-, hc⟩ | ⟨e, -, hc⟩ | ⟨bare, e, -, hc⟩ |
    ⟨bare, links, there, back, one, two, h, hc⟩ <;> rw [hc]
  · exact hfree
  · exact hfree
  · exact i.opticalFree_unrouted
  · intro p q hpaths
    obtain ⟨rfl, rfl⟩ := Prod.mk.inj (Option.some.inj hpaths)
    exact (h.safelyRouted hi).type_ne_optical

theorem withdraw_opticalFree (hfree : i.OpticalFree) (config : CompilerConfig) (s : Stores σ ρ) :
    (withdraw config s i).intent.OpticalFree := by
  rcases withdraw_cases config s i with ⟨e, -, hc⟩ | ⟨bare, -, hc⟩ <;> rw [hc]
  · exact hfree
  · exact i.opticalFree_unrouted

end

namespace Session

variable {ι ρ : Type} [DecidableEq ι] [Reservations ρ] {s : Session ι ρ}

/-- The intents of the session exclude optical links, and so do the paths they have. -/
structure OpticalFree (s : Session ι ρ) : Prop where
  constraints : ∀ who, .notOptical ∈ (s.intents who).base.constraints
  paths : ∀ who, (s.intents who).OpticalFree

theorem OpticalFree.step (h : s.OpticalFree) (config : CompilerConfig) (call : Call ι ρ) :
    (s.step config call).OpticalFree := by
  refine ⟨fun who => ?_, fun who => ?_⟩
  · rw [base_step]
    exact h.constraints who
  cases call with
  | compile changed paths =>
    show (Function.update s.intents changed _ who).OpticalFree
    by_cases hwho : who = changed
    · subst hwho
      rw [Function.update_self]
      exact compile_opticalFree (h.constraints who) (h.paths who) _ _
    · rw [Function.update_of_ne hwho]
      exact h.paths who
  | withdraw changed =>
    show (Function.update s.intents changed _ who).OpticalFree
    by_cases hwho : who = changed
    · subst hwho
      rw [Function.update_self]
      exact withdraw_opticalFree (h.paths who) _ _
    · rw [Function.update_of_ne hwho]
      exact h.paths who
  | other hosts resources => exact h.paths who

/-- Whatever is compiled and withdrawn, no recorded path ever crosses an optical link. -/
theorem run_opticalFree (hintents : ∀ who, (s.intents who).Obtainable)
    (hfresh : ∀ who, (s.intents who).paths = none) (config : CompilerConfig)
    (calls : List (Call ι ρ)) : (s.run config calls).OpticalFree := by
  have hstart : s.OpticalFree :=
    ⟨fun who => (hintents who).notOptical_mem, fun who _ _ h => nomatch (hfresh who).symm.trans h⟩
  clear hintents hfresh
  induction calls generalizing s with
  | nil => exact hstart
  | cons call rest ih => exact ih (hstart.step config call)

end Session

end HostRouting
