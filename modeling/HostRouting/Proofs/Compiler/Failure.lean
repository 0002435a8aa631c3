import HostRouting.Proofs.Compiler.Bandwidth
import HostRouting.Proofs.Compiler.Conservation
import HostRouting.Proofs.Contribution.Refusal
import HostRouting.Proofs.Contribution.Repetition

/-!
# What a failed compilation leaves

A compilation fails at one of three steps, and the step decides what is left.

1. The old contribution cannot be removed: everything is as it was.
2. It is removed and no new one is made: no paths are recorded, and reservations are as they were.
3. The new contribution is made and its paths are recorded, but nothing can be installed along them.

In each case the contribution on the links is that of the recorded paths, made once
(`compile_bears`), so the next compilation takes off what is there and nothing else. That holds
after any history of an intent (`Session.run_bears`).

Main fact: `compile_failure`.
-/

namespace HostRouting

/-! ## Errors of the steps -/

section

variable {σ ρ : Type} [LinkStore σ] [Reservations ρ] {e : Error}

theorem contribute_eq_error {config : CompilerConfig} {links : σ} {i : HostIntent} {d : Direction}
    (h : contribute config links i d = .error e) :
    ∃ key value, Unadjustable links i.base.constraints i.crossedLinks key value ∧
      e = .annotationNotNumeric key value := by
  rw [← i.routedLinks_eq]
  exact applyContribution_eq_error (Except.map_eq_error_iff.1 h)

theorem retract_eq_error {config : CompilerConfig} {links : σ} {i : HostIntent}
    (h : retract config links i = .error e) :
    i.paths ≠ none ∧ contribute config links i .remove = .error e := by
  unfold retract at h
  split at h
  next hpaths => exact ⟨by simpa [Option.isSome_iff_ne_none] using hpaths,
    Except.map_eq_error_iff.1 h⟩
  next => exact nomatch h

theorem selectPath_eq_error {service : PathService σ} {links : σ} {hosts : HostDirectory}
    {resources : ρ} {i : FlowIntent} {src dst : ElementId}
    (h : selectPath service links hosts resources i src dst = .error e) :
    e = .pathNotFound src dst := (pickOr_eq_error.1 h).1

/-- The ends between which an intent is routed: its hosts and, when the way back is routed by
itself, the same the other way. -/
def RoutedBetween (i : HostIntent) (src dst : ElementId) : Prop :=
  (src = .host i.one ∧ dst = .host i.two) ∨
    (i.base.hasConstraint .asymmetricPath = true ∧ src = .host i.two ∧ dst = .host i.one)

theorem selectRoutes_eq_error {service : PathService σ} {s : Stores σ ρ} {i : HostIntent}
    (h : selectRoutes service s i = .error e) :
    ∃ src dst, RoutedBetween i src dst ∧ e = .pathNotFound src dst ∧
      selectPath service s.links s.hosts s.resources i.flow src dst = .error e := by
  rcases Except.bind_eq_error_iff.1 h with h | ⟨there, -, h⟩
  · exact ⟨_, _, .inl ⟨rfl, rfl⟩, selectPath_eq_error h, h⟩
  · split at h
    next hasym =>
      rcases Except.bind_eq_error_iff.1 h with h | ⟨back, -, h⟩
      · exact ⟨_, _, .inr ⟨hasym, rfl, rfl⟩, selectPath_eq_error h, h⟩
      · exact nomatch h
    next => exact nomatch h

theorem endHosts_eq_error {hosts : HostDirectory} {i : HostIntent}
    (h : endHosts hosts i = .error e) :
    ∃ id, (id = i.one ∨ id = i.two) ∧ hosts.host? id = none ∧ e = .hostNotFound id := by
  unfold endHosts at h
  cases hone : hosts.host? i.one with
  | none =>
    rw [hone] at h
    exact ⟨i.one, .inl rfl, hone, (Except.error.inj h).symm⟩
  | some one =>
    cases htwo : hosts.host? i.two with
    | none =>
      rw [hone, htwo] at h
      exact ⟨i.two, .inr rfl, htwo, (Except.error.inj h).symm⟩
    | some two =>
      rw [hone, htwo] at h
      exact nomatch h

theorem installable_eq_error {flavor : InstallableFlavor} {i : HostIntent} {p : Path}
    {src dst : Host} (h : installable flavor i p src dst = .error e) :
    ∃ reason, e = .compilation reason := by
  have hpoint {l : Link} (h : devicePoint l = .error e) : ∃ reason, e = .compilation reason := by
    unfold devicePoint at h
    split at h
    · exact nomatch h
    · exact ⟨_, (Except.error.inj h).symm⟩
  cases flavor with
  | linkCollection =>
    rcases Except.bind_eq_error_iff.1 h with h | ⟨ingress, -, h⟩
    · exact hpoint h
    · rcases Except.bind_eq_error_iff.1 h with h | ⟨egress, -, h⟩
      · exact hpoint h
      · exact nomatch h
  | path => exact nomatch h

theorem installBoth_eq_error {flavor : InstallableFlavor} {resources : ρ} {i : HostIntent}
    {there back : Path} {one two : Host}
    (h : (installBoth flavor resources i there back one two).1 = .error e) :
    ∃ reason, e = .compilation reason := by
  unfold installBoth install at h
  cases hthere : installable flavor i there one two with
  | error e' =>
    rw [hthere] at h
    obtain rfl := Except.error.inj h
    exact installable_eq_error hthere
  | ok forward =>
    rw [hthere] at h
    dsimp only at h
    cases hback : installable flavor i back two one with
    | error e' =>
      rw [hback] at h
      obtain rfl := Except.error.inj h
      exact installable_eq_error hback
    | ok reverse =>
      rw [hback] at h
      exact nomatch h

end

/-! ## Contributions that are made -/

/-- The contribution of the recorded paths is made on `before` or removed from it: the call for
their links that attach no host succeeds, every link reads back as written, and each of them is
adjusted once. -/
structure Contributed (config : CompilerConfig) (i : HostIntent) (d : Direction)
    (before after : LinkTable) : Prop where
  recorded : i.paths ≠ none
  applied : ∃ report, applyContribution config.writer config.writeAttempts before
    i.base.constraints i.crossedLinks d = .ok (report, after) ∧ report.stale = []
  pass : Pass config.writer i.base.constraints d i.crossedLinks before after

theorem contributed_of_contribute {config : CompilerConfig} {i : HostIntent} {d : Direction}
    {before after : LinkTable} (hattempts : 0 < config.writeAttempts) (hpaths : i.paths ≠ none)
    (h : contribute config before i d = .ok after) : Contributed config i d before after := by
  obtain ⟨⟨report, table⟩, happly, rfl⟩ := Except.map_eq_ok_iff.1 h
  rw [i.routedLinks_eq] at happly
  obtain ⟨hstale, hpass⟩ := applyContribution_spec hattempts happly
  exact ⟨hpaths, ⟨report, happly, hstale⟩, hpass⟩

/-- `bare` is what is left of the links without the contribution of the recorded paths. -/
def Cleared (config : CompilerConfig) (i : HostIntent) (links bare : LinkTable) : Prop :=
  (i.paths = none ∧ bare = links) ∨ Contributed config i .remove links bare

theorem cleared_of_retract {config : CompilerConfig} {i : HostIntent} {links bare : LinkTable}
    (hattempts : 0 < config.writeAttempts)
    (h : retract config links i = .ok (bare, i.unrouted)) : Cleared config i links bare := by
  unfold retract at h
  split at h
  next hpaths =>
    obtain ⟨bare', hremoved, h⟩ := Except.map_eq_ok_iff.1 h
    obtain ⟨rfl, -⟩ := Prod.mk.inj h
    exact .inr (contributed_of_contribute hattempts
      (by simpa [Option.isSome_iff_ne_none] using hpaths) hremoved)
  next hpaths =>
    obtain ⟨rfl, -⟩ := Prod.mk.inj (Except.ok.inj h)
    exact .inl ⟨by simpa using hpaths, rfl⟩

/-- The links are `bare` with the contribution of the recorded paths on top, made once. -/
def Bears (config : CompilerConfig) (i : HostIntent) (bare links : LinkTable) : Prop :=
  (i.paths = none ∧ links = bare) ∨ Contributed config i .add bare links

theorem Bears.unrouted {config : CompilerConfig} {i : HostIntent} (links : LinkTable) :
    Bears config i.unrouted links links := .inl ⟨rfl, rfl⟩

/-! ## The three steps -/

/-- Where a compilation fails. -/
inductive FailedStep where
  /-- The old contribution is removed. -/
  | removal
  /-- New paths are found and their contribution is added. -/
  | rerouting
  /-- The new paths are installed. -/
  | installation
deriving DecidableEq

section

variable {ρ : Type} [Reservations ρ] {c : Compiler LinkTable} {s : Stores LinkTable ρ}
variable {i : HostIntent} {e : Error}

/-- Why an intent without a contribution gets no new one, by the error. -/
inductive NoContribution (c : Compiler LinkTable) (s : Stores LinkTable ρ) (i : HostIntent) :
    Error → Prop
  | noPath {src dst : ElementId} : RoutedBetween i src dst →
      selectPath c.paths s.links s.hosts s.resources i.flow src dst =
        .error (.pathNotFound src dst) →
      NoContribution c s i (.pathNotFound src dst)
  | unknownHost {id : HostId} : id = i.one ∨ id = i.two → s.hosts.host? id = none →
      NoContribution c s i (.hostNotFound id)
  | refused {there back : Path} {key value : String} :
      selectRoutes c.paths s i = .ok (there, back) →
      Unadjustable s.links i.base.constraints (i.routed there back).crossedLinks key value →
      NoContribution c s i (.annotationNotNumeric key value)

theorem Unroutable.noContribution (h : Unroutable c s i e) : NoContribution c s i e := by
  cases h with
  | select h =>
    obtain ⟨src, dst, hends, rfl, h⟩ := selectRoutes_eq_error h
    exact .noPath hends h
  | ends h =>
    obtain ⟨id, hid, hnone, rfl⟩ := endHosts_eq_error h
    exact .unknownHost hid hnone
  | contribute hselected h =>
    obtain ⟨key, value, hun, rfl⟩ := contribute_eq_error h
    exact .refused hselected hun

/-- What a compilation leaves that fails at a step with an error. -/
def FailedStep.Leaves (c : Compiler LinkTable) (s : Stores LinkTable ρ) (i : HostIntent)
    (e : Error) (o : Outcome LinkTable ρ (List Installable)) : FailedStep → Prop
  | .removal =>
    i.paths ≠ none ∧ o = ⟨.error e, s, i⟩ ∧
      ∃ key value, Unadjustable s.links i.base.constraints i.crossedLinks key value ∧
        e = .annotationNotNumeric key value
  | .rerouting =>
    ∃ bare, Cleared c.config i s.links bare ∧
      o = ⟨.error e, { s with links := bare }, i.unrouted⟩ ∧
      NoContribution c { s with links := bare } i.unrouted e
  | .installation =>
    ∃ bare links there back one two, Cleared c.config i s.links bare ∧
      selectRoutes c.paths { s with links := bare } i.unrouted = .ok (there, back) ∧
      endHosts s.hosts i = .ok (one, two) ∧
      Contributed c.config (i.routed there back) .add bare links ∧
      o = ⟨.error e, ⟨links, s.hosts, (installBoth c.config.flavor s.resources
        (i.routed there back) there back one two).2⟩, i.routed there back⟩ ∧
      ∃ reason, e = .compilation reason

/-- The step at which a compilation failed, told from the recorded paths and the error. -/
def FailedStep.of (paths : Option (Path × Path)) (e : Error) : FailedStep :=
  match paths, e with
  | none, _ => .rerouting
  | some _, .compilation _ => .installation
  | some _, _ => .removal

theorem FailedStep.Leaves.eq_of {o : Outcome LinkTable ρ (List Installable)} {step : FailedStep}
    (h : step.Leaves c s i e o) : step = .of o.intent.paths e := by
  cases step with
  | removal =>
    obtain ⟨hpaths, rfl, key, value, -, rfl⟩ := h
    obtain ⟨paths, hsome⟩ := Option.ne_none_iff_exists'.1 hpaths
    show _ = FailedStep.of i.paths _
    rw [hsome]
    rfl
  | rerouting =>
    obtain ⟨bare, -, rfl, -⟩ := h
    rfl
  | installation =>
    obtain ⟨bare, links, there, back, one, two, -, -, -, -, rfl, reason, rfl⟩ := h
    rfl

theorem leaves_of_failure (hattempts : 0 < c.config.writeAttempts)
    (h : (compile c s i).result = .error e) :
    ∃ step : FailedStep, step.Leaves c s i e (compile c s i) := by
  rcases compile_steps c s i with ⟨-, hc⟩ | ⟨e', hr, hc⟩ | ⟨bare, e', hr, hnone, hc⟩ |
    ⟨bare, links, there, back, one, two, hrouting, hc⟩
  · rw [hc] at h
    exact nomatch h
  · rw [hc] at h
    obtain rfl := Except.error.inj h
    obtain ⟨hpaths, hrefused⟩ := retract_eq_error hr
    exact ⟨.removal, hpaths, hc, contribute_eq_error hrefused⟩
  · rw [hc] at h
    obtain rfl := Except.error.inj h
    exact ⟨.rerouting, bare, cleared_of_retract hattempts hr, hc, hnone.noContribution⟩
  · rw [hc] at h
    have hadded := contributed_of_contribute hattempts (Option.some_ne_none _) hrouting.contributed
    refine ⟨.installation, bare, links, there, back, one, two,
      cleared_of_retract hattempts hrouting.retracted, hrouting.selected, hrouting.ends, hadded, ?_,
      installBoth_eq_error h⟩
    rw [hc, ← h]
    rfl

/-! ## The contribution on the links -/

/-- Compiling, with whatever outcome, leaves the contribution of the recorded paths, made once. -/
theorem compile_bears (hattempts : 0 < c.config.writeAttempts)
    (h : ∃ bare, Bears c.config i bare s.links) :
    ∃ bare, Bears c.config (compile c s i).intent bare (compile c s i).stores.links := by
  rcases compile_cases c s i with ⟨-, hc⟩ | ⟨e, -, hc⟩ | ⟨bare, e, -, hc⟩ |
    ⟨bare, links, there, back, one, two, hrouting, hc⟩
  · rw [hc]
    exact h
  · rw [hc]
    exact h
  · rw [hc]
    exact ⟨bare, .unrouted bare⟩
  · rw [hc]
    exact ⟨bare, .inr (contributed_of_contribute hattempts (Option.some_ne_none _)
      hrouting.contributed)⟩

theorem withdraw_bears {config : CompilerConfig} (h : ∃ bare, Bears config i bare s.links) :
    ∃ bare, Bears config (withdraw config s i).intent bare (withdraw config s i).stores.links := by
  rcases withdraw_cases config s i with ⟨e, -, hw⟩ | ⟨bare, -, hw⟩
  · rw [hw]
    exact h
  · rw [hw]
    exact ⟨bare, .unrouted bare⟩

/-- After any history of one intent the contribution on the links is that of its recorded paths. -/
theorem Session.run_bears {config : CompilerConfig} {session : Session Unit ρ}
    {calls : List (Call Unit ρ)} (hattempts : 0 < config.writeAttempts)
    (h : ∃ bare, Bears config (session.intents ()) bare session.stores.links) :
    ∃ bare, Bears config ((session.run config calls).intents ()) bare
      (session.run config calls).stores.links := by
  induction calls generalizing session with
  | nil => exact h
  | cons call rest ih =>
    show ∃ bare, Bears config (((session.step config call).run config rest).intents ()) bare
      ((session.step config call).run config rest).stores.links
    apply ih
    cases call with
    | compile who paths => exact compile_bears (c := ⟨paths, config⟩) hattempts h
    | withdraw who => exact withdraw_bears h
    | other hosts resources => exact h

/-- Links that bear a contribution can be cleared of it, and no more is taken off. -/
theorem Bears.cleared {config : CompilerConfig} {bare links : LinkTable}
    (hattempts : 0 < config.writeAttempts) (h : Bears config i bare links) :
    ∃ restored, retract config links i = .ok (restored, i.unrouted) ∧
      Cleared config i links restored := by
  suffices hretract : ∃ restored, retract config links i = .ok (restored, i.unrouted) by
    obtain ⟨restored, hr⟩ := hretract
    exact ⟨restored, hr, cleared_of_retract hattempts hr⟩
  rcases h with ⟨hpaths, -⟩ | hadded
  · exact ⟨links, retract_of_unrouted hpaths links⟩
  · obtain ⟨report, restored, happly⟩ : ∃ report restored, applyContribution config.writer
        config.writeAttempts links i.base.constraints i.crossedLinks .remove =
          .ok (report, restored) := hadded.pass.isOk_again (fun e he => he) _
    refine ⟨restored, ?_⟩
    unfold retract contribute
    rw [i.routedLinks_eq, happly, if_pos (Option.isSome_iff_ne_none.2 hadded.recorded)]
    rfl

/-! ## Failed compilations -/

/-- A failed compilation failed at exactly one step, and leaves what that step says. Either
everything is as it was, or the links bear the contribution of the recorded paths, made once, and
the next compilation can take it off and takes off no more. -/
theorem compile_failure (hattempts : 0 < c.config.writeAttempts)
    (h : (compile c s i).result = .error e) :
    (∃! step : FailedStep, step.Leaves c s i e (compile c s i)) ∧
      (compile c s i = ⟨.error e, s, i⟩ ∨
        ∃ bare restored, Bears c.config (compile c s i).intent bare (compile c s i).stores.links ∧
          retract c.config (compile c s i).stores.links (compile c s i).intent =
            .ok (restored, i.unrouted) ∧
          Cleared c.config (compile c s i).intent (compile c s i).stores.links restored) := by
  obtain ⟨step, hstep⟩ := leaves_of_failure hattempts h
  refine ⟨⟨step, hstep, fun step' hstep' => hstep'.eq_of.trans hstep.eq_of.symm⟩, ?_⟩
  cases step with
  | removal => exact .inl hstep.2.1
  | rerouting =>
    obtain ⟨bare, -, hc, -⟩ := hstep
    rw [hc]
    have hbears : Bears c.config i.unrouted bare bare := .unrouted bare
    obtain ⟨restored, hr, hcleared⟩ := hbears.cleared hattempts
    exact .inr ⟨bare, restored, hbears, hr, hcleared⟩
  | installation =>
    obtain ⟨bare, links, there, back, one, two, -, -, -, hadded, hc, -⟩ := hstep
    rw [hc]
    have hbears : Bears c.config (i.routed there back) bare links := .inr hadded
    obtain ⟨restored, hr, hcleared⟩ := hbears.cleared hattempts
    exact .inr ⟨bare, restored, hbears, hr, hcleared⟩

end

namespace Sample

/-- The sample intent with a limit on latency, compiled on the sample link. -/
def limited : Outcome LinkTable Ledger (List Installable) :=
  compile compiler stores (intent [.limit "latency" 20 true])

/-- What that leaves, without the hosts. -/
def deserted : Stores LinkTable Ledger := { limited.stores with hosts := .empty }

end Sample

/-- The hosts are gone when the sample intent is compiled again: its twenty are taken off. -/
theorem compile_failure_sample :
    0 < Sample.compiler.config.writeAttempts ∧
      Sample.deserted.links.textAt? Sample.link.endpoints "latency" = some "30" ∧
      (compile Sample.compiler Sample.deserted Sample.limited.intent).stores.links.textAt?
        Sample.link.endpoints "latency" = some "10" ∧
      ∃ e, (compile Sample.compiler Sample.deserted Sample.limited.intent).result = .error e ∧
        ∃! step : FailedStep, step.Leaves Sample.compiler Sample.deserted Sample.limited.intent e
          (compile Sample.compiler Sample.deserted Sample.limited.intent) := by
  have hattempts : 0 < Sample.compiler.config.writeAttempts := by decide
  have hfails : (compile Sample.compiler Sample.deserted
      Sample.limited.intent).result.isOk = false := by decide +kernel
  cases hresult : (compile Sample.compiler Sample.deserted Sample.limited.intent).result with
  | ok installables =>
    rw [hresult] at hfails
    exact nomatch hfails
  | error e =>
    exact ⟨hattempts, by decide +kernel, by decide +kernel, e, rfl,
      (compile_failure hattempts hresult).1⟩

end HostRouting
