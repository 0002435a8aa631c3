import HostRouting.Compiler.Basic
import HostRouting.Proofs.Contribution.Pass
import HostRouting.Proofs.Routing.Selection

/-!
# What compiling and withdrawing do

Compiling an intent ends in one of four ways: there is nothing to do, the old contribution cannot be
removed, it is removed and no new one is added, or it is replaced by that of new paths. Only the
last gives installable intents.

Main facts: `compile_steps`, `compile_cases`, `rerouting_of_compile_isOk`, `installed_of_compile`
and `withdraw_cases`.
-/

namespace HostRouting

variable {σ ρ : Type} [LinkStore σ] [Reservations ρ]

/-- The intent without its paths. -/
def HostIntent.unrouted (i : HostIntent) : HostIntent := { i with paths := none }

/-- The intent with other paths. -/
def HostIntent.routed (i : HostIntent) (there back : Path) : HostIntent :=
  { i with paths := some (there, back) }

theorem HostIntent.eq_unrouted {i : HostIntent} (h : i.paths = none) : i = i.unrouted := by
  unfold unrouted
  rw [← h]

/-! ## Contributing and retracting -/

theorem contribute_pass {config : CompilerConfig} {before after : LinkTable} {i : HostIntent}
    {d : Direction} (hattempts : 0 < config.writeAttempts)
    (h : contribute config before i d = .ok after) :
    Pass config.writer i.base.constraints d i.routedLinks before after := by
  obtain ⟨⟨report, table⟩, happly, rfl⟩ := Except.map_eq_ok_iff.1 h
  exact (applyContribution_spec hattempts happly).2

theorem retract_eq_ok {config : CompilerConfig} {links links' : σ} {i i' : HostIntent}
    (h : retract config links i = .ok (links', i')) :
    i' = i.unrouted ∧
      ((i.paths = none ∧ links' = links) ∨ contribute config links i .remove = .ok links') := by
  unfold retract at h
  split at h
  next =>
    obtain ⟨links'', hlinks, h⟩ := Except.map_eq_ok_iff.1 h
    obtain ⟨rfl, rfl⟩ := Prod.mk.inj h
    exact ⟨rfl, .inr hlinks⟩
  next hpaths =>
    obtain ⟨rfl, rfl⟩ := Prod.mk.inj (Except.ok.inj h)
    have hnone : i.paths = none := by simpa using hpaths
    exact ⟨HostIntent.eq_unrouted hnone, .inl ⟨hnone, rfl⟩⟩

/-- An intent without paths has nothing to take back. -/
theorem retract_of_unrouted {config : CompilerConfig} {i : HostIntent} (h : i.paths = none)
    (links : σ) : retract config links i = .ok (links, i.unrouted) := by
  unfold retract
  rw [h, ← HostIntent.eq_unrouted h]
  rfl

theorem contribute_of_unlimited {config : CompilerConfig} {i : HostIntent}
    (h : ∀ key, lastLimit? i.base.constraints key = none) (links : σ) (d : Direction) :
    contribute config links i d = .ok links := by
  unfold contribute
  rw [applyContribution_of_unlimited h]
  rfl

theorem retract_of_unlimited {config : CompilerConfig} {i : HostIntent}
    (h : ∀ key, lastLimit? i.base.constraints key = none) (links : σ) :
    retract config links i = .ok (links, i.unrouted) := by
  cases hpaths : i.paths with
  | none => exact retract_of_unrouted hpaths links
  | some paths =>
    unfold retract
    rw [contribute_of_unlimited h, hpaths]
    rfl

/-! ## Routes -/

theorem selectRoutes_eq_ok {service : PathService σ} {s : Stores σ ρ} {i : HostIntent}
    {there back : Path} :
    selectRoutes service s i = .ok (there, back) ↔
      selectPath service s.links s.hosts s.resources i.flow (.host i.one) (.host i.two) =
        .ok there ∧
      if i.base.hasConstraint .asymmetricPath then
        selectPath service s.links s.hosts s.resources i.flow (.host i.two) (.host i.one) =
          .ok back
      else back = there.inverted := by
  unfold selectRoutes
  dsimp only
  rw [Except.bind_eq_ok_iff]
  split
  next =>
    constructor
    · rintro ⟨p, hp, h⟩
      obtain ⟨q, hq, h⟩ := Except.bind_eq_ok_iff.1 h
      obtain ⟨rfl, rfl⟩ := Prod.mk.inj (Except.ok.inj h)
      exact ⟨hp, hq⟩
    · rintro ⟨hp, hq⟩
      exact ⟨there, hp, Except.bind_eq_ok_iff.2 ⟨back, hq, rfl⟩⟩
  next =>
    constructor
    · rintro ⟨p, hp, h⟩
      obtain ⟨rfl, rfl⟩ := Prod.mk.inj (Except.ok.inj h)
      exact ⟨hp, rfl⟩
    · rintro ⟨hp, rfl⟩
      exact ⟨there, hp, rfl⟩

/-! ## Compiling -/

/-- The steps of a compilation that finds routes: the contribution of the old paths is removed from
`s.links`, which leaves `bare`, and that of the new ones is added, which leaves `links`. -/
structure Rerouting (c : Compiler σ) (s : Stores σ ρ) (i : HostIntent) (bare links : σ)
    (there back : Path) (one two : Host) : Prop where
  distinct : i.one ≠ i.two
  retracted : retract c.config s.links i = .ok (bare, i.unrouted)
  selected : selectRoutes c.paths { s with links := bare } i.unrouted = .ok (there, back)
  ends : endHosts s.hosts i = .ok (one, two)
  contributed : contribute c.config bare (i.routed there back) .add = .ok links

/-- What a compilation that finds routes leaves. -/
def reroutingOutcome (c : Compiler σ) (s : Stores σ ρ) (i : HostIntent) (links : σ)
    (there back : Path) (one two : Host) : Outcome σ ρ (List Installable) :=
  let installed :=
    installBoth c.config.flavor s.resources (i.routed there back) there back one two
  ⟨installed.1, { s with links := links, resources := installed.2 }, i.routed there back⟩

/-- The steps of a compilation determine its outcome. -/
theorem Rerouting.compile_eq {c : Compiler σ} {s : Stores σ ρ} {i : HostIntent} {bare links : σ}
    {there back : Path} {one two : Host} (h : Rerouting c s i bare links there back one two) :
    compile c s i = reroutingOutcome c s i links there back one two := by
  unfold compile
  rw [if_neg h.distinct, h.retracted]
  dsimp only
  unfold compileFresh
  dsimp only
  rw [h.selected, show endHosts s.hosts i.unrouted = .ok (one, two) from h.ends]
  dsimp only [bind, Except.bind]
  rw [show contribute c.config bare { i.unrouted with paths := some (there, back) } .add =
    .ok links from h.contributed]
  rfl

/-- Why an intent without a contribution gets no new one. -/
inductive Unroutable (c : Compiler σ) (s : Stores σ ρ) (i : HostIntent) : Error → Prop
  | select {e : Error} : selectRoutes c.paths s i = .error e → Unroutable c s i e
  | ends {e : Error} : endHosts s.hosts i = .error e → Unroutable c s i e
  | contribute {e : Error} {there back : Path} :
      selectRoutes c.paths s i = .ok (there, back) →
      HostRouting.contribute c.config s.links (i.routed there back) .add = .error e →
      Unroutable c s i e

theorem compile_steps (c : Compiler σ) (s : Stores σ ρ) (i : HostIntent) :
    (i.one = i.two ∧ compile c s i = ⟨.ok [], s, i⟩) ∨
    (∃ e, retract c.config s.links i = .error e ∧ compile c s i = ⟨.error e, s, i⟩) ∨
    (∃ bare e, retract c.config s.links i = .ok (bare, i.unrouted) ∧
      Unroutable c { s with links := bare } i.unrouted e ∧
      compile c s i = ⟨.error e, { s with links := bare }, i.unrouted⟩) ∨
    ∃ bare links there back one two, Rerouting c s i bare links there back one two ∧
      compile c s i = reroutingOutcome c s i links there back one two := by
  unfold compile
  by_cases hends : i.one = i.two
  · rw [if_pos hends]
    exact .inl ⟨hends, rfl⟩
  rw [if_neg hends]
  cases hr : retract c.config s.links i with
  | error e => exact .inr (.inl ⟨e, rfl, rfl⟩)
  | ok cleared =>
    obtain ⟨bare, i'⟩ := cleared
    obtain ⟨rfl, -⟩ := retract_eq_ok hr
    refine .inr (.inr ?_)
    dsimp only
    unfold compileFresh
    dsimp only
    cases hs : selectRoutes c.paths { s with links := bare } i.unrouted with
    | error e => exact .inl ⟨bare, e, rfl, .select hs, rfl⟩
    | ok paths =>
      obtain ⟨there, back⟩ := paths
      cases hh : endHosts s.hosts i.unrouted with
      | error e => exact .inl ⟨bare, e, rfl, .ends hh, rfl⟩
      | ok hosts =>
        obtain ⟨one, two⟩ := hosts
        dsimp only [bind, Except.bind]
        cases hc : contribute c.config bare (i.routed there back) .add with
        | error e =>
          rw [show contribute c.config bare { i.unrouted with paths := some (there, back) } .add =
            .error e from hc]
          exact .inl ⟨bare, e, rfl, .contribute hs hc, rfl⟩
        | ok links =>
          rw [show contribute c.config bare { i.unrouted with paths := some (there, back) } .add =
            .ok links from hc]
          exact .inr ⟨bare, links, there, back, one, two, ⟨hends, hr, hs, hh, hc⟩, rfl⟩

theorem compile_cases (c : Compiler σ) (s : Stores σ ρ) (i : HostIntent) :
    (i.one = i.two ∧ compile c s i = ⟨.ok [], s, i⟩) ∨
    (∃ e, retract c.config s.links i = .error e ∧ compile c s i = ⟨.error e, s, i⟩) ∨
    (∃ bare e, retract c.config s.links i = .ok (bare, i.unrouted) ∧
      compile c s i = ⟨.error e, { s with links := bare }, i.unrouted⟩) ∨
    ∃ bare links there back one two, Rerouting c s i bare links there back one two ∧
      compile c s i = reroutingOutcome c s i links there back one two := by
  rcases compile_steps c s i with h | h | ⟨bare, e, hr, -, hc⟩ | h
  · exact .inl h
  · exact .inr (.inl h)
  · exact .inr (.inr (.inl ⟨bare, e, hr, hc⟩))
  · exact .inr (.inr (.inr h))

/-- An intent between two hosts is compiled only when routes are found for it. -/
theorem rerouting_of_compile_isOk {c : Compiler σ} {s : Stores σ ρ} {i : HostIntent}
    (h : (compile c s i).result.isOk = true) (hends : i.one ≠ i.two) :
    ∃ bare links there back one two, Rerouting c s i bare links there back one two ∧
      compile c s i = reroutingOutcome c s i links there back one two := by
  rcases compile_cases c s i with ⟨he, -⟩ | ⟨e, -, hc⟩ | ⟨bare, e, -, hc⟩ | hrouted
  · exact absurd he hends
  · rw [hc] at h
    exact nomatch h
  · rw [hc] at h
    exact nomatch h
  · exact hrouted

/-- Compiling an intent changes nothing of it but its paths. -/
theorem compile_unrouted (c : Compiler σ) (s : Stores σ ρ) (i : HostIntent) :
    (compile c s i).intent.unrouted = i.unrouted := by
  rcases compile_cases c s i with ⟨-, hc⟩ | ⟨e, -, hc⟩ | ⟨bare, e, -, hc⟩ |
    ⟨bare, links, there, back, one, two, -, hc⟩
  all_goals exact congrArg (·.intent.unrouted) hc

theorem compile_base (c : Compiler σ) (s : Stores σ ρ) (i : HostIntent) :
    (compile c s i).intent.base = i.base := congrArg (·.base) (compile_unrouted c s i)

/-! ## Installing -/

theorem endHosts_eq_ok {hosts : HostDirectory} {i : HostIntent} {one two : Host}
    (h : endHosts hosts i = .ok (one, two)) :
    hosts.host? i.one = some one ∧ hosts.host? i.two = some two := by
  unfold endHosts at h
  cases hone : hosts.host? i.one with
  | none =>
    rw [hone] at h
    exact nomatch h
  | some first =>
    cases htwo : hosts.host? i.two with
    | none =>
      rw [hone, htwo] at h
      exact nomatch h
    | some second =>
      rw [hone, htwo] at h
      obtain ⟨rfl, rfl⟩ := Prod.mk.inj (Except.ok.inj h)
      exact ⟨rfl, rfl⟩

theorem installBoth_eq_ok {flavor : InstallableFlavor} {resources : ρ} {i : HostIntent}
    {there back : Path} {one two : Host} {installables : List Installable}
    (h : (installBoth flavor resources i there back one two).1 = .ok installables) :
    ∃ forward reverse, installables = [forward, reverse] ∧
      installable flavor i there one two = .ok forward ∧
      installable flavor i back two one = .ok reverse := by
  unfold installBoth install at h
  cases hforward : installable flavor i there one two with
  | error e =>
    rw [hforward] at h
    exact nomatch h
  | ok forward =>
    rw [hforward] at h
    dsimp only at h
    cases hreverse : installable flavor i back two one with
    | error e =>
      rw [hreverse] at h
      exact nomatch h
    | ok reverse =>
      rw [hreverse] at h
      exact ⟨forward, reverse, (Except.ok.inj h).symm, rfl, rfl⟩

/-- What an intent between two hosts is compiled to: an installable intent for each direction. -/
theorem installed_of_compile {c : Compiler σ} {s : Stores σ ρ} {i : HostIntent}
    (hok : (compile c s i).result.isOk = true) (hends : i.one ≠ i.two) :
    ∃ bare links there back one two forward reverse,
      Rerouting c s i bare links there back one two ∧
      (compile c s i).intent.paths = some (there, back) ∧
      (compile c s i).result = .ok [forward, reverse] ∧
      installable c.config.flavor (i.routed there back) there one two = .ok forward ∧
      installable c.config.flavor (i.routed there back) back two one = .ok reverse := by
  obtain ⟨bare, links, there, back, one, two, hrouting, hc⟩ := rerouting_of_compile_isOk hok hends
  rw [hc] at hok ⊢
  cases hboth : (installBoth c.config.flavor s.resources (i.routed there back) there back one
      two).1 with
  | error e =>
    have hfails : (reroutingOutcome c s i links there back one two).result = .error e := hboth
    rw [hfails] at hok
    exact nomatch hok
  | ok installables =>
    obtain ⟨forward, reverse, rfl, hinstalled⟩ := installBoth_eq_ok hboth
    exact ⟨bare, links, there, back, one, two, forward, reverse, hrouting, rfl, hboth, hinstalled⟩

/-! ## Withdrawing -/

theorem withdraw_cases (config : CompilerConfig) (s : Stores σ ρ) (i : HostIntent) :
    (∃ e, retract config s.links i = .error e ∧ withdraw config s i = ⟨.error e, s, i⟩) ∨
    ∃ bare, retract config s.links i = .ok (bare, i.unrouted) ∧
      withdraw config s i =
        ⟨.ok (), { s with
          links := bare
          resources := giveBack s.resources (Reservations.held s.resources (.intent i.base.key)) },
          i.unrouted⟩ := by
  unfold withdraw
  cases hr : retract config s.links i with
  | error e => exact .inl ⟨e, rfl, rfl⟩
  | ok cleared =>
    obtain ⟨bare, i'⟩ := cleared
    obtain ⟨rfl, -⟩ := retract_eq_ok hr
    exact .inr ⟨bare, rfl, rfl⟩

/-! ## A small network -/

namespace Sample

def one : HostId := ⟨"h1"⟩

def two : HostId := ⟨"h2"⟩

def mac (last : UInt8) : MacAddress := ⟨#v[0, 0, 0, 0, 0, last]⟩

def hosts : HostDirectory :=
  (HostDirectory.empty.add (.named one (mac 1))).add (.named two (mac 2))

/-- A link between two devices with a latency of ten. -/
def link : Link :=
  { Link.between ⟨.device ⟨"s1"⟩, 1⟩ ⟨.device ⟨"s2"⟩, 1⟩ .direct with
    annotations := .ofList [("latency", "10")] }

def path : Path := ⟨.core, [link], 1, by simp, trivial⟩

/-- The service that offers the same path in both directions. -/
def service {σ : Type} : PathService σ := ⟨fun _ _ _ _ _ => [path], fun _ _ _ _ _ => []⟩

/-- An intent between the hosts that has not been compiled. -/
def intent (constraints : List Constraint) : HostIntent where
  base := ⟨⟨⟨"sample"⟩, "h1h2"⟩, ⟨"sample"⟩, .empty, .empty, constraints, defaultPriority, none⟩
  one := one
  two := two
  paths := none

end Sample

end HostRouting
