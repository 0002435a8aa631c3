import HostRouting.Proofs.Compiler.Bandwidth
import HostRouting.Proofs.Compiler.Holdings
import HostRouting.Proofs.Contribution.Validation

/-!
# Withdrawing an intent

1. A withdrawal fails exactly when the contribution of the recorded paths cannot be removed, and has
   changed nothing by then, also where links, ledger and intent change in place
   (`run_withdrawInPlace`).
2. Otherwise the intent has no paths and holds nothing under its key, however often it held the
   same. What others hold and links off its paths are as they were.
3. To withdraw the intent once more changes nothing.

Main fact: `withdraw_effect`.
-/

namespace HostRouting

/-! ## Withdrawing in place -/

/-- A program on the links, run beside the other stores and an intent. -/
def InPlace.onLinks {σ ρ α : Type} (x : InPlace σ α) : InPlace (Stores σ ρ × HostIntent) α :=
  ExceptT.mk fun (s, i) =>
    let (result, links) := x.run.run s.links
    (result, ({ s with links := links }, i))

theorem InPlace.run_onLinks {σ ρ α : Type} (x : InPlace σ α) (s : Stores σ ρ) (i : HostIntent) :
    x.onLinks.run.run (s, i) =
      ((x.run.run s.links).1, ({ s with links := (x.run.run s.links).2 }, i)) := rfl

section

variable {σ ρ : Type} [LinkStore σ]

/-- Takes the contribution of the intent off its links and then forgets its paths. -/
def retractInPlace (config : CompilerConfig) : InPlace (Stores σ ρ × HostIntent) Unit := do
  let (_, i) ← get
  if i.paths.isSome then
    let _ ← (contributeInPlace config.writer config.writeAttempts i.base.constraints i.routedLinks
      .remove).onLinks
    modify fun (s, i) => (s, { i with paths := none })

theorem run_retractInPlace (config : CompilerConfig) (s : Stores σ ρ) (i : HostIntent) :
    (retractInPlace config).run.run (s, i) =
      match retract config s.links i with
      | .ok (links, i) => (.ok (), { s with links := links }, i)
      | .error e => (.error e, s, i) := by
  unfold retractInPlace retract contribute
  rw [InPlace.run_bind, InPlace.run_get]
  dsimp only
  cases i.paths with
  | none => rfl
  | some paths =>
    rw [if_pos Option.isSome_some, if_pos Option.isSome_some, InPlace.run_bind,
      InPlace.run_onLinks, run_contributeInPlace]
    rcases applyContribution config.writer config.writeAttempts s.links i.base.constraints
      i.routedLinks .remove with e | ⟨report, after⟩
    · rfl
    · rfl

variable [Reservations ρ]

/-- Retracts, and then gives back what the intent holds under its key. -/
def withdrawInPlace (config : CompilerConfig) : InPlace (Stores σ ρ × HostIntent) Unit := do
  retractInPlace config
  let (s, i) ← get
  let own := Reservations.held s.resources (.intent i.base.key)
  modify fun (s, i) => ({ s with resources := giveBack s.resources own }, i)

/-- The program does what a withdrawal does; when it fails it has changed nothing. -/
theorem run_withdrawInPlace (config : CompilerConfig) (s : Stores σ ρ) (i : HostIntent) :
    (withdrawInPlace config).run.run (s, i) = ((withdraw config s i).result,
      (withdraw config s i).stores, (withdraw config s i).intent) := by
  unfold withdrawInPlace withdraw
  rw [InPlace.run_bind, run_retractInPlace]
  cases retract config s.links i <;> rfl

/-! ## Failing -/

/-- The contribution of the recorded paths can be removed unless some text that is to be adjusted on
their links is no number. -/
theorem retract_isOk_iff {config : CompilerConfig} {links : σ} {i : HostIntent} :
    (∃ result, retract config links i = .ok result) ↔
      ∀ l ∈ i.routedLinks, ∀ key value, ¬NotNumeric links i.base.constraints l key value := by
  cases hpaths : i.paths with
  | none =>
    have hnone : i.routedLinks = [] := by
      unfold HostIntent.routedLinks
      rw [hpaths]
    rw [hnone]
    exact iff_of_true ⟨_, retract_of_unrouted hpaths links⟩ (by simp)
  | some paths =>
    have happly : (∃ result, applyContribution config.writer config.writeAttempts links
        i.base.constraints i.routedLinks .remove = .ok result) ↔
          ∀ l ∈ i.routedLinks, ∀ key value, ¬NotNumeric links i.base.constraints l key value :=
      applyContribution_isOk_iff
    rw [← happly]
    unfold retract contribute
    rw [hpaths, if_pos Option.isSome_some]
    cases applyContribution config.writer config.writeAttempts links i.base.constraints
      i.routedLinks .remove <;> simp [Except.map]

theorem withdraw_isOk_iff {config : CompilerConfig} {s : Stores σ ρ} {i : HostIntent} :
    (withdraw config s i).result = .ok () ↔
      ∃ result, retract config s.links i = .ok result := by
  rcases withdraw_cases config s i with ⟨e, hr, hw⟩ | ⟨bare, hr, hw⟩
  · rw [hw, hr]
    simp
  · rw [hw, hr]
    simp

end

/-! ## Links and ledgers -/

/-- Removing a contribution keeps the links off the recorded paths. -/
theorem link?_retract_of_untouched {config : CompilerConfig} {links links' : LinkTable}
    {i i' : HostIntent} (h : retract config links i = .ok (links', i')) {e : Endpoints}
    (he : ¬Touches i.routedLinks e) : links'.link? e.src e.dst = links.link? e.src e.dst := by
  rcases (retract_eq_ok h).2 with ⟨-, rfl⟩ | h
  · rfl
  · obtain ⟨⟨report, after⟩, happly, rfl⟩ := Except.map_eq_ok_iff.1 h
    exact link?_applyContribution_of_untouched happly he

/-- What a withdrawal that succeeds leaves. -/
structure Withdrawn (s : Stores LinkTable Ledger) (i : HostIntent)
    (s' : Stores LinkTable Ledger) (i' : HostIntent) : Prop where
  intent : i' = { i with paths := none }
  own : s'.resources.held (.intent i.base.key) = []
  /-- Every other consumer, the group of the intent included, holds what it held. -/
  others : ∀ d, d ≠ .intent i.base.key → s'.resources.held d = s.resources.held d
  capacities : s'.resources.capacities = s.resources.capacities
  links : ∀ e : Endpoints, ¬Touches i.routedLinks e →
    s'.links.link? e.src e.dst = s.links.link? e.src e.dst
  hosts : s'.hosts = s.hosts

variable {config : CompilerConfig} {s : Stores LinkTable Ledger} {i : HostIntent}

theorem withdrawn_of_isOk
    (hfinite : ∀ a ∈ s.resources.held (.intent i.base.key), a.resource.value.isFinite = true)
    (h : (withdraw config s i).result = .ok ()) :
    Withdrawn s i (withdraw config s i).stores (withdraw config s i).intent := by
  have hown := holding_withdraw_self
    (fun r hr => hfinite ⟨r, _⟩ (List.mem_map.2 ⟨r, hr, rfl⟩)) h
  rcases withdraw_cases config s i with ⟨e, -, hw⟩ | ⟨bare, hr, hw⟩
  · rw [hw] at h
    exact nomatch h
  · rw [hw] at hown ⊢
    refine ⟨rfl, ?_, fun d hd => ?_, ?_, fun e he => link?_retract_of_untouched hr he, rfl⟩
    · exact List.map_eq_nil_iff.2 hown
    · have hothers : ∀ a ∈ s.resources.held (.intent i.base.key), d ≠ a.consumer := by
        intro a ha
        rwa [Ledger.consumer_of_mem_held ha]
      exact congrArg (List.map fun r => (⟨r, d⟩ : Allocation))
        (Ledger.holding_giveBack_of_ne hothers)
    · have hremains : Ledger.Remains (.intent i.base.key)
          ((s.resources.held (.intent i.base.key)).map (·.resource.id)) s.resources
          (giveBack s.resources (s.resources.held (.intent i.base.key))) :=
        s.resources.giveBack_spec fun a ha _ => List.mem_map.2 ⟨a, ha, rfl⟩
      exact hremains.capacities

/-- An intent without paths that holds nothing has nothing to withdraw. -/
theorem withdraw_of_bare (hpaths : i.paths = none)
    (hown : s.resources.held (.intent i.base.key) = []) :
    withdraw config s i = ⟨.ok (), s, i⟩ := by
  unfold withdraw
  rw [retract_of_unrouted hpaths, ← HostIntent.eq_unrouted hpaths]
  dsimp only
  rw [show Reservations.held s.resources (.intent i.base.key) = [] from hown]
  rfl

/-! ## The whole effect -/

/-- What a withdrawal does, whatever its outcome. -/
structure WithdrawalEffect (config : CompilerConfig) (s : Stores LinkTable Ledger) (i : HostIntent)
    (o : Outcome LinkTable Ledger Unit) : Prop where
  /-- It does the same where everything changes in place. -/
  inPlace : (withdrawInPlace config).run.run (s, i) = (o.result, o.stores, o.intent)
  fails : (∃ e, o.result = .error e) ↔
    ∃ l ∈ i.routedLinks, ∃ key value, NotNumeric s.links i.base.constraints l key value
  unchanged : ∀ e, o.result = .error e → o.stores = s ∧ o.intent = i
  withdrawn : o.result = .ok () → Withdrawn s i o.stores o.intent
  again : o.result = .ok () → withdraw config o.stores o.intent = o

/-- A withdrawal fails and changes nothing, or takes away all that the intent has and nothing else,
and then there is nothing left to withdraw. -/
theorem withdraw_effect
    (hfinite : ∀ a ∈ s.resources.held (.intent i.base.key), a.resource.value.isFinite = true) :
    WithdrawalEffect config s i (withdraw config s i) := by
  refine ⟨run_withdrawInPlace config s i, ?_, fun e he => ?_, withdrawn_of_isOk hfinite,
    fun h => ?_⟩
  · calc
      _ ↔ ¬(withdraw config s i).result = .ok () := by
        cases (withdraw config s i).result <;> simp
      _ ↔ ¬∀ l ∈ i.routedLinks, ∀ key value, ¬NotNumeric s.links i.base.constraints l key value :=
        not_congr (withdraw_isOk_iff.trans retract_isOk_iff)
      _ ↔ _ := by simp
  · rcases withdraw_cases config s i with ⟨e', -, hw⟩ | ⟨bare, -, hw⟩
    · rw [hw]
      exact ⟨rfl, rfl⟩
    · rw [hw] at he
      exact nomatch he
  · have hwithdrawn := withdrawn_of_isOk hfinite h
    have hintent := hwithdrawn.intent
    have hown := hwithdrawn.own
    generalize withdraw config s i = o at h hintent hown ⊢
    obtain ⟨result, s', i'⟩ := o
    obtain rfl : result = .ok () := h
    obtain rfl : i' = { i with paths := none } := hintent
    exact withdraw_of_bare rfl hown

namespace Sample

/-- The sample intent with a limit on latency, routed along the sample link. -/
def limitedRouted : HostIntent := (intent [.limit "latency" 3 true]).routed path path.inverted

/-- The intent holds the same twice, and a group holds it too. -/
def doubled : Stores LinkTable Ledger where
  links := stores.links
  hosts := hosts
  resources :=
    (ledger.setHolding (.intent limitedRouted.base.key)
      [⟨srcPort, 3⟩, ⟨dstPort, 4⟩, ⟨srcPort, 3⟩]).setHolding (.group ⟨7⟩) [⟨srcPort, 3⟩]

end Sample

/-- The intent keeps nothing of what it holds, and the group keeps all. -/
theorem withdraw_effect_sample :
    (∀ a ∈ Sample.doubled.resources.held (.intent Sample.limitedRouted.base.key),
      a.resource.value.isFinite = true) ∧
    WithdrawalEffect .default Sample.doubled Sample.limitedRouted
      (withdraw .default Sample.doubled Sample.limitedRouted) ∧
    (withdraw .default Sample.doubled Sample.limitedRouted).stores.resources.held
      (.intent Sample.limitedRouted.base.key) = [] ∧
    (withdraw .default Sample.doubled Sample.limitedRouted).stores.resources.held (.group ⟨7⟩) =
      Sample.doubled.resources.held (.group ⟨7⟩) := by
  have hfinite : ∀ a ∈ Sample.doubled.resources.held (.intent Sample.limitedRouted.base.key),
      a.resource.value.isFinite = true := by decide +kernel
  have heffect : WithdrawalEffect .default Sample.doubled Sample.limitedRouted
      (withdraw .default Sample.doubled Sample.limitedRouted) := withdraw_effect hfinite
  have hsucceeds : (withdraw .default Sample.doubled Sample.limitedRouted).result.isOk = true := by
    decide +kernel
  cases hresult : (withdraw .default Sample.doubled Sample.limitedRouted).result with
  | error e =>
    rw [hresult] at hsucceeds
    exact nomatch hsucceeds
  | ok _ =>
    have hwithdrawn := heffect.withdrawn hresult
    exact ⟨hfinite, heffect, hwithdrawn.own, hwithdrawn.others _ (by decide)⟩

end HostRouting
