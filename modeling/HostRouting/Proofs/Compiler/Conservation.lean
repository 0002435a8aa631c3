import HostRouting.Proofs.Compiler.Cases
import HostRouting.Proofs.Contribution.Share
import Mathlib.Algebra.BigOperators.Group.Finset.Piecewise
import Mathlib.Data.Fintype.Basic

/-!
# Conservation of annotations

Several intents are compiled and withdrawn, in any order and with any outcome, and no one else
writes to the links. As long as every contribution is exact, each number stays what it was plus the
shares of the intents that now have paths across the link.

1. A shift is what happens to the numbers of a table; shifts compose (`Shift.trans`).
2. One call shifts by the change of the share of its intent (`compile_shift`, `withdraw_shift`).
3. A run shifts by the change of the sum of all shares (`Session.run_shift`).

Main fact: `Session.run_conserves`.
-/

namespace HostRouting

/-! ## Shifts -/

/-- The tables have the same links with the same keys; every number has moved by `moved`, and texts
under keys that are not limited are as they were. -/
structure Shift (limited : String → Prop) (moved : Endpoints → String → Int)
    (before after : LinkTable) : Prop where
  links : ∀ e : Endpoints,
    (after.link? e.src e.dst).isSome = (before.link? e.src e.dst).isSome
  keys : ∀ e key, (after.textAt? e key).isSome = (before.textAt? e key).isSome
  units : ∀ e key, after.unitsAt? e key = (before.unitsAt? e key).map (· + moved e key)
  texts : ∀ e key, ¬limited key → after.textAt? e key = before.textAt? e key

section

variable {limited limited' : String → Prop} {moved moved' : Endpoints → String → Int}
variable {before middle after : LinkTable}

theorem Shift.refl (limited : String → Prop) (table : LinkTable) :
    Shift limited (fun _ _ => 0) table table :=
  ⟨fun _ => rfl, fun _ _ => rfl, fun _ _ => by simp, fun _ _ _ => rfl⟩

theorem Shift.trans (h : Shift limited moved before middle)
    (h' : Shift limited moved' middle after) :
    Shift limited (fun e key => moved e key + moved' e key) before after := by
  refine ⟨fun e => (h'.links e).trans (h.links e),
    fun e key => (h'.keys e key).trans (h.keys e key), fun e key => ?_,
    fun e key hk => (h'.texts e key hk).trans (h.texts e key hk)⟩
  rw [h'.units, h.units, Option.map_map]
  congr 1
  funext units
  exact Int.add_assoc _ _ _

theorem Shift.congr (h : Shift limited moved before after)
    (hmoved : ∀ e key, moved e key = moved' e key) : Shift limited moved' before after := by
  refine ⟨h.links, h.keys, fun e key => ?_, h.texts⟩
  rw [← hmoved]
  exact h.units e key

theorem Shift.mono (h : Shift limited moved before after)
    (hlimited : ∀ key, limited key → limited' key) : Shift limited' moved before after :=
  ⟨h.links, h.keys, h.units, fun e key hk => h.texts e key fun hl => hk (hlimited key hl)⟩

end

/-- Some constraint of the intent limits the number under the key. -/
def HostIntent.Limits (i : HostIntent) (key : String) : Prop :=
  ∃ c ∈ i.base.constraints, (c.units? key).isSome = true

theorem HostIntent.limits_iff {i : HostIntent} {key : String} :
    i.Limits key ↔ lastLimit? i.base.constraints key ≠ none := by
  rw [lastLimit?_ne_none_iff]
  refine exists_congr fun c => and_congr_right fun _ => ?_
  rw [c.units?_eq_limitOn?, Option.isSome_map, Option.isSome_iff_ne_none, Ne,
    Constraint.limitOn?_eq_none_iff, not_not]

theorem Pass.shift {writer : ProviderId} {i : HostIntent} {d : Direction}
    {before after : LinkTable} (h : Pass writer i.base.constraints d i.routedLinks before after)
    (hexact : ExactPass before i d) :
    Shift i.Limits (fun e key => d.signed (i.share e key)) before after := by
  refine ⟨fun e => ?_, fun e key => ?_, h.unitsAt? hexact,
    fun e key hk => h.text_of_lastLimit?_eq_none
      (Decidable.not_not.1 (mt HostIntent.limits_iff.2 hk)) e⟩
  · by_cases ht : Touches i.routedLinks e
    · cases hl : before.link? e.src e.dst with
      | none => rw [h.missing e hl]
      | some l =>
        obtain ⟨a, -, hafter⟩ := h.touched e l ht hl
        rw [hafter]
        rfl
    · rw [h.untouched e ht]
  · unfold LinkTable.textAt?
    by_cases ht : Touches i.routedLinks e
    · cases hl : before.link? e.src e.dst with
      | none => rw [h.missing e hl]
      | some l =>
        obtain ⟨a, ha, hafter⟩ := h.touched e l ht hl
        rw [hafter, Option.bind_some, Option.bind_some, Link.annotated_annotations]
        rcases get?_adjusted ha key with ⟨hk, hk'⟩ | ⟨value, value', hk, -, hk'⟩
        · rw [hk, hk']
        · rw [hk, hk']
          rfl
    · rw [h.untouched e ht]

/-! ## One call -/

section

variable {ρ : Type} [Reservations ρ]

@[simp] theorem HostIntent.share_unrouted (i : HostIntent) (e : Endpoints) (key : String) :
    i.unrouted.share e key = 0 := by
  refine if_neg ?_
  rintro ⟨p, hp, -⟩
  exact nomatch hp

theorem retract_shift {config : CompilerConfig} {before after : LinkTable} {i i' : HostIntent}
    (hattempts : 0 < config.writeAttempts) (hexact : ExactPass before i .remove)
    (h : retract config before i = .ok (after, i')) :
    Shift i.Limits (fun e key => -i.share e key) before after := by
  obtain ⟨-, ⟨hpaths, rfl⟩ | hremoved⟩ := retract_eq_ok h
  · refine (Shift.refl _ _).congr fun e key => ?_
    rw [HostIntent.eq_unrouted hpaths, HostIntent.share_unrouted]
    rfl
  · exact (contribute_pass hattempts hremoved).shift hexact

/-- The contributions of a compilation are exact: the one that is removed and, on the links
without it, the one that is added. -/
def ExactCompile (c : Compiler LinkTable) (s : Stores LinkTable ρ) (i : HostIntent) : Prop :=
  ExactPass s.links i .remove ∧
    match retract c.config s.links i with
    | .ok (bare, _) => ExactPass bare (compile c s i).intent .add
    | .error _ => True

instance (c : Compiler LinkTable) (s : Stores LinkTable ρ) (i : HostIntent) :
    Decidable (ExactCompile c s i) := by
  unfold ExactCompile
  refine @instDecidableAnd _ _ _ ?_
  split <;> infer_instance

/-- Compiling moves every number by the change of the share of the intent. -/
theorem compile_shift {c : Compiler LinkTable} {s : Stores LinkTable ρ} {i : HostIntent}
    (hattempts : 0 < c.config.writeAttempts) (hexact : ExactCompile c s i) :
    Shift i.Limits (fun e key => (compile c s i).intent.share e key - i.share e key)
      s.links (compile c s i).stores.links := by
  obtain ⟨hremove, hadd⟩ := hexact
  rcases compile_cases c s i with ⟨-, hc⟩ | ⟨e, -, hc⟩ | ⟨bare, e, hr, hc⟩ |
    ⟨bare, links, there, back, one, two, hrouting, hc⟩
  · rw [hc]
    exact (Shift.refl _ _).congr fun e key => (Int.sub_self _).symm
  · rw [hc]
    exact (Shift.refl _ _).congr fun e key => (Int.sub_self _).symm
  · rw [hc]
    refine (retract_shift hattempts hremove hr).congr fun e key => ?_
    rw [HostIntent.share_unrouted, Int.zero_sub]
  · rw [hrouting.retracted, hc] at hadd
    rw [hc]
    have hremoved := retract_shift hattempts hremove hrouting.retracted
    have hadded := (contribute_pass hattempts hrouting.contributed).shift hadd
    refine (hremoved.trans hadded).congr fun e key => ?_
    rw [Int.add_comm, ← Int.sub_eq_add_neg]
    rfl

theorem withdraw_shift {config : CompilerConfig} {s : Stores LinkTable ρ} {i : HostIntent}
    (hattempts : 0 < config.writeAttempts) (hexact : ExactPass s.links i .remove) :
    Shift i.Limits (fun e key => (withdraw config s i).intent.share e key - i.share e key)
      s.links (withdraw config s i).stores.links := by
  rcases withdraw_cases config s i with ⟨e, -, hw⟩ | ⟨bare, hr, hw⟩
  · rw [hw]
    exact (Shift.refl _ _).congr fun e key => (Int.sub_self _).symm
  · rw [hw]
    refine (retract_shift hattempts hexact hr).congr fun e key => ?_
    rw [HostIntent.share_unrouted, Int.zero_sub]

theorem withdraw_base (config : CompilerConfig) (s : Stores LinkTable ρ) (i : HostIntent) :
    (withdraw config s i).intent.base = i.base := by
  rcases withdraw_cases config s i with ⟨e, -, hw⟩ | ⟨bare, -, hw⟩
  all_goals exact congrArg (·.intent.base) hw

/-- Every text under a key that the intent limits is a finite number. -/
def FiniteUnder (limited : String → Prop) (table : LinkTable) : Prop :=
  ∀ e key, limited key → (table.textAt? e key).isSome = true →
    (table.unitsAt? e key).isSome = true

theorem finiteUnder_of_links {limited : String → Prop} {table : LinkTable}
    (h : ∀ l ∈ table.links, ∀ e ∈ l.annotations.entries, (l.units? e.1).isSome = true) :
    FiniteUnder limited table := by
  intro e key _ htext
  unfold LinkTable.textAt? at htext
  unfold LinkTable.unitsAt?
  cases hl : table.link? e.src e.dst with
  | none =>
    rw [hl] at htext
    exact nomatch htext
  | some l =>
    rw [hl, Option.bind_some] at htext
    obtain ⟨text, hk⟩ := Option.isSome_iff_exists.1 htext
    exact h l (LinkTable.mem_links_of_link? hl) (key, text) (SortedMap.get?_eq_some_iff.1 hk)

theorem Shift.finiteUnder {limited limited' : String → Prop} {moved : Endpoints → String → Int}
    {before after : LinkTable} (h : Shift limited' moved before after)
    (hfinite : FiniteUnder limited before) : FiniteUnder limited after := by
  intro e key hk htext
  rw [h.units, Option.isSome_map]
  rw [h.keys] at htext
  exact hfinite e key hk htext

/-- A withdrawal succeeds when all numbers are finite. -/
theorem withdraw_of_finiteUnder {config : CompilerConfig} {s : Stores LinkTable ρ}
    {i : HostIntent} (hfinite : FiniteUnder i.Limits s.links) :
    (withdraw config s i).result = .ok () ∧ (withdraw config s i).intent = i.unrouted := by
  rcases withdraw_cases config s i with ⟨e, hr, -⟩ | ⟨bare, -, hw⟩
  · have hadjusts : ∀ e l, Touches i.routedLinks e → s.links.link? e.src e.dst = some l →
        ∃ a, adjusted i.base.constraints .remove l.annotations = .ok a := by
      intro e l _ hl
      apply adjusted_isOk
      intro key value hk
      unfold adjustedText
      cases hlimit : lastLimit? i.base.constraints key with
      | none => exact ⟨value, rfl⟩
      | some limit =>
        have hkey : i.Limits key := HostIntent.limits_iff.2 (by simp [hlimit])
        have htext : s.links.textAt? e key = some value := by simp [LinkTable.textAt?, hl, hk]
        have hunits := hfinite e key hkey (by simp [htext])
        rw [LinkTable.unitsAt?_eq_textAt?, htext, Option.bind_some] at hunits
        cases hnumber : numberOfText? value with
        | none => simp [hnumber] at hunits
        | some number => exact ⟨_, rfl⟩
    obtain ⟨report, after, happly⟩ : ∃ report after,
        applyContribution config.writer config.writeAttempts s.links i.base.constraints
          i.routedLinks .remove = .ok (report, after) := applyContribution_isOk hadjusts
    unfold retract contribute at hr
    rw [happly] at hr
    split at hr <;> exact nomatch hr
  · rw [hw]
    exact ⟨rfl, rfl⟩

end

/-! ## Runs -/

/-- Intents that share links, hosts and reservations. -/
structure Session (ι ρ : Type) where
  stores : Stores LinkTable ρ
  intents : ι → HostIntent

/-- What happens to a session. -/
inductive Call (ι ρ : Type) where
  /-- The path service may answer differently at every call. -/
  | compile (who : ι) (paths : PathService LinkTable)
  | withdraw (who : ι)
  /-- Someone else changes the hosts and the reservations. -/
  | other (hosts : HostDirectory) (resources : ρ)

namespace Session

variable {ι ρ : Type}

/-- Some intent limits the number under the key. -/
def Limits (s : Session ι ρ) (key : String) : Prop := ∃ i, (s.intents i).Limits key

/-- What all intents together add to the number under a key of a link. -/
def share [Fintype ι] (s : Session ι ρ) (e : Endpoints) (key : String) : Int :=
  ∑ i, (s.intents i).share e key

theorem share_of_unrouted [Fintype ι] {s : Session ι ρ} (h : ∀ i, (s.intents i).paths = none)
    (e : Endpoints) (key : String) : s.share e key = 0 := by
  apply Finset.sum_eq_zero
  intro i _
  rw [HostIntent.eq_unrouted (h i)]
  exact HostIntent.share_unrouted _ e key

variable [DecidableEq ι]

/-- The session after a call for one of its intents. -/
def leave {α : Type} (s : Session ι ρ) (who : ι) (o : Outcome LinkTable ρ α) : Session ι ρ :=
  ⟨o.stores, Function.update s.intents who o.intent⟩

theorem share_leave [Fintype ι] {α : Type} (s : Session ι ρ) (who : ι)
    (o : Outcome LinkTable ρ α) (e : Endpoints) (key : String) :
    (s.leave who o).share e key =
      s.share e key + (o.intent.share e key - (s.intents who).share e key) := by
  have hshare : (fun i => ((s.leave who o).intents i).share e key) =
      Function.update (fun i => (s.intents i).share e key) who (o.intent.share e key) := by
    funext i
    show (Function.update s.intents who o.intent i).share e key = _
    by_cases hi : i = who
    · rw [hi, Function.update_self, Function.update_self]
    · rw [Function.update_of_ne hi, Function.update_of_ne hi]
  unfold share
  rw [hshare, Finset.sum_update_of_mem (Finset.mem_univ who),
    Finset.sum_eq_add_sum_sdiff_singleton_of_mem (Finset.mem_univ who)
      fun i => (s.intents i).share e key]
  omega

variable [Reservations ρ]

def step (config : CompilerConfig) (s : Session ι ρ) : Call ι ρ → Session ι ρ
  | .compile who paths =>
    s.leave who (HostRouting.compile ⟨paths, config⟩ s.stores (s.intents who))
  | .withdraw who => s.leave who (HostRouting.withdraw config s.stores (s.intents who))
  | .other hosts resources =>
    { s with stores := { s.stores with hosts := hosts, resources := resources } }

def run (config : CompilerConfig) (s : Session ι ρ) (calls : List (Call ι ρ)) : Session ι ρ :=
  calls.foldl (step config) s

/-- The contributions of a call are exact. -/
def ExactCall (config : CompilerConfig) (s : Session ι ρ) : Call ι ρ → Prop
  | .compile who paths => ExactCompile ⟨paths, config⟩ s.stores (s.intents who)
  | .withdraw who => ExactPass s.stores.links (s.intents who) .remove
  | .other .. => True

instance (config : CompilerConfig) (s : Session ι ρ) (call : Call ι ρ) :
    Decidable (s.ExactCall config call) := by
  cases call <;> unfold ExactCall <;> infer_instance

/-- The contributions of every call of a run are exact. -/
def ExactRun (config : CompilerConfig) : Session ι ρ → List (Call ι ρ) → Prop
  | _, [] => True
  | s, call :: rest => s.ExactCall config call ∧ ExactRun config (s.step config call) rest

instance decidableExactRun (config : CompilerConfig) :
    (s : Session ι ρ) → (calls : List (Call ι ρ)) → Decidable (ExactRun config s calls)
  | _, [] => .isTrue trivial
  | s, call :: rest =>
    have := decidableExactRun config (s.step config call) rest
    inferInstanceAs (Decidable (_ ∧ _))

theorem base_step (config : CompilerConfig) (s : Session ι ρ) (call : Call ι ρ) (i : ι) :
    ((s.step config call).intents i).base = (s.intents i).base := by
  cases call with
  | compile who paths =>
    show (Function.update s.intents who _ i).base = _
    by_cases hi : i = who
    · rw [hi, Function.update_self, compile_base]
    · rw [Function.update_of_ne hi]
  | withdraw who =>
    show (Function.update s.intents who _ i).base = _
    by_cases hi : i = who
    · rw [hi, Function.update_self, withdraw_base]
    · rw [Function.update_of_ne hi]
  | other hosts resources => rfl

theorem limits_step (config : CompilerConfig) (s : Session ι ρ) (call : Call ι ρ) :
    (s.step config call).Limits = s.Limits := by
  funext key
  unfold Limits HostIntent.Limits
  simp only [base_step]

theorem limits_run (config : CompilerConfig) (s : Session ι ρ) (calls : List (Call ι ρ)) :
    (s.run config calls).Limits = s.Limits := by
  induction calls generalizing s with
  | nil => rfl
  | cons call rest ih => exact (ih (s.step config call)).trans (limits_step config s call)

variable [Fintype ι]

/-- A call moves every number by the change of the sum of all shares. -/
theorem step_shift {config : CompilerConfig} {s : Session ι ρ} {call : Call ι ρ}
    (hattempts : 0 < config.writeAttempts) (hexact : s.ExactCall config call) :
    Shift s.Limits (fun e key => (s.step config call).share e key - s.share e key)
      s.stores.links (s.step config call).stores.links := by
  cases call with
  | compile who paths =>
    refine ((compile_shift hattempts hexact).mono fun key hk => ⟨who, hk⟩).congr fun e key => ?_
    show _ = (s.leave who _).share e key - s.share e key
    rw [share_leave]
    omega
  | withdraw who =>
    refine ((withdraw_shift hattempts hexact).mono fun key hk => ⟨who, hk⟩).congr fun e key => ?_
    show _ = (s.leave who _).share e key - s.share e key
    rw [share_leave]
    omega
  | other hosts resources => exact (Shift.refl _ _).congr fun e key => (Int.sub_self _).symm

theorem run_shift {config : CompilerConfig} {s : Session ι ρ} {calls : List (Call ι ρ)}
    (hattempts : 0 < config.writeAttempts) (hexact : ExactRun config s calls) :
    Shift s.Limits (fun e key => (s.run config calls).share e key - s.share e key)
      s.stores.links (s.run config calls).stores.links := by
  induction calls generalizing s with
  | nil => exact (Shift.refl _ _).congr fun e key => (Int.sub_self _).symm
  | cons call rest ih =>
    have hstep := step_shift hattempts hexact.1
    have hrest := ih hexact.2
    rw [limits_step] at hrest
    refine (hstep.trans hrest).congr fun e key => ?_
    show _ = ((s.step config call).run config rest).share e key - s.share e key
    omega

/-- Withdrawals that are exact take the paths of their intents away. -/
theorem paths_run_withdraw {config : CompilerConfig} {s : Session ι ρ} {order : List ι}
    (hattempts : 0 < config.writeAttempts) (hfinite : FiniteUnder s.Limits s.stores.links)
    (hexact : ExactRun config s (order.map .withdraw)) {i : ι}
    (hi : i ∈ order ∨ (s.intents i).paths = none) :
    ((s.run config (order.map .withdraw)).intents i).paths = none := by
  induction order generalizing s with
  | nil => exact hi.resolve_left List.not_mem_nil
  | cons who rest ih =>
    have hstep := step_shift hattempts hexact.1
    refine ih (s := s.step config (.withdraw who)) ?_ hexact.2 ?_
    · rw [limits_step]
      exact hstep.finiteUnder hfinite
    · by_cases hw : i = who
      · refine .inr ?_
        show (Function.update s.intents who _ i).paths = none
        rw [hw, Function.update_self, (withdraw_of_finiteUnder fun e key hk =>
          hfinite e key ⟨who, hk⟩).2]
        rfl
      · refine hi.imp (fun hm => (List.mem_cons.1 hm).resolve_left hw) fun hnone => ?_
        show (Function.update s.intents who _ i).paths = none
        rw [Function.update_of_ne hw]
        exact hnone

/-- Of intents that start without paths, a run of exact calls moves every number by the shares of
those that now have paths, and withdrawing all of them gives the first numbers back. -/
theorem run_conserves {config : CompilerConfig} {s : Session ι ρ} {calls : List (Call ι ρ)}
    (hattempts : 0 < config.writeAttempts) (hfresh : ∀ i, (s.intents i).paths = none)
    (hfinite : FiniteUnder s.Limits s.stores.links) (hexact : ExactRun config s calls) :
    Shift s.Limits (s.run config calls).share s.stores.links (s.run config calls).stores.links ∧
      ∀ order : List ι, (∀ i, i ∈ order) →
        ExactRun config (s.run config calls) (order.map .withdraw) →
        Shift s.Limits (fun _ _ => 0) s.stores.links
          ((s.run config calls).run config (order.map .withdraw)).stores.links := by
  have hshift := run_shift hattempts hexact
  refine ⟨hshift.congr fun e key => by rw [share_of_unrouted hfresh, Int.sub_zero],
    fun order hall hwithdraw => ?_⟩
  have hnone : ∀ i,
      (((s.run config calls).run config (order.map .withdraw)).intents i).paths = none := by
    refine fun i => paths_run_withdraw hattempts ?_ hwithdraw (.inl (hall i))
    rw [limits_run]
    exact hshift.finiteUnder hfinite
  have hback := run_shift hattempts hwithdraw
  rw [limits_run] at hback
  refine (hshift.trans hback).congr fun e key => ?_
  rw [share_of_unrouted hnone, share_of_unrouted hfresh]
  omega

/-- Two intents on one link: one is to stay below a latency of twenty, the other above five. -/
def sample : Session Bool Ledger where
  stores := ⟨LinkTable.empty.insert Sample.link, Sample.hosts, .empty⟩
  intents who := Sample.intent [.limit "latency" (if who then 20 else 5) who]

/-- Both are compiled, the first one twice. -/
def sampleCalls : List (Call Bool Ledger) :=
  [.compile true Sample.service, .compile false Sample.service, .compile true Sample.service]

/-- A latency of ten becomes one of twenty-five, and ten again when both intents are withdrawn. -/
theorem run_conserves_sample :
    0 < CompilerConfig.default.writeAttempts ∧ (∀ i, (sample.intents i).paths = none) ∧
      FiniteUnder sample.Limits sample.stores.links ∧ ExactRun .default sample sampleCalls ∧
      sample.stores.links.textAt? Sample.link.endpoints "latency" = some "10" ∧
      (sample.run .default sampleCalls).share Sample.link.endpoints "latency" =
        (20 - 5) * unitsPerOne ∧
      (sample.run .default sampleCalls).stores.links.textAt? Sample.link.endpoints "latency" =
        some "25" ∧
      Shift sample.Limits (sample.run .default sampleCalls).share sample.stores.links
        (sample.run .default sampleCalls).stores.links ∧
      ExactRun .default (sample.run .default sampleCalls) ([true, false].map .withdraw) ∧
      ((sample.run .default sampleCalls).run .default
        ([true, false].map .withdraw)).stores.links.textAt? Sample.link.endpoints "latency" =
          some "10" ∧
      Shift sample.Limits (fun _ _ => 0) sample.stores.links
        ((sample.run .default sampleCalls).run .default
          ([true, false].map .withdraw)).stores.links := by
  have hattempts : 0 < CompilerConfig.default.writeAttempts := by decide
  have hfresh : ∀ i, (sample.intents i).paths = none := fun _ => rfl
  have hfinite : FiniteUnder sample.Limits sample.stores.links :=
    finiteUnder_of_links (by decide +kernel)
  have hexact : ExactRun .default sample sampleCalls := by decide +kernel
  have hwithdraw : ExactRun .default (sample.run .default sampleCalls)
      ([true, false].map .withdraw) := by decide +kernel
  obtain ⟨hshift, hback⟩ := run_conserves hattempts hfresh hfinite hexact
  exact ⟨hattempts, hfresh, hfinite, hexact, by decide +kernel, by decide +kernel,
    by decide +kernel, hshift, hwithdraw, by decide +kernel,
    hback [true, false] (by decide) hwithdraw⟩

end Session

end HostRouting
