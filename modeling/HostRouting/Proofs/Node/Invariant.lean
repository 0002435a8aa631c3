import HostRouting.Proofs.Compiler.Holdings
import HostRouting.Proofs.Intent.RoundTrip
import HostRouting.Proofs.Node.Requests

/-!
# What holds of a node between requests

Intents, records and the ledger agree after any requests (`Node.Consistent`): a record lies under
the text of its intent's key, its outcome is one of three, and whatever is reserved under the key of
an intent belongs to a stored one.

1. A compilation leaves a record with one of the three outcomes (`settled_recordOf_compile`).
2. An intent is kept where its key is free or its own, so no record of another intent is lost and
   no reservation loses its owner (`Node.Sound.compileAndKeep`).
3. A withdrawn intent gives back everything under its key, as its quantities are finite
   (`Node.Sound.withdraw`).

Main fact: `Node.serve_consistent`.
-/

namespace HostRouting

/-- Whether a submitted body is a JSON value by its numbers. -/
def Request.wellFormed : Request → Bool
  | .submit body => body.wellFormed
  | .recompile _ | .withdraw _ | .intent _ | .listing => true

/-! ## Records -/

/-- The outcomes that a record tells of: the traffic of a host to itself needs nothing, a
compilation has recorded paths and given two installable intents, or it has failed. -/
inductive IntentRecord.Settled : IntentRecord → Prop
  | trivial {r : IntentRecord} : r.error = none → r.intent.one = r.intent.two →
      r.intent.paths = none → r.installables = [] → Settled r
  | compiled {r : IntentRecord} : r.error = none → r.intent.one ≠ r.intent.two →
      r.intent.paths.isSome = true → r.installables.length = 2 → Settled r
  | failed {r : IntentRecord} : r.error.isSome = true → r.intent.one ≠ r.intent.two →
      r.installables = [] → Settled r

section

variable {σ ρ : Type} [LinkStore σ] [Reservations ρ]

/-- The record of a compilation has one of the three outcomes. -/
theorem settled_recordOf_compile (c : Compiler σ) (s : Stores σ ρ) {i : HostIntent}
    (hpaths : i.one = i.two → i.paths = none) :
    (Node.recordOf (compile c s i).intent (compile c s i).result).Settled := by
  by_cases hends : i.one = i.two
  · have hc : compile c s i = ⟨.ok [], s, i⟩ := if_pos hends
    rw [hc]
    exact .trivial rfl hends (hpaths hends) rfl
  rcases compile_cases c s i with ⟨hsame, -⟩ | ⟨e, -, hc⟩ | ⟨bare, e, -, hc⟩ |
    ⟨bare, links, there, back, one, two, -, hc⟩
  · exact absurd hsame hends
  · rw [hc]
    exact .failed rfl hends rfl
  · rw [hc]
    exact .failed rfl hends rfl
  · rw [hc]
    unfold reroutingOutcome
    dsimp only
    cases hresult :
        (installBoth c.config.flavor s.resources (i.routed there back) there back one two).1 with
    | error e => exact .failed rfl hends rfl
    | ok installables =>
      obtain ⟨forward, reverse, rfl, -⟩ := installBoth_eq_ok hresult
      exact .compiled rfl hends rfl rfl

end

/-- An intent that is kept has no paths between a host and itself. -/
theorem IntentRecord.Settled.paths_eq_none {r : IntentRecord} (h : r.Settled)
    (hends : r.intent.one = r.intent.two) : r.intent.paths = none := by
  cases h with
  | trivial _ _ hpaths _ => exact hpaths
  | compiled _ hne _ _ => exact absurd hends hne
  | failed _ hne _ => exact absurd hends hne

/-! ## Nodes -/

namespace Node

/-- Intents, records and the ledger agree. -/
structure Consistent (n : Node) : Prop where
  /-- A record lies under the text of the key of its intent. -/
  keyed : ∀ key r, n.intents.get? key = some r → r.intent.base.key.value = key
  settled : ∀ key r, n.intents.get? key = some r → r.Settled
  /-- What is held under the key of an intent is held by an intent that is stored. -/
  owned : ∀ a ∈ n.stores.resources.allocations, ∀ key, a.consumer = .intent key →
    ∃ r, n.intents.get? key.value = some r ∧ r.intent.base.key = key

/-- A consistent node whose numbers are finite, so that what is held is given back. -/
structure Sound (n : Node) : Prop extends n.Consistent where
  finite : ∀ key r, n.intents.get? key = some r →
    ∀ c ∈ r.intent.base.constraints, c.isFinite = true
  holdsFinite : n.stores.resources.HoldsFinite

theorem asksFinite_of_constraints {c : Connectivity}
    (h : ∀ constraint ∈ c.constraints, constraint.isFinite = true) : c.AsksFinite :=
  fun _ hb => h _ (mem_constraints_of_requested hb)

/-- What another intent holds after a change was held before by an intent that is stored. -/
theorem Consistent.owner {n : Node} (hn : n.Consistent) {c : Connectivity} {l : Ledger}
    (hkept : n.stores.resources.OthersKept c l) {a : Allocation} (ha : a ∈ l.allocations)
    {key : IntentKey} (hconsumer : a.consumer = .intent key) (hother : key ≠ c.key) :
    ∃ r, n.intents.get? key.value = some r ∧ r.intent.base.key = key := by
  have hold : a ∈ n.stores.resources.allocations := by
    rw [Ledger.mem_allocations_iff, hconsumer] at ha ⊢
    rwa [hkept.holding_intent hother] at ha
  exact hn.owned a hold key hconsumer

/-- Keeping an intent where its key is free or its own leaves the node sound. -/
theorem Sound.compileAndKeep {n : Node} (hn : n.Sound) (status : Nat) {i : HostIntent}
    (hpaths : i.one = i.two → i.paths = none)
    (hfinite : ∀ c ∈ i.base.constraints, c.isFinite = true)
    (hkey : ∀ r, n.intents.get? i.base.key.value = some r → r.intent.base.key = i.base.key) :
    (n.compileAndKeep status i.base.key.value i).2.Sound := by
  have hkept := compile_othersKept n.compiler n.stores (asksFinite_of_constraints hfinite)
  have hget : ∀ key r,
      (n.intents.insert i.base.key.value (recordOf (compile n.compiler n.stores i).intent
        (compile n.compiler n.stores i).result)).get? key = some r →
      (key = i.base.key.value ∧ r = recordOf (compile n.compiler n.stores i).intent
        (compile n.compiler n.stores i).result) ∨ n.intents.get? key = some r := by
    intro key r h
    by_cases heq : key = i.base.key.value
    · rw [heq, SortedMap.get?_insert_self] at h
      exact .inl ⟨heq, (Option.some.inj h).symm⟩
    · rw [SortedMap.get?_insert_of_ne _ heq] at h
      exact .inr h
  have hrecord : (recordOf (compile n.compiler n.stores i).intent
      (compile n.compiler n.stores i).result).intent.base = i.base := by
    rw [intent_recordOf, compile_base]
  rw [compileAndKeep_snd]
  refine { keyed := ?_, settled := ?_, owned := ?_, finite := ?_, holdsFinite := ?_ }
  · intro key r h
    rcases hget key r h with ⟨rfl, rfl⟩ | h
    · rw [hrecord]
    · exact hn.keyed key r h
  · intro key r h
    rcases hget key r h with ⟨-, rfl⟩ | h
    · exact settled_recordOf_compile _ _ hpaths
    · exact hn.settled key r h
  · intro a ha key hconsumer
    by_cases hown : key = i.base.key
    · rw [hown]
      exact ⟨_, SortedMap.get?_insert_self _ _ _, by rw [hrecord]⟩
    · -- The record of another intent is not the one that is replaced.
      obtain ⟨r, hr, rfl⟩ := hn.owner hkept ha hconsumer hown
      have hne : r.intent.base.key.value ≠ i.base.key.value := fun hvalue =>
        hown (hkey r (hvalue ▸ hr))
      exact ⟨r, (SortedMap.get?_insert_of_ne _ hne _).trans hr, rfl⟩
  · intro key r h
    rcases hget key r h with ⟨-, rfl⟩ | h
    · rw [hrecord]
      exact hfinite
    · exact hn.finite key r h
  · exact hkept.finite hn.holdsFinite

theorem Sound.submit {n : Node} (hn : n.Sound) {body : Json} (hbody : body.wellFormed = true) :
    (n.submit body).2.Sound := by
  rcases n.submit_cases body with ⟨e, -, hs⟩ | ⟨i, r, -, -, hs⟩ | ⟨i, hi, hfree, hs⟩
  · rw [hs]
    exact hn
  · rw [hs]
    exact hn
  · rw [hs]
    obtain ⟨d, hd⟩ := HostIntent.built_of_ofJson hi
    refine hn.compileAndKeep 201 (fun _ => Draft.paths_of_build hd)
      (HostIntent.isFinite_of_ofJson hbody hi) fun r hr => ?_
    rw [hfree] at hr
    exact nomatch hr

theorem Sound.recompile {n : Node} (hn : n.Sound) (key : String) :
    (n.recompile key).2.Sound := by
  rcases n.recompile_cases key with ⟨-, hr⟩ | ⟨r, hget, hr⟩
  · rw [hr]
    exact hn
  · rw [hr]
    obtain rfl := hn.keyed key r hget
    refine hn.compileAndKeep 200 (hn.settled _ r hget).paths_eq_none (hn.finite _ r hget)
      fun r' hr' => ?_
    rw [hget] at hr'
    rw [← Option.some.inj hr']

theorem Sound.withdraw {n : Node} (hn : n.Sound) (key : String) : (n.withdraw key).2.Sound := by
  rcases n.withdraw_cases key with ⟨-, hw⟩ | ⟨e, hw⟩ | ⟨r, hget, hok, hw⟩
  · rw [hw]
    exact hn
  · rw [hw]
    exact hn
  rw [hw]
  have hkept := withdraw_othersKept n.config.compiler n.stores r.intent
  have hgone := holding_withdraw_self
    (fun r hr => hn.holdsFinite r (Ledger.mem_everything_of_holding hr)) hok
  have hrest : ∀ k r', (n.intents.erase key).get? k = some r' → n.intents.get? k = some r' := by
    intro k r' h
    by_cases hk : k = key
    · rw [hk, SortedMap.get?_erase_self] at h
      exact nomatch h
    · rwa [SortedMap.get?_erase_of_ne _ hk] at h
  refine { keyed := ?_, settled := ?_, owned := ?_, finite := ?_, holdsFinite := ?_ }
  · exact fun k r' h => hn.keyed k r' (hrest k r' h)
  · exact fun k r' h => hn.settled k r' (hrest k r' h)
  · intro a ha k hconsumer
    have hother : k ≠ r.intent.base.key := by
      rintro rfl
      rw [Ledger.mem_allocations_iff, hconsumer, hgone] at ha
      exact absurd ha List.not_mem_nil
    obtain ⟨r', hr', rfl⟩ := hn.owner hkept ha hconsumer hother
    have hne : r'.intent.base.key.value ≠ key := by
      rintro rfl
      rw [hget] at hr'
      exact hother (congrArg (·.intent.base.key) (Option.some.inj hr').symm)
    exact ⟨r', (SortedMap.get?_erase_of_ne _ hne).trans hr', rfl⟩
  · exact fun k r' h => hn.finite k r' (hrest k r' h)
  · exact hkept.finite hn.holdsFinite

/-! ## Series of requests -/

theorem Sound.answer {n : Node} (hn : n.Sound) {request : Request}
    (h : request.wellFormed = true) : (n.answer request).2.Sound := by
  cases request with
  | submit body => exact hn.submit h
  | recompile key => exact hn.recompile key
  | withdraw key => exact hn.withdraw key
  | intent key => exact hn
  | listing => exact hn

theorem Sound.serve {n : Node} (hn : n.Sound) {requests : List Request}
    (h : ∀ request ∈ requests, request.wellFormed = true) : (n.serve requests).Sound := by
  induction requests generalizing n with
  | nil => exact hn
  | cons request rest ih =>
    exact ih (hn.answer (h request List.mem_cons_self))
      fun later hlater => h later (List.mem_cons_of_mem _ hlater)

/-- A node with a topology and no intents is sound. -/
theorem sound_install (config : NodeConfig) (topology : Topology) :
    ((start config).install topology).Sound := by
  have hcapacities : ∀ (capacities : List PortCapacity) (l : Ledger),
      (capacities.foldl installCapacity l).holdings = l.holdings := by
    intro capacities
    induction capacities with
    | nil => exact fun l => rfl
    | cons c rest ih => exact fun l => ih (installCapacity l c)
  have hholdings : ((start config).install topology).stores.resources.holdings = .empty :=
    hcapacities topology.capacities .empty
  refine { keyed := ?_, settled := ?_, owned := ?_, finite := ?_, holdsFinite := ?_ }
  · exact fun key r h => nomatch h
  · exact fun key r h => nomatch h
  · intro a ha
    unfold Ledger.allocations at ha
    rw [hholdings] at ha
    exact nomatch ha
  · exact fun key r h => nomatch h
  · intro r hr
    unfold Ledger.everything at hr
    rw [hholdings] at hr
    exact nomatch hr

/-- After any requests to a node that had a topology and no intents its state is consistent, and
the requests that it rejects leave it as it is. -/
theorem serve_consistent (config : NodeConfig) (topology : Topology) {requests : List Request}
    (h : ∀ request ∈ requests, request.wellFormed = true) :
    (((start config).install topology).serve requests).Consistent ∧
      ∀ request, (((start config).install topology).serve requests).Rejects request →
        ((((start config).install topology).serve requests).answer request).2 =
          ((start config).install topology).serve requests :=
  ⟨((sound_install config topology).serve h).toConsistent, fun _ h => h.answer_eq⟩

end Node

/-! ## A small node -/

namespace Sample

def devicePort (device : String) (port : PortNumber) : ConnectPoint := ⟨.device ⟨device⟩, port⟩

/-- Two devices with a host each and a cable between them. -/
def topology : Topology where
  hosts := [(Host.named one (mac 1)).locatedAt (devicePort "s1" 3),
    (Host.named two (mac 2)).locatedAt (devicePort "s2" 3)]
  links := [⟨.core, devicePort "s1" 1, devicePort "s2" 1, .direct, .active, false, .empty⟩,
    ⟨.core, devicePort "s2" 1, devicePort "s1" 1, .direct, .active, false, .empty⟩]
  capacities := [⟨⟨"s1"⟩, 1, ⟨15⟩⟩]

def submission (app one two : String) (constraints : List Json) : Request :=
  .submit (.object [("one", .text one), ("two", .text two), ("app_id", .text app),
    ("constraints", .array constraints)])

/-- One intent is routed, one has no host at its end and one is withdrawn; the other requests are
rejected. -/
def requests : List Request :=
  [submission "a" "h1" "h2" [.object [("type", .text "bandwidth"), ("bandwidth", .integer 5)]],
    submission "b" "h1" "h2" [], .submit (.text "intent"), submission "a" "h1" "h1" [],
    submission "a" "h1" "h3" [], .recompile "h1h2[]", .withdraw "h1h1[]", .withdraw "h2h1[]"]

def node : Node := ((Node.start .default).install topology).serve requests

end Sample

theorem Node.serve_consistent_sample :
    (∀ request ∈ Sample.requests, request.wellFormed = true) ∧
      Sample.node.Consistent ∧ Sample.node.Rejects (.withdraw "h2h1[]") ∧
      (Sample.node.answer (.withdraw "h2h1[]")).2 = Sample.node ∧
      Sample.node.intents.keys = ["h1h2[]", "h1h3[]"] ∧
      Sample.node.stores.resources.allocations.length = 4 := by
  have hwell : ∀ request ∈ Sample.requests, request.wellFormed = true := by decide +kernel
  obtain ⟨hconsistent, hrejects⟩ := serve_consistent .default Sample.topology hwell
  obtain ⟨hkeys, hnone, hallocations⟩ : Sample.node.intents.keys = ["h1h2[]", "h1h3[]"] ∧
      (Sample.node.intents.get? "h2h1[]").isNone = true ∧
      Sample.node.stores.resources.allocations.length = 4 := by decide +kernel
  have hrejected : Sample.node.Rejects (.withdraw "h2h1[]") :=
    .unknown rfl (Option.isNone_iff_eq_none.1 hnone)
  exact ⟨hwell, hconsistent, hrejected, hrejects _ hrejected, hkeys, hallocations⟩

end HostRouting
