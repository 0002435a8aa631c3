import HostRouting.Proofs.Node.Invariant

/-!
# What tells the intents of a node apart

An intent is identified by its application and a text, and the ledger accounts by both. A node
files intents under the text alone, so a submission conflicts with an intent of another application
that has the same text.

1. A submission conflicts just when an intent with the same text is stored, and otherwise it is
   compiled and kept beside all others (`Node.submit_conflict_iff`).
2. The whole key decides just when no other application has an intent with that text there.
-/

namespace HostRouting

theorem IntentKey.ext {a b : IntentKey} (happ : a.app = b.app) (hvalue : a.value = b.value) :
    a = b := by
  cases a; cases b
  simp_all

namespace Node

/-- An intent with the given key is stored. -/
def Stores (n : Node) (key : IntentKey) : Prop :=
  ∃ k r, n.intents.get? k = some r ∧ r.intent.base.key = key

/-- The reply to a submission is that there is such an intent already. -/
def Conflict (n : Node) (body : Json) : Prop := ∃ text, (n.submit body).1 = .refusal 409 text

/-- A submission conflicts just when there is an intent under the text of its key. -/
theorem conflict_iff_isSome {n : Node} {body : Json} {i : HostIntent}
    (hi : HostIntent.ofJson body = .ok i) :
    n.Conflict body ↔ (n.intents.get? i.base.key.value).isSome = true := by
  unfold Conflict
  rcases n.submit_cases body with ⟨e, he, -⟩ | ⟨j, r, hj, hget, hs⟩ | ⟨j, hj, hget, hs⟩
  · rw [hi] at he
    exact nomatch he
  · obtain rfl := Except.ok.inj (hi.symm.trans hj)
    rw [hs, hget]
    exact iff_of_true ⟨_, rfl⟩ rfl
  · obtain rfl := Except.ok.inj (hi.symm.trans hj)
    rw [hs, hget]
    refine iff_of_false ?_ (by decide)
    rintro ⟨text, h⟩
    exact n.compileAndKeep_no_conflict _ _ _ _ h

/-- A submission without a conflict is compiled and kept. -/
theorem submit_of_no_conflict {n : Node} {body : Json} {i : HostIntent}
    (hi : HostIntent.ofJson body = .ok i) (h : ¬n.Conflict body) :
    n.submit body = n.compileAndKeep 201 i.base.key.value i := by
  rcases n.submit_cases body with ⟨e, he, -⟩ | ⟨j, r, -, -, hs⟩ | ⟨j, hj, -, hs⟩
  · rw [hi] at he
    exact nomatch he
  · exact absurd ⟨_, congrArg Prod.fst hs⟩ h
  · obtain rfl := Except.ok.inj (hi.symm.trans hj)
    exact hs

/-- Keeping an intent under a free text keeps all other records in reach. -/
theorem intent_compileAndKeep {n : Node} {status : Nat} {key k : String} {i : HostIntent}
    {r : IntentRecord} (hfree : (n.intents.get? key).isSome = false)
    (hr : n.intents.get? k = some r) :
    (n.compileAndKeep status key i).2.intents.get? k = some r ∧
      (n.compileAndKeep status key i).2.intent k = .content 200 (Json.encode r) := by
  have hne : k ≠ key := by
    rintro rfl
    rw [hr] at hfree
    exact nomatch hfree
  have hget : (n.compileAndKeep status key i).2.intents.get? k = some r := by
    rw [compileAndKeep_snd]
    exact (SortedMap.get?_insert_of_ne _ hne _).trans hr
  refine ⟨hget, ?_⟩
  unfold intent
  rw [hget]

/-- Where intents lie under the texts of their keys, one with a given text lies under that text. -/
theorem Consistent.isSome_get?_iff {n : Node} (hn : n.Consistent) (text : String) :
    (n.intents.get? text).isSome = true ↔
      ∃ k r, n.intents.get? k = some r ∧ r.intent.base.key.value = text := by
  constructor
  · intro h
    obtain ⟨r, hr⟩ := Option.isSome_iff_exists.1 h
    exact ⟨text, r, hr, hn.keyed text r hr⟩
  · rintro ⟨k, r, hr, rfl⟩
    rw [hn.keyed k r hr, hr]
    rfl

/-- A submission conflicts just when a stored intent has the same text in its key, whatever its
application; otherwise the intent is compiled and kept, and all others stay in reach. So it is the
whole key that decides just when no intent of another application has that text. -/
theorem submit_conflict_iff (config : NodeConfig) (topology : Topology) {requests : List Request}
    (h : ∀ request ∈ requests, request.wellFormed = true) {n : Node}
    (hn : n = ((start config).install topology).serve requests) {body : Json} {i : HostIntent}
    (hi : HostIntent.ofJson body = .ok i) :
    (n.Conflict body ↔
      ∃ k r, n.intents.get? k = some r ∧ r.intent.base.key.value = i.base.key.value) ∧
    (¬n.Conflict body →
      n.submit body = n.compileAndKeep 201 i.base.key.value i ∧
      (n.submit body).2.Stores i.base.key ∧
      ∀ k r, n.intents.get? k = some r →
        (n.submit body).2.intents.get? k = some r ∧
          (n.submit body).2.intent k = .content 200 (Json.encode r)) ∧
    ((n.Conflict body ↔ n.Stores i.base.key) ↔
      ∀ k r, n.intents.get? k = some r → r.intent.base.key.value = i.base.key.value →
        r.intent.base.key.app = i.base.key.app) := by
  have hsound : n.Sound := hn ▸ (sound_install config topology).serve h
  have hconflict := (conflict_iff_isSome (n := n) hi).trans (hsound.isSome_get?_iff _)
  refine ⟨hconflict, fun hfree => ?_, ?_⟩
  · have hsubmit := submit_of_no_conflict hi hfree
    have hnone : (n.intents.get? i.base.key.value).isSome = false :=
      Bool.eq_false_iff.2 fun hsome => hfree ((conflict_iff_isSome hi).2 hsome)
    refine ⟨hsubmit, ?_, fun k r hr => ?_⟩
    · rw [hsubmit, compileAndKeep_snd]
      exact ⟨_, _, SortedMap.get?_insert_self _ _ _, by rw [intent_recordOf, compile_base]⟩
    · rw [hsubmit]
      exact intent_compileAndKeep hnone hr
  · rw [hconflict]
    constructor
    · intro hiff k r hr htext
      obtain ⟨k', r', hr', hkey⟩ := hiff.1 ⟨k, r, hr, htext⟩
      -- Both lie under the same text.
      have hk : k' = k := by
        rw [← hsound.keyed k r hr, ← hsound.keyed k' r' hr', hkey, htext]
      rw [hk, hr] at hr'
      rw [Option.some.inj hr', hkey]
    · intro hsame
      constructor
      · rintro ⟨k, r, hr, htext⟩
        exact ⟨k, r, hr, IntentKey.ext (hsame k r hr htext) htext⟩
      · rintro ⟨k, r, hr, hkey⟩
        exact ⟨k, r, hr, congrArg IntentKey.value hkey⟩

end Node

namespace Sample

/-- A request for traffic between two hosts that another application makes as well. -/
def sharedBody (app : String) : Json :=
  .object [("one", .text "h1"), ("two", .text "h2"), ("app_id", .text app)]

/-- A node without a topology to which the first application has submitted the request. -/
def sharedNode : Node :=
  ((Node.start .default).install ⟨[], [], []⟩).serve [.submit (sharedBody "a")]

end Sample

theorem Node.submit_conflict_iff_shared :
    (∀ request ∈ [Request.submit (Sample.sharedBody "a")], request.wellFormed = true) ∧
      (∃ i, HostIntent.ofJson (Sample.sharedBody "b") = .ok i ∧
        Sample.sharedNode.Conflict (Sample.sharedBody "b") ∧
        ¬(Sample.sharedNode.Conflict (Sample.sharedBody "b") ↔
          Sample.sharedNode.Stores i.base.key)) := by
  have hwell : ∀ request ∈ [Request.submit (Sample.sharedBody "a")],
      request.wellFormed = true := by decide +kernel
  have hkey : (HostIntent.ofJson (Sample.sharedBody "b")).map (·.base.key) =
      .ok ⟨⟨"b"⟩, "h1h2[]"⟩ := by decide +kernel
  obtain ⟨i, hi, hikey⟩ := Except.map_eq_ok_iff.1 hkey
  have hstored : (Sample.sharedNode.intents.get? "h1h2[]").map (·.intent.base.key) =
      some ⟨⟨"a"⟩, "h1h2[]"⟩ := by decide +kernel
  obtain ⟨r, hr, hrkey⟩ := Option.map_eq_some_iff.1 hstored
  obtain ⟨hconflict, -, hwhole⟩ :=
    submit_conflict_iff .default ⟨[], [], []⟩ hwell (n := Sample.sharedNode) rfl hi
  refine ⟨hwell, i, hi, hconflict.2 ⟨_, r, hr, by rw [hrkey, hikey]⟩, fun hiff => ?_⟩
  have happ := hwhole.1 hiff _ r hr (by rw [hrkey, hikey])
  rw [hrkey, hikey] at happ
  exact absurd happ (by decide)

/-- The request of the second application conflicts, though no intent with its key is stored. -/
theorem Node.conflict_of_other_application :
    ∃ i, HostIntent.ofJson (Sample.sharedBody "b") = .ok i ∧
      Sample.sharedNode.Conflict (Sample.sharedBody "b") ∧
      ¬Sample.sharedNode.Stores i.base.key := by
  have hkey : (HostIntent.ofJson (Sample.sharedBody "b")).map (·.base.key) =
      .ok ⟨⟨"b"⟩, "h1h2[]"⟩ := by decide +kernel
  have htaken : (Sample.sharedNode.intents.get? "h1h2[]").isSome = true := by decide +kernel
  have hothers : ∀ e ∈ Sample.sharedNode.intents.entries,
      e.2.intent.base.key ≠ ⟨⟨"b"⟩, "h1h2[]"⟩ := by decide +kernel
  obtain ⟨i, hi, hikey⟩ := Except.map_eq_ok_iff.1 hkey
  refine ⟨i, hi, (conflict_iff_isSome hi).2 (by rw [hikey]; exact htaken), ?_⟩
  rintro ⟨k, r, hr, hrkey⟩
  exact hothers _ (SortedMap.get?_eq_some_iff.1 hr) (hrkey.trans hikey)

end HostRouting
