import HostRouting.Node.Requests
import HostRouting.Proofs.Compiler.Cases

/-!
# What requests do to a node

1. A submitted body is undecodable, or its key is taken, or the intent is compiled and kept
   (`Node.submit_cases`); a withdrawal does not find the intent, fails, or forgets it
   (`Node.withdraw_cases`).
2. A request that a node rejects leaves the node as it is (`Node.Rejects.answer_eq`).
-/

namespace HostRouting

theorem Error.status_mem (e : Error) : e.status ∈ [400, 404, 422, 500] := by
  cases e <;> simp [Error.status]

/-- What a node is asked for. -/
inductive Request where
  | submit (body : Json)
  | recompile (key : String)
  | withdraw (key : String)
  | intent (key : String)
  | listing

/-- The key that a request names. -/
def Request.key? : Request → Option String
  | .recompile key | .withdraw key | .intent key => some key
  | .submit _ | .listing => none

namespace Node

/-- The reply to a request, and the node after it. -/
def answer (n : Node) : Request → Reply × Node
  | .submit body => n.submit body
  | .recompile key => n.recompile key
  | .withdraw key => n.withdraw key
  | .intent key => (n.intent key, n)
  | .listing => (n.listing, n)

/-- The node after a series of requests. -/
def serve (n : Node) (requests : List Request) : Node :=
  requests.foldl (fun n request => (n.answer request).2) n

/-! ## Single requests -/

theorem intent_recordOf (i : HostIntent) (result : Except Error (List Installable)) :
    (recordOf i result).intent = i := by
  unfold recordOf
  split <;> rfl

theorem compileAndKeep_snd (n : Node) (status : Nat) (key : String) (i : HostIntent) :
    (n.compileAndKeep status key i).2 =
      { n with
        stores := (compile n.compiler n.stores i).stores
        intents := n.intents.insert key
          (recordOf (compile n.compiler n.stores i).intent
            (compile n.compiler n.stores i).result) } := by
  unfold compileAndKeep
  dsimp only
  split <;> rfl

/-- No error of a compilation is reported as a conflict. -/
theorem compileAndKeep_no_conflict (n : Node) (status : Nat) (key : String)
    (i : HostIntent) (text : String) :
    (n.compileAndKeep status key i).1 ≠ .refusal 409 text := by
  unfold compileAndKeep
  dsimp only
  split
  · rintro ⟨⟩
  · rename_i e _
    intro h
    have hmem := e.status_mem
    rw [(Reply.refusal.inj h).1] at hmem
    exact absurd hmem (by decide)

theorem submit_cases (n : Node) (body : Json) :
    (∃ e, HostIntent.ofJson body = .error e ∧ n.submit body = (.ofError e, n)) ∨
    (∃ i r, HostIntent.ofJson body = .ok i ∧ n.intents.get? i.base.key.value = some r ∧
      n.submit body =
        (.refusal 409 ("Intent " ++ i.base.key.value ++ " already exists"), n)) ∨
    ∃ i, HostIntent.ofJson body = .ok i ∧ n.intents.get? i.base.key.value = none ∧
      n.submit body = n.compileAndKeep 201 i.base.key.value i := by
  unfold submit
  cases HostIntent.ofJson body with
  | error e => exact .inl ⟨e, rfl, rfl⟩
  | ok i =>
    cases hget : n.intents.get? i.base.key.value with
    | some r =>
      have htaken : n.intents.contains i.base.key.value = true := by
        rw [SortedMap.contains, hget]
        rfl
      exact .inr (.inl ⟨i, r, rfl, hget, if_pos htaken⟩)
    | none =>
      have hfree : ¬n.intents.contains i.base.key.value = true := by
        rw [SortedMap.contains, hget]
        decide
      exact .inr (.inr ⟨i, rfl, hget, if_neg hfree⟩)

theorem recompile_cases (n : Node) (key : String) :
    (n.intents.get? key = none ∧ n.recompile key = (.unknownIntent key, n)) ∨
    ∃ r, n.intents.get? key = some r ∧ n.recompile key = n.compileAndKeep 200 key r.intent := by
  unfold recompile
  cases n.intents.get? key with
  | none => exact .inl ⟨rfl, rfl⟩
  | some r => exact .inr ⟨r, rfl, rfl⟩

theorem withdraw_cases (n : Node) (key : String) :
    (n.intents.get? key = none ∧ n.withdraw key = (.unknownIntent key, n)) ∨
    (∃ e, n.withdraw key = (.ofError e, n)) ∨
    ∃ r, n.intents.get? key = some r ∧
      (HostRouting.withdraw n.config.compiler n.stores r.intent).result = .ok () ∧
      n.withdraw key = (.empty 204, { n with
        stores := (HostRouting.withdraw n.config.compiler n.stores r.intent).stores
        intents := n.intents.erase key }) := by
  unfold withdraw
  cases hget : n.intents.get? key with
  | none => exact .inl ⟨rfl, rfl⟩
  | some r =>
    refine .inr ?_
    dsimp only
    rcases HostRouting.withdraw_cases n.config.compiler n.stores r.intent with
      ⟨e, -, hw⟩ | ⟨bare, -, hw⟩
    · refine .inl ⟨e, ?_⟩
      rw [hw]
      dsimp only
      rw [SortedMap.insert_of_get?_eq_some hget]
    · refine .inr ⟨r, rfl, ?_⟩
      rw [hw]
      exact ⟨rfl, rfl⟩

/-! ## Rejected requests -/

/-- The requests that a node rejects: an undecodable body, a body whose key is taken, a key without
an intent, and a withdrawal that fails. -/
inductive Rejects (n : Node) : Request → Prop
  | undecodable {body : Json} {e : Error} :
      HostIntent.ofJson body = .error e → Rejects n (.submit body)
  | conflicting {body : Json} {text : String} :
      (n.submit body).1 = .refusal 409 text → Rejects n (.submit body)
  | unknown {request : Request} {key : String} :
      request.key? = some key → n.intents.get? key = none → Rejects n request
  | failing {key : String} : (n.withdraw key).1 ≠ .empty 204 → Rejects n (.withdraw key)

/-- A rejected request changes nothing. -/
theorem Rejects.answer_eq {n : Node} {request : Request} (h : n.Rejects request) :
    (n.answer request).2 = n := by
  cases h with
  | undecodable he =>
    show (n.submit _).2 = n
    unfold submit
    rw [he]
  | @conflicting body text hconflict =>
    show (n.submit body).2 = n
    rcases n.submit_cases body with ⟨e, -, hs⟩ | ⟨i, r, -, -, hs⟩ | ⟨i, -, -, hs⟩
    · rw [hs]
    · rw [hs]
    · rw [hs] at hconflict
      exact absurd hconflict (n.compileAndKeep_no_conflict _ _ _ _)
  | @unknown _ key hkey hnone =>
    cases request with
    | submit body => exact nomatch hkey
    | listing => rfl
    | intent key => rfl
    | recompile key' =>
      obtain rfl := Option.some.inj hkey
      show (n.recompile key').2 = n
      unfold recompile
      rw [hnone]
    | withdraw key' =>
      obtain rfl := Option.some.inj hkey
      show (n.withdraw key').2 = n
      unfold withdraw
      rw [hnone]
  | @failing key hfails =>
    show (n.withdraw key).2 = n
    rcases n.withdraw_cases key with ⟨-, hw⟩ | ⟨e, hw⟩ | ⟨r, -, -, hw⟩
    · rw [hw]
    · rw [hw]
    · rw [hw] at hfails
      exact absurd rfl hfails

end Node

end HostRouting
