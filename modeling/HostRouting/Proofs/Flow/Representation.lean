import HostRouting.Proofs.Flow.Exchange
import HostRouting.Proofs.Flow.RoundTrip

/-!
# What selectors hold

A selector is made by calls that add a criterion or drop the one of a type, or from a list, which
adds its criteria in turn. Every call puts a criterion under its own type, so the maps that calls
make are those that hold each criterion there, and every selector has one of them (`obtained_iff`).
What is found under a type is what the last call about it has left (`criterion?_run`).

Main fact: `Selector.obtained_lawful`, with the facts of every selector (`Lawful`) and the list
that a selector is made from.
-/

namespace HostRouting

namespace Selector

/-! ## Calls -/

/-- A call on a selector in the making. To match a field is to add its criterion. -/
inductive Call where
  | add (c : Criterion)
  | remove (t : CriterionType)
deriving DecidableEq

namespace Call

/-- The type that the call is about. -/
def type : Call → CriterionType
  | add c => c.type
  | remove t => t

/-- What the call leaves under its type. -/
def outcome? : Call → Option Criterion
  | add c => some c
  | remove _ => none

/-- What the call does to a map of criteria. -/
def write (m : SortedMap CriterionType Criterion) : Call → SortedMap CriterionType Criterion
  | add c => m.insert c.type c
  | remove t => m.erase t

end Call

def perform (s : Selector) : Call → Selector
  | .add c => s.add c
  | .remove t => s.remove t

/-- Performs the calls in turn. -/
def run (s : Selector) (calls : List Call) : Selector := calls.foldl perform s

variable {s s' : Selector} {m : SortedMap CriterionType Criterion} {criteria : List Criterion}

theorem byKey_run (calls : List Call) (s : Selector) :
    (s.run calls).criteria.byKey = calls.foldl Call.write s.criteria.byKey := by
  induction calls generalizing s with
  | nil => rfl
  | cons call calls ih =>
    have hstep : (s.perform call).criteria.byKey = call.write s.criteria.byKey := by
      cases call <;> rfl
    rw [List.foldl_cons, ← hstep]
    exact ih (s.perform call)

theorem criterion?_perform (s : Selector) (call : Call) (t : CriterionType) :
    (s.perform call).criterion? t = if call.type = t then call.outcome? else s.criterion? t := by
  split
  next h =>
    subst h
    cases call with
    | add c => exact s.criterion?_add_self c
    | remove t => exact s.criterion?_remove_self t
  next h =>
    cases call with
    | add c => exact s.criterion?_add_of_ne (Ne.symm h)
    | remove u => exact s.criterion?_remove_of_ne (Ne.symm h)

/-- The last call about a type decides what is found under it. -/
theorem criterion?_run (calls : List Call) (s : Selector) (t : CriterionType) :
    (s.run calls).criterion? t =
      match (calls.filter (·.type = t)).getLast? with
      | some call => call.outcome?
      | none => s.criterion? t := by
  induction calls generalizing s with
  | nil => rfl
  | cons call calls ih =>
    show ((s.perform call).run calls).criterion? t = _
    rw [ih, criterion?_perform, List.filter_cons]
    by_cases h : call.type = t
    · rw [if_pos h, if_pos (decide_eq_true h), List.getLast?_cons]
      cases (calls.filter (·.type = t)).getLast? <;> rfl
    · rw [if_neg h, if_neg (by simpa using h)]

/-! ## Lists -/

/-- The last criterion of a type in a list. -/
def lastOf? (t : CriterionType) (criteria : List Criterion) : Option Criterion :=
  (criteria.filter (·.type = t)).getLast?

/-- A list is converted by adding its criteria in turn. -/
theorem ofList_eq_run (criteria : List Criterion) :
    ofList criteria = empty.run (criteria.map .add) := by
  unfold ofList run
  rw [List.foldl_map]
  rfl

theorem criterion?_ofList (criteria : List Criterion) (t : CriterionType) :
    (ofList criteria).criterion? t = lastOf? t criteria := by
  unfold ofList lastOf?
  rw [criterion?_foldl_add, criterion?_empty, Option.or_none, List.getLast?_filter]

/-- Selectors in which the same is found are the same. -/
theorem ext_criterion? (h : ∀ t, s.criterion? t = s'.criterion? t) : s = s' :=
  congrArg Selector.mk (Catalog.ext_get? h)

theorem ofList_eq_iff {criteria' : List Criterion} :
    ofList criteria = ofList criteria' ↔ ∀ t, lastOf? t criteria = lastOf? t criteria' := by
  simp only [← criterion?_ofList]
  exact ⟨fun h t => by rw [h], ext_criterion?⟩

/-! ## The maps that calls make -/

/-- The maps that come from the empty one by calls. Taking up a selector again goes on from its
map. -/
inductive Obtained : SortedMap CriterionType Criterion → Prop
  | empty : Obtained .empty
  | call {m : SortedMap CriterionType Criterion} (h : Obtained m) (call : Call) :
    Obtained (call.write m)

/-- Every criterion is held under its own type. -/
def Keyed (m : SortedMap CriterionType Criterion) : Prop := ∀ e ∈ m.entries, e.2.type = e.1

theorem Keyed.write (h : Keyed m) (call : Call) : Keyed (call.write m) := by
  cases call with
  | add c => exact (Selector.add ⟨⟨m, h⟩⟩ c).criteria.keyed
  | remove t => exact (Selector.remove ⟨⟨m, h⟩⟩ t).criteria.keyed

theorem Obtained.keyed (h : Obtained m) : Keyed m := by
  induction h with
  | empty => exact nofun
  | call _ call ih => exact ih.write call

theorem Obtained.foldl_write (h : Obtained m) (calls : List Call) :
    Obtained (calls.foldl Call.write m) := by
  induction calls generalizing m with
  | nil => exact h
  | cons call calls ih => exact ih (h.call call)

/-- The map of every selector is made by calls that add what the selector lists. -/
theorem obtained (s : Selector) : Obtained s.criteria.byKey := by
  rw [← s.ofList_toList, ofList_eq_run, byKey_run]
  exact Obtained.empty.foldl_write _

theorem obtained_iff : Obtained m ↔ Keyed m :=
  ⟨Obtained.keyed, fun h => obtained ⟨⟨m, h⟩⟩⟩

/-! ## Every selector -/

/-- Some protocol is asked for just when there is a criterion for it. -/
theorem isSome_ipProtocol? (s : Selector) :
    s.ipProtocol?.isSome = (s.criterion? .ipProto).isSome := by
  rw [← Option.not_isNone, ← Option.not_isNone, isNone_ipProtocol?]

/-- What a selector tells of its criteria. -/
structure Lawful (s : Selector) : Prop where
  /-- What is found under a type has this type. -/
  found : ∀ t c, s.criterion? t = some c → c.type = t
  /-- The criteria are listed in the order of their types, no two of one type. -/
  increasing : s.toList.Pairwise fun c d => compare c.type d.type = .lt
  /-- The listed criteria are those that are found. -/
  listed : ∀ c, c ∈ s.toList ↔ s.criterion? c.type = some c
  protocol : s.ipProtocol?.isSome = (s.criterion? .ipProto).isSome
  /-- The selector is made again from its list. -/
  again : ofList s.toList = s

theorem lawful (s : Selector) : s.Lawful where
  found _ _ := type_of_criterion?
  increasing := s.criteria.increasing_toList
  listed _ := mem_toList_iff
  protocol := s.isSome_ipProtocol?
  again := s.ofList_toList

/-- The maps that calls make are those that hold each criterion under its own type, and they are
the maps of selectors. In a selector the last call about a type decides, and in one that is made
from a list the last criterion of a type. -/
theorem obtained_lawful :
    (∀ m, Obtained m ↔ ∀ e ∈ m.entries, e.2.type = e.1) ∧
    (∀ s : Selector, Obtained s.criteria.byKey ∧ s.Lawful) ∧
    (∀ (s : Selector) (calls : List Call),
      (s.run calls).criteria.byKey = calls.foldl Call.write s.criteria.byKey ∧
      ∀ t, (s.run calls).criterion? t =
        match (calls.filter (·.type = t)).getLast? with
        | some call => call.outcome?
        | none => s.criterion? t) ∧
    (∀ criteria, ofList criteria = empty.run (criteria.map .add) ∧
      ∀ t, (ofList criteria).criterion? t = lastOf? t criteria) ∧
    ∀ criteria criteria', ofList criteria = ofList criteria' ↔
      ∀ t, lastOf? t criteria = lastOf? t criteria' :=
  ⟨fun _ => obtained_iff, fun s => ⟨s.obtained, s.lawful⟩,
    fun s calls => ⟨byKey_run calls s, criterion?_run calls s⟩,
    fun criteria => ⟨ofList_eq_run criteria, criterion?_ofList criteria⟩,
    fun _ _ => ofList_eq_iff⟩

/-- Matching a field twice keeps the second value, and dropping another one changes nothing. -/
example :
    (empty.run [.add (.tcpDst 80), .add (.ipProto 6), .add (.tcpDst 443), .remove .udpDst]).toList =
      [.ipProto 6, .tcpDst 443] := by
  decide

end Selector

end HostRouting
