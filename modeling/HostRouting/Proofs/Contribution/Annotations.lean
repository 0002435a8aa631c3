import HostRouting.Compiler.Contribution
import HostRouting.Proofs.Except
import HostRouting.Proofs.SortedMap

/-!
# Annotations after a contribution

A contribution keeps the keys of annotations and puts the adjusted text under each of them. It is
refused only when some text that is to be adjusted is no number.

Main facts: `get?_adjusted`, `adjusted_isOk` and `applyContribution_of_unlimited`.
-/

namespace HostRouting

open Std

/-! ## Texts -/

theorem adjustedText_of_unlimited {constraints : List Constraint} {key : String}
    (h : lastLimit? constraints key = none) (d : Direction) (value : String) :
    adjustedText constraints d key value = .ok value := by
  unfold adjustedText
  rw [h]

/-- A limited text is adjusted when it is a number, and then it is the text of the number that the
contribution makes of it. -/
theorem adjustedText_of_limited {constraints : List Constraint} {key : String}
    {threshold : Binary64} {upper : Bool}
    (h : lastLimit? constraints key = some (threshold, upper)) {d : Direction}
    {value text : String} :
    adjustedText constraints d key value = .ok text ↔ ∃ number,
      numberOfText? value = some number ∧ text = (adjustedNumber d threshold upper number).text := by
  unfold adjustedText
  rw [h]
  cases numberOfText? value <;> simp [eq_comm]

/-! ## Entries -/

theorem adjustedEntries_cons_iff {constraints : List Constraint} {d : Direction}
    {key value : String} {rest entries : List (String × String)} :
    adjustedEntries constraints d ((key, value) :: rest) = .ok entries ↔
      ∃ value' rest', adjustedText constraints d key value = .ok value' ∧
        adjustedEntries constraints d rest = .ok rest' ∧ entries = (key, value') :: rest' := by
  rw [adjustedEntries, Except.bind_eq_ok_iff]
  constructor
  · rintro ⟨value', hv, h⟩
    obtain ⟨rest', hr, h⟩ := Except.bind_eq_ok_iff.1 h
    exact ⟨value', rest', hv, hr, (Except.ok.inj h).symm⟩
  · rintro ⟨value', rest', hv, hr, rfl⟩
    exact ⟨value', hv, Except.bind_eq_ok_iff.2 ⟨rest', hr, rfl⟩⟩

theorem keys_adjustedEntries {constraints : List Constraint} {d : Direction}
    {entries entries' : List (String × String)}
    (h : adjustedEntries constraints d entries = .ok entries') :
    entries'.map Prod.fst = entries.map Prod.fst := by
  induction entries generalizing entries' with
  | nil => rw [← Except.ok.inj h]
  | cons e rest ih =>
    obtain ⟨value', rest', -, hr, rfl⟩ := adjustedEntries_cons_iff.1 h
    rw [List.map_cons, List.map_cons, ih hr]

theorem increase_of_keys {κ ν : Type} [Ord κ] {l l' : List (κ × ν)}
    (h : l'.map Prod.fst = l.map Prod.fst) (hl : KeysIncrease l) : KeysIncrease l' := by
  have hp : (l.map Prod.fst).Pairwise fun a b => compare a b = .lt := List.pairwise_map.2 hl
  rw [← h] at hp
  exact List.pairwise_map.1 hp

theorem entries_of_adjusted {constraints : List Constraint} {d : Direction} {a b : Annotations}
    (h : adjusted constraints d a = .ok b) :
    adjustedEntries constraints d a.entries = .ok b.entries := by
  obtain ⟨entries, he, rfl⟩ := Except.map_eq_ok_iff.1 h
  rw [SortedMap.entries_ofList (increase_of_keys (keys_adjustedEntries he) a.increasing)]
  exact he

theorem lookupEntry_adjustedEntries {constraints : List Constraint} {d : Direction}
    {entries entries' : List (String × String)}
    (h : adjustedEntries constraints d entries = .ok entries') (key : String) :
    (SortedMap.lookupEntry key entries = none ∧ SortedMap.lookupEntry key entries' = none) ∨
      ∃ value value', SortedMap.lookupEntry key entries = some value ∧
        adjustedText constraints d key value = .ok value' ∧
        SortedMap.lookupEntry key entries' = some value' := by
  induction entries generalizing entries' with
  | nil =>
    rw [← Except.ok.inj h]
    exact .inl ⟨rfl, rfl⟩
  | cons e rest ih =>
    obtain ⟨value', rest', hv, hr, rfl⟩ := adjustedEntries_cons_iff.1 h
    unfold SortedMap.lookupEntry
    by_cases hk : compare key e.1 = .eq
    · rw [if_pos hk, if_pos hk]
      have : key = e.1 := LawfulEqCmp.eq_of_compare hk
      exact .inr ⟨e.2, value', rfl, this ▸ hv, rfl⟩
    · rw [if_neg hk, if_neg hk]
      exact ih hr

/-! ## Look-ups -/

/-- A contribution keeps the keys and adjusts the text under each of them. -/
theorem get?_adjusted {constraints : List Constraint} {d : Direction} {a b : Annotations}
    (h : adjusted constraints d a = .ok b) (key : String) :
    (a.get? key = none ∧ b.get? key = none) ∨
      ∃ value value', a.get? key = some value ∧
        adjustedText constraints d key value = .ok value' ∧ b.get? key = some value' :=
  lookupEntry_adjustedEntries (entries_of_adjusted h) key

theorem adjustedEntries_isOk {constraints : List Constraint} {d : Direction}
    {entries : List (String × String)}
    (h : ∀ e ∈ entries, ∃ value, adjustedText constraints d e.1 e.2 = .ok value) :
    ∃ entries', adjustedEntries constraints d entries = .ok entries' := by
  induction entries with
  | nil => exact ⟨[], rfl⟩
  | cons e rest ih =>
    obtain ⟨value', hv⟩ := h e List.mem_cons_self
    obtain ⟨rest', hr⟩ := ih fun a ha => h a (List.mem_cons_of_mem _ ha)
    exact ⟨(e.1, value') :: rest', adjustedEntries_cons_iff.2 ⟨value', rest', hv, hr, rfl⟩⟩

/-- Annotations whose texts can all be adjusted can be adjusted. -/
theorem adjusted_isOk {constraints : List Constraint} {d : Direction} {a : Annotations}
    (h : ∀ key value, a.get? key = some value →
      ∃ value', adjustedText constraints d key value = .ok value') :
    ∃ b, adjusted constraints d a = .ok b := by
  obtain ⟨entries, he⟩ := adjustedEntries_isOk fun e hm =>
    h e.1 e.2 (SortedMap.get?_eq_some_iff.2 hm)
  exact ⟨.ofList entries, Except.map_eq_ok_iff.2 ⟨entries, he, rfl⟩⟩

/-! ## Constraints without limits -/

theorem lastLimit?_of_unlimited {constraints : List Constraint}
    (h : ∀ k ∈ constraints, k.annotationLimit? = none) (key : String) :
    lastLimit? constraints key = none := by
  have hnone : constraints.filterMap Constraint.annotationLimit? = [] :=
    List.filterMap_eq_nil_iff.2 h
  unfold lastLimit?
  rw [hnone]
  rfl

theorem adjustedEntries_of_unlimited {constraints : List Constraint}
    (h : ∀ key, lastLimit? constraints key = none) (d : Direction)
    (entries : List (String × String)) :
    adjustedEntries constraints d entries = .ok entries := by
  induction entries with
  | nil => rfl
  | cons e rest ih =>
    exact adjustedEntries_cons_iff.2 ⟨e.2, rest, adjustedText_of_unlimited (h e.1) d e.2, ih, rfl⟩

/-- Without limits a contribution changes no annotations. -/
theorem adjusted_of_unlimited {constraints : List Constraint}
    (h : ∀ key, lastLimit? constraints key = none) (d : Direction) (a : Annotations) :
    adjusted constraints d a = .ok a := by
  unfold adjusted
  rw [adjustedEntries_of_unlimited h]
  exact congrArg Except.ok (SortedMap.ext_entries (SortedMap.entries_ofList a.increasing))

/-- Without limits a contribution writes nothing, whatever the store does. -/
theorem applyContribution_of_unlimited {σ : Type} [LinkStore σ] {constraints : List Constraint}
    (h : ∀ key, lastLimit? constraints key = none) (writer : ProviderId) (attempts : Nat)
    (store : σ) (links : List Link) (d : Direction) :
    applyContribution writer attempts store constraints links d = .ok (⟨0, []⟩, store) := by
  have hwrites : pendingWrites store constraints d links = .ok [] := by
    induction links with
    | nil => rfl
    | cons l rest ih =>
      rw [pendingWrites, ih]
      split
      · rfl
      · split
        · rfl
        · rw [adjusted_of_unlimited h]
          exact congrArg Except.ok (if_pos rfl)
  exact Except.bind_eq_ok_iff.2 ⟨[], hwrites, rfl⟩

end HostRouting
