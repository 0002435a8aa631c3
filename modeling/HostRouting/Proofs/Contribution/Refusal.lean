import HostRouting.Proofs.Contribution.Needs

/-!
# Why a contribution is refused

A contribution is refused for one reason only: some stored link that it is to touch has, under a key
that a constraint limits, a text that is no number. The error names the key and the text, of several
the first in the order of the links and of the keys.

Main facts: `adjusted_eq_error_iff`, `pendingWrites_eq_error_iff` and `applyContribution_eq_error`.
-/

namespace HostRouting

open Std

/-! ## Annotations -/

variable {constraints : List Constraint} {d : Direction} {e : Error}

theorem adjustedText_eq_error {key value : String} :
    adjustedText constraints d key value = .error e ↔
      lastLimit? constraints key ≠ none ∧ numberOfText? value = none ∧
        e = .annotationNotNumeric key value := by
  unfold adjustedText
  cases lastLimit? constraints key with
  | none => simp
  | some limit => cases numberOfText? value <;> simp [eq_comm]

theorem adjustedEntries_eq_mapM (entries : List (String × String)) :
    adjustedEntries constraints d entries =
      entries.mapM fun entry =>
        (adjustedText constraints d entry.1 entry.2).map fun value => (entry.1, value) := by
  induction entries with
  | nil => rfl
  | cons entry rest ih =>
    rw [adjustedEntries, ih, List.mapM_cons]
    cases adjustedText constraints d entry.1 entry.2 <;> rfl

/-- Annotations are refused for the first of their keys under which a limited text is no number. -/
theorem adjusted_eq_error_iff {a : Annotations} :
    adjusted constraints d a = .error e ↔ ∃ key value, a.get? key = some value ∧
      adjustedText constraints d key value = .error e ∧
        ∀ key' value', a.get? key' = some value' → compare key' key = .lt →
          ∃ text, adjustedText constraints d key' value' = .ok text := by
  have hmap {entry : String × String} :
      (∃ y, (adjustedText constraints d entry.1 entry.2).map (fun value => (entry.1, value)) =
        .ok y) ↔ ∃ text, adjustedText constraints d entry.1 entry.2 = .ok text := by
    simp [Except.map_eq_ok_iff]
  unfold adjusted
  rw [Except.map_eq_error_iff, adjustedEntries_eq_mapM, Except.mapM_eq_error_iff]
  simp only [Except.map_eq_error_iff, hmap]
  have hincrease := a.increasing
  constructor
  · rintro ⟨before, entry, after, hsplit, hentry, hbefore⟩
    have hmem : entry ∈ a.entries := by simp [hsplit]
    refine ⟨entry.1, entry.2, SortedMap.get?_eq_some_iff.2 hmem, hentry, ?_⟩
    intro key' value' hget hlt
    have hmem' := SortedMap.get?_eq_some_iff.1 hget
    rw [hsplit] at hmem' hincrease
    obtain ⟨-, hincrease, -⟩ := List.pairwise_append.1 hincrease
    rcases List.mem_append.1 hmem' with hm | hm
    · exact hbefore _ hm
    · -- The entry and those after it do not have smaller keys.
      exfalso
      rcases List.mem_cons.1 hm with rfl | hm
      · simp at hlt
      · have hgt := (List.pairwise_cons.1 hincrease).1 _ hm
        rw [OrientedCmp.gt_of_lt hlt] at hgt
        exact nomatch hgt
  · rintro ⟨key, value, hget, herror, hfirst⟩
    obtain ⟨before, after, hsplit⟩ :=
      List.append_of_mem (SortedMap.get?_eq_some_iff.1 hget)
    refine ⟨before, (key, value), after, hsplit, herror, fun entry hm => ?_⟩
    have hmem : entry ∈ a.entries := by simp [hsplit, hm]
    rw [hsplit] at hincrease
    exact hfirst entry.1 entry.2 (SortedMap.get?_eq_some_iff.2 hmem)
      ((List.pairwise_append.1 hincrease).2.2 entry hm _ List.mem_cons_self)

theorem adjusted_eq_error {a : Annotations} (h : adjusted constraints d a = .error e) :
    ∃ key value, a.get? key = some value ∧ lastLimit? constraints key ≠ none ∧
      numberOfText? value = none ∧ e = .annotationNotNumeric key value := by
  obtain ⟨key, value, hget, herror, -⟩ := adjusted_eq_error_iff.1 h
  exact ⟨key, value, hget, adjustedText_eq_error.1 herror⟩

/-! ## Links -/

variable {σ : Type} [LinkStore σ] {store : σ} {links : List Link}

theorem neededWrite_eq_error_iff {l : Link} :
    neededWrite store constraints d l = .error e ↔ l.isEdge = false ∧
      ∃ live, LinkStore.link? store l.src l.dst = some live ∧
        adjusted constraints d live.annotations = .error e := by
  unfold neededWrite
  cases l.isEdge with
  | true => simp
  | false =>
    cases LinkStore.link? store l.src l.dst with
    | none => simp
    | some live => simp [Except.bind_eq_error_iff]

/-- A contribution is refused for the first of its links that cannot be adjusted. -/
theorem pendingWrites_eq_error_iff :
    pendingWrites store constraints d links = .error e ↔
      ∃ before l after, links = before ++ l :: after ∧
        neededWrite store constraints d l = .error e ∧
          ∀ l' ∈ before, ∃ write, neededWrite store constraints d l' = .ok write := by
  rw [pendingWrites_eq_mapM, Except.map_eq_error_iff, Except.mapM_eq_error_iff]

theorem applyContribution_eq_error_iff {writer : ProviderId} {attempts : Nat} :
    applyContribution writer attempts store constraints links d = .error e ↔
      pendingWrites store constraints d links = .error e := by
  unfold applyContribution
  simp [Except.bind_eq_error_iff]

/-- A stored link among the given ones, no attachment of a host, has this text under this key; the
key is limited and the text is no number. -/
def Unadjustable (store : σ) (constraints : List Constraint) (links : List Link)
    (key value : String) : Prop :=
  ∃ l ∈ links, l.isEdge = false ∧ ∃ live, LinkStore.link? store l.src l.dst = some live ∧
    live.annotations.get? key = some value ∧ lastLimit? constraints key ≠ none ∧
      numberOfText? value = none

/-- A contribution is refused only for a text that is no number, and the error names it. -/
theorem applyContribution_eq_error {writer : ProviderId} {attempts : Nat}
    (h : applyContribution writer attempts store constraints links d = .error e) :
    ∃ key value, Unadjustable store constraints links key value ∧
      e = .annotationNotNumeric key value := by
  obtain ⟨before, l, after, rfl, hl, -⟩ :=
    pendingWrites_eq_error_iff.1 (applyContribution_eq_error_iff.1 h)
  obtain ⟨hedge, live, hlive, h⟩ := neededWrite_eq_error_iff.1 hl
  obtain ⟨key, value, hget, hlimit, hnumber, he⟩ := adjusted_eq_error h
  exact ⟨key, value, ⟨l, by simp, hedge, live, hlive, hget, hlimit, hnumber⟩, he⟩

end HostRouting
