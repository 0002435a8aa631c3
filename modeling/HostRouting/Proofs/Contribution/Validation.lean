import HostRouting.Proofs.Contribution.InPlace
import HostRouting.Proofs.Contribution.Limits
import HostRouting.Proofs.Contribution.Refusal

/-!
# A contribution is checked before it is written

1. A link stands in the way of a contribution when a text that is to be adjusted on its stored copy
   is no number (`NotNumeric`); a contribution is refused exactly when some link does.
2. The error names the first such text, in the order of the links and on each link in the order of
   the keys (`FirstNotNumeric`).
3. On a store that changes in place nothing has been written by then.

Main fact: `applyContribution_refused`.
-/

namespace HostRouting

open Std

section

variable {σ : Type} [LinkStore σ]

/-- The link attaches no host, and its stored copy has this text under this key; some constraint
limits the key, and the text is no number. -/
structure NotNumeric (store : σ) (constraints : List Constraint) (l : Link) (key value : String) :
    Prop where
  inner : l.isEdge = false
  stored : ∃ live, LinkStore.link? store l.src l.dst = some live ∧
    live.annotations.get? key = some value
  limited : ∃ k ∈ constraints, k.Limits key
  text : numberOfText? value = none

/-- Of the texts in the way this one has the first link, and the first key there. -/
def FirstNotNumeric (store : σ) (constraints : List Constraint) (links : List Link)
    (key value : String) : Prop :=
  ∃ before l after, links = before ++ l :: after ∧ NotNumeric store constraints l key value ∧
    (∀ key' value', NotNumeric store constraints l key' value' →
      key' = key ∨ compare key key' = .lt) ∧
    ∀ l' ∈ before, ∀ key' value', ¬NotNumeric store constraints l' key' value'

variable {store : σ} {constraints : List Constraint} {d : Direction} {links : List Link} {e : Error}
variable {writer : ProviderId} {attempts : Nat}

theorem notNumeric_iff {l live : Link} (hedge : l.isEdge = false)
    (hlive : LinkStore.link? store l.src l.dst = some live) {key value : String} :
    NotNumeric store constraints l key value ↔ live.annotations.get? key = some value ∧
      adjustedText constraints d key value = .error (.annotationNotNumeric key value) := by
  rw [adjustedText_eq_error, lastLimit?_ne_none_iff]
  constructor
  · rintro ⟨-, ⟨live', hlive', hget⟩, hlimited, htext⟩
    obtain rfl := Option.some.inj (hlive.symm.trans hlive')
    exact ⟨hget, hlimited, htext, rfl⟩
  · rintro ⟨hget, hlimited, htext, -⟩
    exact ⟨hedge, ⟨live, hlive, hget⟩, hlimited, htext⟩

/-- One link is refused for the first of its keys that stands in the way. -/
theorem neededWrite_eq_error_iff_first {l : Link} :
    neededWrite store constraints d l = .error e ↔ ∃ key value,
      NotNumeric store constraints l key value ∧
      (∀ key' value', NotNumeric store constraints l key' value' →
        key' = key ∨ compare key key' = .lt) ∧ e = .annotationNotNumeric key value := by
  rw [neededWrite_eq_error_iff]
  constructor
  · rintro ⟨hedge, live, hlive, h⟩
    obtain ⟨key, value, hget, herror, hfirst⟩ := adjusted_eq_error_iff.1 h
    obtain ⟨-, -, rfl⟩ := adjustedText_eq_error.1 herror
    refine ⟨key, value, (notNumeric_iff hedge hlive).2 ⟨hget, herror⟩, ?_, rfl⟩
    intro key' value' hbad
    obtain ⟨hget', herror'⟩ := (notNumeric_iff (d := d) hedge hlive).1 hbad
    cases hkey : compare key' key with
    | lt =>
      obtain ⟨text, htext⟩ := hfirst key' value' hget' hkey
      rw [herror'] at htext
      exact nomatch htext
    | eq => exact .inl (LawfulEqCmp.eq_of_compare hkey)
    | gt => exact .inr (OrientedCmp.lt_of_gt hkey)
  · rintro ⟨key, value, hbad, hfirst, rfl⟩
    obtain ⟨live, hlive, -⟩ := hbad.stored
    have hiff {key' value' : String} : NotNumeric store constraints l key' value' ↔
        live.annotations.get? key' = some value' ∧ adjustedText constraints d key' value' =
          .error (.annotationNotNumeric key' value') := notNumeric_iff hbad.inner hlive
    obtain ⟨hget, herror⟩ := hiff.1 hbad
    refine ⟨hbad.inner, live, hlive, adjusted_eq_error_iff.2 ⟨key, value, hget, herror, ?_⟩⟩
    intro key' value' hget' hlt
    refine Except.isOk_iff_forall_ne_error.2 fun e' herror' => ?_
    obtain ⟨-, -, rfl⟩ := adjustedText_eq_error.1 herror'
    rcases hfirst key' value' (hiff.2 ⟨hget', herror'⟩) with rfl | hgt
    · simp at hlt
    · rw [OrientedCmp.gt_of_lt hlt] at hgt
      exact nomatch hgt

theorem neededWrite_isOk_iff {l : Link} :
    (∃ write, neededWrite store constraints d l = .ok write) ↔
      ∀ key value, ¬NotNumeric store constraints l key value := by
  constructor
  · rintro ⟨write, hwrite⟩ key value hbad
    obtain ⟨live, hlive, -⟩ := hbad.stored
    obtain ⟨hget, herror⟩ := (notNumeric_iff (d := d) hbad.inner hlive).1 hbad
    rcases hdesired : adjusted constraints d live.annotations with e | desired
    · rw [neededWrite_eq_error_iff.2 ⟨hbad.inner, live, hlive, hdesired⟩] at hwrite
      exact nomatch hwrite
    · rcases get?_adjusted hdesired key with ⟨hnone, -⟩ | ⟨value', text, hget', htext, -⟩
      · rw [hget] at hnone
        exact nomatch hnone
      · obtain rfl := Option.some.inj (hget.symm.trans hget')
        rw [herror] at htext
        exact nomatch htext
  · intro hnone
    refine Except.isOk_iff_forall_ne_error.2 fun e he => ?_
    obtain ⟨key, value, hbad, -⟩ := neededWrite_eq_error_iff_first.1 he
    exact hnone key value hbad

theorem applyContribution_eq_error_iff_first :
    applyContribution writer attempts store constraints links d = .error e ↔
      ∃ key value, FirstNotNumeric store constraints links key value ∧
        e = .annotationNotNumeric key value := by
  rw [applyContribution_eq_error_iff, pendingWrites_eq_error_iff]
  simp only [neededWrite_eq_error_iff_first, neededWrite_isOk_iff]
  constructor
  · rintro ⟨before, l, after, hsplit, ⟨key, value, hbad, hfirst, he⟩, hbefore⟩
    exact ⟨key, value, ⟨before, l, after, hsplit, hbad, hfirst, hbefore⟩, he⟩
  · rintro ⟨key, value, ⟨before, l, after, hsplit, hbad, hfirst, hbefore⟩, he⟩
    exact ⟨before, l, after, hsplit, ⟨key, value, hbad, hfirst, he⟩, hbefore⟩

theorem applyContribution_isOk_iff :
    (∃ result, applyContribution writer attempts store constraints links d = .ok result) ↔
      ∀ l ∈ links, ∀ key value, ¬NotNumeric store constraints l key value := by
  have hpending : (∃ result, applyContribution writer attempts store constraints links d =
      .ok result) ↔ ∃ writes, pendingWrites store constraints d links = .ok writes := by
    unfold applyContribution
    cases pendingWrites store constraints d links <;> simp [bind, Except.bind]
  rw [hpending, pendingWrites_isOk_iff]
  simp only [neededWrite_isOk_iff]

/-- A contribution is refused exactly when some link has a text that is to be adjusted and is no
number. The error names the first of them, and until then nothing has been asked of the store. -/
theorem applyContribution_refused (writer : ProviderId) (attempts : Nat) (store : σ)
    (constraints : List Constraint) (links : List Link) (d : Direction) :
    ((∃ e, applyContribution writer attempts store constraints links d = .error e) ↔
      ∃ l ∈ links, ∃ key value, NotNumeric store constraints l key value) ∧
    (∀ e, applyContribution writer attempts store constraints links d = .error e ↔
      ∃ key value, FirstNotNumeric store constraints links key value ∧
        e = .annotationNotNumeric key value) ∧
    ∀ e after, (contributeInPlace writer attempts constraints links d).run.run
        (Recorded.start store) = (.error e, after) ↔
      applyContribution writer attempts store constraints links d = .error e ∧
        after = Recorded.start store := by
  refine ⟨?_, fun e => applyContribution_eq_error_iff_first, fun e after => ?_⟩
  · calc
      _ ↔ ¬∃ result, applyContribution writer attempts store constraints links d = .ok result := by
        rw [Except.isOk_iff_forall_ne_error]
        simp
      _ ↔ ¬∀ l ∈ links, ∀ key value, ¬NotNumeric store constraints l key value :=
        not_congr applyContribution_isOk_iff
      _ ↔ ∃ l ∈ links, ∃ key value, NotNumeric store constraints l key value := by simp
  · have hstart : applyContribution writer attempts (Recorded.start store) constraints links d =
        .error e ↔ applyContribution writer attempts store constraints links d = .error e := by
      rw [applyContribution_eq_error_iff, applyContribution_eq_error_iff, pendingWrites_start]
    rw [run_contributeInPlace, ← hstart]
    rcases applyContribution writer attempts (Recorded.start store) constraints links d with e' | r
    · show ((.error e', .start store) : Except Error ContributionReport × Recorded σ) = _ ↔ _
      rw [Prod.mk.injEq, Except.error.injEq, Except.error.injEq, eq_comm (a := after)]
    · show ((.ok r.1, r.2) : Except Error ContributionReport × Recorded σ) = _ ↔ _
      simp

end

end HostRouting
