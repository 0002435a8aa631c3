import HostRouting.Proofs.Contribution.Limits
import HostRouting.Proofs.Contribution.Pass
import HostRouting.Proofs.Contribution.Retry

/-!
# The effect of a contribution on a table of links

A table stores what it is asked, so a contribution leaves every stored link that it touches adjusted
and every other link as it was. What it touches does not depend on the order of the given links, nor
on how often each of them is given, so the table that it leaves does not either.

Main fact: `applyContribution_effect`.
-/

namespace HostRouting

variable {writer : ProviderId} {attempts : Nat} {constraints : List Constraint} {d : Direction}
variable {links links' : List Link} {before after after' : LinkTable} {report : ContributionReport}

/-! ## One link -/

/-- What a contribution makes of a stored link that it touches. -/
structure Adjusts (writer : ProviderId) (constraints : List Constraint) (d : Direction)
    (old new : Link) : Prop where
  endpoints : new.endpoints = old.endpoints
  type : new.type = old.type
  state : new.state = old.state
  expected : new.expected = old.expected
  keys : new.annotations.keys = old.annotations.keys
  /-- The last constraint on a key decides about its number: an upper limit that is added, or a
  lower one that is removed, adds its threshold; the others take it off, down to zero. -/
  limited : ∀ key threshold upper value, LastLimit constraints key threshold upper →
    old.annotations.get? key = some value → ∃ number, numberOfText? value = some number ∧
      new.annotations.get? key = some (Binary64.text
        (match d, upper with
        | .add, true | .remove, false => number + threshold
        | .add, false | .remove, true =>
          if 0 < number - threshold then number - threshold else 0))
  unlimited : ∀ key, (∀ k ∈ constraints, ¬k.Limits key) →
    new.annotations.get? key = old.annotations.get? key
  provider : new.provider = if new.annotations = old.annotations then old.provider else writer

theorem adjusts_annotated {l : Link} {a : Annotations}
    (h : adjusted constraints d l.annotations = .ok a) :
    Adjusts writer constraints d l (l.annotated writer a) := by
  refine ⟨Link.annotated_endpoints, Link.annotated_type, Link.annotated_state,
    Link.annotated_expected, ?_, ?_, ?_, ?_⟩
  · rw [Link.annotated_annotations]
    exact keys_adjustedEntries (entries_of_adjusted h)
  · intro key threshold upper value hlast hget
    rw [Link.annotated_annotations]
    rcases get?_adjusted h key with ⟨hnone, -⟩ | ⟨value', text, hget', htext, hnew⟩
    · rw [hget] at hnone
      exact nomatch hnone
    · obtain rfl := Option.some.inj (hget.symm.trans hget')
      obtain ⟨number, hnumber, rfl⟩ :=
        (adjustedText_of_limited (lastLimit?_eq_some_iff.2 hlast)).1 htext
      refine ⟨number, hnumber, hnew.trans ?_⟩
      cases d <;> cases upper <;> rfl
  · intro key hfree
    rw [Link.annotated_annotations]
    rcases get?_adjusted h key with ⟨hnone, hnone'⟩ | ⟨value, text, hget, htext, hnew⟩
    · rw [hnone, hnone']
    · rw [adjustedText_of_unlimited (lastLimit?_eq_none_iff.2 hfree)] at htext
      rw [hget, hnew, Except.ok.inj htext]
  · rw [Link.annotated_annotations]
    unfold Link.annotated
    split <;> rfl

/-! ## All links -/

/-- Tables with the same links are the same. -/
theorem LinkTable.ext_link? {t t' : LinkTable}
    (h : ∀ e : Endpoints, t.link? e.src e.dst = t'.link? e.src e.dst) : t = t' :=
  congrArg LinkTable.mk (Catalog.ext_get? h)

/-- What a contribution leaves depends on what the links touch only. -/
theorem Pass.unique (h : Pass writer constraints d links before after)
    (h' : Pass writer constraints d links' before after')
    (htouches : ∀ e, Touches links' e ↔ Touches links e) : after' = after := by
  refine LinkTable.ext_link? fun e => ?_
  by_cases he : Touches links e
  · cases hl : before.link? e.src e.dst with
    | none => rw [h.missing e hl, h'.missing e hl]
    | some l =>
      obtain ⟨a, ha, hafter⟩ := h.touched e l he hl
      obtain ⟨a', ha', hafter'⟩ := h'.touched e l ((htouches e).2 he) hl
      rw [hafter, hafter', Except.ok.inj (ha'.symm.trans ha)]
  · rw [h.untouched e he, h'.untouched e (mt (htouches e).1 he)]

/-- A given link needs a write when it attaches no host and its stored annotations change. -/
theorem Pass.isSome_neededWrite? (h : Pass writer constraints d links before after) {l : Link}
    (hl : l ∈ links) :
    (neededWrite? before constraints d l).isSome = (!l.isEdge &&
      decide ((after.link? l.src l.dst).map Link.annotations ≠
        (before.link? l.src l.dst).map Link.annotations)) := by
  unfold neededWrite? neededWrite
  cases hedge : l.isEdge with
  | true => rfl
  | false =>
    rw [if_neg Bool.false_ne_true]
    cases hlive : before.link? l.src l.dst with
    | none =>
      rw [show LinkStore.link? before l.src l.dst = none from hlive,
        show after.link? l.src l.dst = none from h.missing l.endpoints hlive]
      rfl
    | some live =>
      obtain ⟨a, ha, hafter⟩ := h.touched l.endpoints live ⟨l, hl, hedge, rfl⟩ hlive
      rw [show LinkStore.link? before l.src l.dst = some live from hlive,
        show after.link? l.src l.dst = some (live.annotated writer a) from hafter]
      dsimp only
      rw [ha]
      by_cases hsame : a = live.annotations
      · simp [bind, Except.bind, hsame]
      · simp [bind, Except.bind, hsame]

theorem Pass.isSome_link? (h : Pass writer constraints d links before after) (e : Endpoints) :
    (after.link? e.src e.dst).isSome = (before.link? e.src e.dst).isSome := by
  cases hl : before.link? e.src e.dst with
  | none => rw [h.missing e hl]
  | some l =>
    by_cases he : Touches links e
    · obtain ⟨a, -, hafter⟩ := h.touched e l he hl
      rw [hafter]
      rfl
    · rw [h.untouched e he, hl]

/-- What a contribution does to a table and how it reports. -/
structure ContributionEffect (writer : ProviderId) (constraints : List Constraint) (d : Direction)
    (links : List Link) (before after : LinkTable) (report : ContributionReport) : Prop where
  touched : ∀ e old, Touches links e → before.link? e.src e.dst = some old →
    ∃ new, after.link? e.src e.dst = some new ∧ Adjusts writer constraints d old new
  untouched : ∀ e : Endpoints, ¬Touches links e →
    after.link? e.src e.dst = before.link? e.src e.dst
  /-- No link is created or removed. -/
  stored : ∀ e : Endpoints,
    (after.link? e.src e.dst).isSome = (before.link? e.src e.dst).isSome
  stale : report.stale = []
  /-- The given links whose annotations had to change are counted. -/
  updated : report.updated = links.countP fun l => !l.isEdge &&
    decide ((after.link? l.src l.dst).map Link.annotations ≠
      (before.link? l.src l.dst).map Link.annotations)

/-- A contribution adjusts the stored links that it touches, and leaves the same table whatever the
order of the given links and however often each of them is given. -/
theorem applyContribution_effect (hattempts : 0 < attempts)
    (h : applyContribution writer attempts before constraints links d = .ok (report, after)) :
    ContributionEffect writer constraints d links before after report ∧
      ∀ links' : List Link, (∀ l, l ∈ links' ↔ l ∈ links) →
        ∃ report', applyContribution writer attempts before constraints links' d =
          .ok (report', after) := by
  obtain ⟨hstale, hpass⟩ := applyContribution_spec hattempts h
  refine ⟨⟨fun e old he hold => ?_, hpass.untouched, fun e => ?_, hstale, ?_⟩, ?_⟩
  · obtain ⟨a, ha, hafter⟩ := hpass.touched e old he hold
    exact ⟨_, hafter, adjusts_annotated ha⟩
  · exact hpass.isSome_link? e
  · obtain ⟨writes, hwrites, hresult⟩ := Except.bind_eq_ok_iff.1 h
    have htotal := performWrites_total writer attempts writes before
    rw [Except.ok.inj hresult, hstale, pendingWrites_eq_ok hwrites,
      List.length_filterMap_eq_countP] at htotal
    exact htotal.trans (List.countP_congr fun l hl => by rw [hpass.isSome_neededWrite? hl])
  · intro links' hmem
    have htouches : ∀ e, Touches links' e ↔ Touches links e := fun e =>
      exists_congr fun l => and_congr_left fun _ => hmem l
    have hadjusted : ∀ e l, Touches links' e → before.link? e.src e.dst = some l →
        ∃ a, adjusted constraints d l.annotations = .ok a := fun e l he hl =>
      (hpass.touched e l ((htouches e).1 he) hl).imp fun _ ha => ha.1
    obtain ⟨report', after', h'⟩ := applyContribution_isOk hadjusted
    obtain rfl := hpass.unique (applyContribution_spec hattempts h').2 htouches
    exact ⟨report', h'⟩

/-- Both links change; the other two that are given are passed over. -/
theorem applyContribution_effect_sample :
    0 < 1 ∧ ∃ report after, applyContribution .core 1 Sample.line Sample.latencyLimits
        Sample.crossed .remove = .ok (report, after) ∧ report.updated = 2 ∧
      ContributionEffect .core Sample.latencyLimits .remove Sample.crossed Sample.line after
        report ∧
      ∃ report', applyContribution .core 1 Sample.line Sample.latencyLimits
        (Sample.crossed ++ Sample.crossed.reverse) .remove = .ok (report', after) := by
  have hupdated : ((applyContribution .core 1 Sample.line Sample.latencyLimits Sample.crossed
      .remove).map (·.1.updated)).toOption = some 2 := by decide +kernel
  cases h : applyContribution .core 1 Sample.line Sample.latencyLimits Sample.crossed .remove with
  | error e =>
    rw [h] at hupdated
    exact nomatch hupdated
  | ok result =>
    rw [h] at hupdated
    obtain ⟨heffect, hlists⟩ := applyContribution_effect Nat.one_pos h
    exact ⟨Nat.one_pos, result.1, result.2, rfl, Option.some.inj hupdated, heffect,
      hlists _ fun l => by simp⟩

end HostRouting
