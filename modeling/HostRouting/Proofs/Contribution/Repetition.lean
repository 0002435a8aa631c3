import HostRouting.Proofs.Contribution.Share
import HostRouting.Proofs.Routing.Revision

/-!
# Contributions taken back and made again

A contribution leaves texts that can be adjusted again, so it can always be taken back and then be
made again. What two contributions leave differs from the links before them in annotations and
providers only. When they leave the numbers as they were, constraints see no difference
(`Pass.revised`), and the contribution made again leaves the texts that it left the first time
(`Pass.textAt?_again`).
-/

namespace HostRouting

variable {writer writer' : ProviderId} {constraints : List Constraint} {d d' : Direction}
variable {links links' : List Link} {before middle after again : LinkTable}

/-- The number under a key of a stored link, if the text there is one. -/
def LinkTable.numberAt? (t : LinkTable) (e : Endpoints) (key : String) : Option Binary64 :=
  (t.link? e.src e.dst).bind (·.number? key)

/-- The numbers under all keys of all links are the same. -/
def SameNumbers (before after : LinkTable) : Prop :=
  ∀ e key, after.numberAt? e key = before.numberAt? e key

theorem sameNumbers_of_annotations
    (h : before.byEnds.byKey.mapValues Link.annotations =
      after.byEnds.byKey.mapValues Link.annotations) : SameNumbers before after := by
  have hnumber : ∀ (t : LinkTable) (e : Endpoints) (key : String), t.numberAt? e key =
      (((t.byEnds.byKey.mapValues Link.annotations).get? e).bind (·.get? key)).bind
        numberOfText? := by
    intro t e key
    rw [SortedMap.get?_mapValues]
    unfold LinkTable.numberAt? LinkTable.link? Catalog.get?
    cases t.byEnds.byKey.get? e <;> rfl
  intro e key
  rw [hnumber, hnumber, h]

/-! ## Adjusting again -/

/-- What a contribution leaves can be adjusted again. -/
theorem adjustedText_again {key value value' : String}
    (h : adjustedText constraints d key value = .ok value') :
    ∃ value'', adjustedText constraints d' key value' = .ok value'' := by
  cases hlimit : lastLimit? constraints key with
  | none => exact ⟨value', adjustedText_of_unlimited hlimit d' value'⟩
  | some limit =>
    obtain ⟨number, -, rfl⟩ := (adjustedText_of_limited hlimit).1 h
    exact ⟨_, (adjustedText_of_limited hlimit).2 ⟨_, numberOfText?_text _, rfl⟩⟩

/-- Under a limited key an adjusted text depends on the number there alone. -/
theorem get?_adjusted_of_limit {a b : Annotations} (h : adjusted constraints d a = .ok b)
    {key : String} {threshold : Binary64} {upper : Bool}
    (hkey : lastLimit? constraints key = some (threshold, upper)) :
    b.get? key = ((a.get? key).bind numberOfText?).map
      fun number => (adjustedNumber d threshold upper number).text := by
  rcases get?_adjusted h key with ⟨hk, hk'⟩ | ⟨value, value', hk, htext, hk'⟩
  · rw [hk, hk']
    rfl
  · obtain ⟨number, hnumber, rfl⟩ := (adjustedText_of_limited hkey).1 htext
    rw [hk, hk', Option.bind_some, hnumber]
    rfl

theorem adjusted_empty {b : Annotations} (h : adjusted constraints d .empty = .ok b) :
    b = .empty := by
  apply SortedMap.ext_get?
  intro key
  rcases get?_adjusted h key with ⟨-, hk⟩ | ⟨value, -, hk, -, -⟩
  · exact hk
  · exact nomatch hk

namespace Pass

/-! ## One contribution after another -/

/-- After a contribution, one that touches no other links is not refused. -/
theorem isOk_again (h : Pass writer constraints d links before after)
    (htouches : ∀ e, Touches links' e → Touches links e) (attempts : Nat) :
    ∃ report again, applyContribution writer' attempts after constraints links' d' =
      .ok (report, again) := by
  apply applyContribution_isOk
  intro e l he hl
  cases hbefore : before.link? e.src e.dst with
  | none =>
    rw [h.missing e hbefore] at hl
    exact nomatch hl
  | some old =>
    obtain ⟨a, ha, hafter⟩ := h.touched e old (htouches e he) hbefore
    rw [hafter] at hl
    rw [← Option.some.inj hl, Link.annotated_annotations]
    apply adjusted_isOk
    intro key value hk
    rcases get?_adjusted ha key with ⟨-, hk'⟩ | ⟨value', value'', -, htext, hk'⟩
    · rw [hk'] at hk
      exact nomatch hk
    · rw [hk'] at hk
      rw [← Option.some.inj hk]
      exact adjustedText_again htext

/-- A contribution changes annotations and providers only, and nothing on links without
annotations. -/
theorem link?_kept (h : Pass writer constraints d links before after) {e : Endpoints} {l : Link}
    (hl : before.link? e.src e.dst = some l) :
    ∃ l', after.link? e.src e.dst = some l' ∧ l'.endpoints = l.endpoints ∧ l'.type = l.type ∧
      l'.state = l.state ∧ (l.annotations = .empty → l' = l) := by
  by_cases he : Touches links e
  · obtain ⟨a, ha, hafter⟩ := h.touched e l he hl
    refine ⟨_, hafter, Link.annotated_endpoints, ?_, ?_, fun hempty => ?_⟩
    · exact Link.annotated_type
    · exact Link.annotated_state
    · rw [hempty] at ha
      rw [adjusted_empty ha, ← hempty, Link.annotated_self]
  · exact ⟨l, (h.untouched e he).trans hl, rfl, rfl, rfl, fun _ => rfl⟩

/-- Under a limited key of a touched link the text depends on the number there alone. -/
theorem textAt?_of_limit (h : Pass writer constraints d links before after) {e : Endpoints}
    (he : Touches links e) {key : String} {threshold : Binary64} {upper : Bool}
    (hkey : lastLimit? constraints key = some (threshold, upper)) :
    after.textAt? e key = (before.numberAt? e key).map
      fun number => (adjustedNumber d threshold upper number).text := by
  unfold LinkTable.textAt? LinkTable.numberAt?
  cases hl : before.link? e.src e.dst with
  | none =>
    rw [h.missing e hl]
    rfl
  | some l =>
    obtain ⟨a, ha, hafter⟩ := h.touched e l he hl
    rw [hafter, Option.bind_some, Option.bind_some, Link.annotated_annotations]
    exact get?_adjusted_of_limit ha hkey

end Pass

/-! ## Taking back -/

/-- What has become of a link that the first table stores; other links are as they are. -/
def LinkTable.successor (before after : LinkTable) (l : Link) : Link :=
  if before.link? l.src l.dst = some l then (after.link? l.src l.dst).getD l else l

/-- When two contributions leave the numbers as they were, constraints see no difference. -/
theorem Pass.revised (h : Pass writer constraints d links before middle)
    (h' : Pass writer' constraints d' links' middle after) (hnumbers : SameNumbers before after) :
    Revised (before.successor after) before after := by
  have hstored : ∀ {l : Link}, before.link? l.src l.dst = some l →
      after.link? l.src l.dst = some (before.successor after l) ∧
        l.Alike (before.successor after l) ∧
          (l.annotations = .empty → before.successor after l = l) := by
    intro l hl
    obtain ⟨l', hl', hends, htype, hstate, hempty⟩ := h.link?_kept (e := l.endpoints) hl
    obtain ⟨l'', hl'', hends', htype', hstate', hempty'⟩ := h'.link?_kept hl'
    have hsuccessor : before.successor after l = l'' := by
      unfold LinkTable.successor
      rw [if_pos hl, show after.link? l.src l.dst = some l'' from hl'']
      rfl
    rw [hsuccessor]
    refine ⟨hl'', ⟨hends'.trans hends, htype'.trans htype, hstate'.trans hstate, fun key => ?_⟩,
      fun he => ?_⟩
    · have hkey := hnumbers l.endpoints key
      unfold LinkTable.numberAt? at hkey
      rw [hl'', show before.link? l.endpoints.src l.endpoints.dst = some l from hl] at hkey
      exact hkey
    · obtain rfl := hempty he
      exact hempty' he
  refine ⟨fun l => ?_, fun l he => ?_, fun src dst => ?_⟩
  · by_cases hl : before.link? l.src l.dst = some l
    · exact (hstored hl).2.1
    · rw [LinkTable.successor, if_neg hl]
      exact Link.Alike.refl l
  · by_cases hl : before.link? l.src l.dst = some l
    · exact (hstored hl).2.2 he
    · rw [LinkTable.successor, if_neg hl]
  · cases hl : before.link? src dst with
    | none => exact h'.missing ⟨src, dst⟩ (h.missing ⟨src, dst⟩ hl)
    | some l =>
      obtain ⟨rfl, rfl⟩ := Endpoints.mk.inj (LinkTable.endpoints_of_link? hl)
      exact (hstored hl).1

/-- A contribution that is taken back to the same numbers and made again leaves the same texts. -/
theorem Pass.textAt?_again (h : Pass writer constraints d links before middle)
    (hback : Pass writer' constraints d' links middle after) (hnumbers : SameNumbers before after)
    (hagain : Pass writer constraints d links' after again)
    (htouches : ∀ e, Touches links' e ↔ Touches links e) (e : Endpoints) (key : String) :
    again.textAt? e key = middle.textAt? e key := by
  cases hkey : lastLimit? constraints key with
  | none =>
    rw [hagain.text_of_lastLimit?_eq_none hkey, hback.text_of_lastLimit?_eq_none hkey]
  | some limit =>
    by_cases he : Touches links e
    · rw [h.textAt?_of_limit he hkey, hagain.textAt?_of_limit ((htouches e).2 he) hkey, hnumbers]
    · unfold LinkTable.textAt?
      rw [hagain.untouched e (mt (htouches e).1 he), hback.untouched e he]

end HostRouting
