import HostRouting.Proofs.Contribution.Limits
import HostRouting.Proofs.Contribution.Repetition
import HostRouting.Proofs.Contribution.Retry

/-!
# Contributions added and removed again

What is added to a number is taken off again when the contribution is removed, and the other way
round, but nothing goes below zero. An upper limit is cut off when it is removed and a lower one
when it is added, before its threshold comes back on top. So a number under an upper limit comes
back unless it was negative, and one under a lower limit unless it was below the threshold
(`units?_remove_add`).

Main fact: `applyContribution_add_remove`.
-/

namespace HostRouting

/-! ## Numbers -/

/-- The least number that is left under a limit, in units. -/
def leastLeft (threshold : Int) (upper : Bool) : Int := if upper then 0 else threshold

/-- Adding the contribution of a limit to a number needs no rounding. -/
def ExactlyAdded (threshold : Binary64) (upper : Bool) (number : Binary64) : Prop :=
  Binary64.ExactSum number (if upper then threshold else -threshold)

instance (threshold : Binary64) (upper : Bool) (number : Binary64) :
    Decidable (ExactlyAdded threshold upper number) :=
  inferInstanceAs (Decidable (Binary64.ExactSum _ _))

/-- A number comes back unless it was cut off at zero on the way. Only the first of the two sums can
need rounding: the second is one of the numbers that went in. -/
theorem units?_remove_add {threshold number : Binary64} {upper : Bool} {t v : Int}
    (ht : threshold.units? = some t) (hv : number.units? = some v)
    (hexact : ExactlyAdded threshold upper number) :
    (adjustedNumber .remove threshold upper (adjustedNumber .add threshold upper number)).units? =
      some (max (leastLeft t upper) v) := by
  have hneg : (-threshold).units? = some (-t) := by
    rw [Binary64.units?_neg, ht]
    rfl
  cases upper with
  | true =>
    have hadded : (number + threshold).units? = some (v + t) :=
      Binary64.units?_add_of_representable hv ht ((Binary64.exactSum_iff hv ht).1 hexact)
    have hback : v + t + -t = v := by omega
    have hremoved : (number + threshold - threshold).units? = some v := by
      have hfits := Binary64.representable_of_units? hv
      rw [← hback] at hfits
      rw [← hback]
      exact Binary64.units?_add_of_representable hadded hneg hfits
    exact Binary64.units?_atLeastZero_eq_max hremoved
  | false =>
    have hsubtracted : (number - threshold).units? = some (v + -t) :=
      Binary64.units?_add_of_representable hv hneg ((Binary64.exactSum_iff hv hneg).1 hexact)
    have hcut := Binary64.units?_atLeastZero_eq_max hsubtracted
    have hback : max 0 (v + -t) + t = max t v := by omega
    have hfits : Representable (max t v).natAbs := by
      rcases Int.le_total t v with h | h
      · rw [Int.max_eq_right h]
        exact Binary64.representable_of_units? hv
      · rw [Int.max_eq_left h]
        exact Binary64.representable_of_units? ht
    rw [← hback] at hfits
    show ((number - threshold).atLeastZero + threshold).units? = some (max t v)
    rw [← hback]
    exact Binary64.units?_add_of_representable hcut ht hfits

/-! ## Links -/

variable {writer writer' : ProviderId} {attempts : Nat} {constraints : List Constraint}
variable {d : Direction} {links : List Link} {before middle after : LinkTable}
variable {report : ContributionReport}

theorem LinkTable.numberAt?_eq_textAt? (t : LinkTable) (e : Endpoints) (key : String) :
    t.numberAt? e key = (t.textAt? e key).bind numberOfText? := by
  unfold numberAt? textAt?
  cases t.link? e.src e.dst <;> rfl

theorem LinkTable.unitsAt?_eq_numberAt? (t : LinkTable) (e : Endpoints) (key : String) :
    t.unitsAt? e key = (t.numberAt? e key).bind Binary64.units? := by
  rw [unitsAt?_eq_textAt?, numberAt?_eq_textAt?]

/-- Under a limited key of a touched link there is the adjusted number. -/
theorem Pass.numberAt?_of_limit (h : Pass writer constraints d links before after) {e : Endpoints}
    (he : Touches links e) {key : String} {threshold : Binary64} {upper : Bool}
    (hkey : lastLimit? constraints key = some (threshold, upper)) :
    after.numberAt? e key = (before.numberAt? e key).map (adjustedNumber d threshold upper) := by
  rw [LinkTable.numberAt?_eq_textAt?, h.textAt?_of_limit he hkey]
  cases before.numberAt? e key with
  | none => rfl
  | some number => exact numberOfText?_text _

/-- What is left of a table when a contribution is added to links and removed again. -/
structure TakenBack (constraints : List Constraint) (links : List Link) (before after : LinkTable) :
    Prop where
  /-- A number comes back unless it was less than what is left at least. -/
  limited : ∀ e key threshold upper number t v, Touches links e →
    LastLimit constraints key threshold upper → before.numberAt? e key = some number →
    threshold.units? = some t → number.units? = some v → ExactlyAdded threshold upper number →
    after.unitsAt? e key = some (max (leastLeft t upper) v) ∧
      (after.unitsAt? e key = before.unitsAt? e key ↔ leastLeft t upper ≤ v)
  unlimited : ∀ e key, (∀ k ∈ constraints, ¬k.Limits key) →
    after.textAt? e key = before.textAt? e key
  untouched : ∀ e : Endpoints, ¬Touches links e →
    after.link? e.src e.dst = before.link? e.src e.dst

theorem Pass.takenBack (h : Pass writer constraints .add links before middle)
    (h' : Pass writer' constraints .remove links middle after) :
    TakenBack constraints links before after := by
  refine ⟨?_, fun e key hfree => ?_, fun e he => ?_⟩
  · intro e key threshold upper number t v he hlast hnumber ht hv hexact
    have hkey := lastLimit?_eq_some_iff.2 hlast
    have hbefore : before.unitsAt? e key = some v := by
      rw [LinkTable.unitsAt?_eq_numberAt?, hnumber]
      exact hv
    have hafter : after.unitsAt? e key = some (max (leastLeft t upper) v) := by
      rw [LinkTable.unitsAt?_eq_numberAt?, h'.numberAt?_of_limit he hkey,
        h.numberAt?_of_limit he hkey, hnumber]
      exact units?_remove_add ht hv hexact
    refine ⟨hafter, ?_⟩
    rw [hafter, hbefore, Option.some_inj]
    omega
  · have hkey := lastLimit?_eq_none_iff.2 hfree
    rw [h'.text_of_lastLimit?_eq_none hkey, h.text_of_lastLimit?_eq_none hkey]
  · rw [h'.untouched e he, h.untouched e he]

/-- A contribution that was added can be removed again, and then every number is back that was not
cut off at zero. -/
theorem applyContribution_add_remove (hattempts : 0 < attempts)
    (hadd : applyContribution writer attempts before constraints links .add =
      .ok (report, middle)) :
    ∃ report' after, applyContribution writer attempts middle constraints links .remove =
        .ok (report', after) ∧ TakenBack constraints links before after := by
  have hadded := (applyContribution_spec hattempts hadd).2
  obtain ⟨report', after, hremove⟩ : ∃ report' after, applyContribution writer attempts middle
      constraints links .remove = .ok (report', after) := hadded.isOk_again (fun _ he => he) _
  exact ⟨report', after, hremove, hadded.takenBack (applyContribution_spec hattempts hremove).2⟩

namespace Sample

/-- The lower of the two limits on the latency decides, since it is the last. -/
def latencyFloor : List Constraint := [.atMost "latency" 20, .limit "latency" 8 false]

/-- The ends of a link of the line. -/
def hop (src dst : String) : Endpoints := ⟨⟨.device ⟨src⟩, 1⟩, ⟨.device ⟨dst⟩, 2⟩⟩

end Sample

/-- The 10 comes back, and the 7.5 has become 8. -/
theorem applyContribution_add_remove_sample :
    0 < 1 ∧ ∃ report middle report' after,
      applyContribution .core 1 Sample.line Sample.latencyFloor Sample.crossed .add =
        .ok (report, middle) ∧
      applyContribution .core 1 middle Sample.latencyFloor Sample.crossed .remove =
        .ok (report', after) ∧
      after.unitsAt? (Sample.hop "s1" "s2") "latency" =
        Sample.line.unitsAt? (Sample.hop "s1" "s2") "latency" ∧
      after.unitsAt? (Sample.hop "s2" "s3") "latency" = some (8 * unitsPerOne : Nat) ∧
      Sample.line.numberAt? (Sample.hop "s2" "s3") "latency" =
        some (.ofQuotient false (15 * unitsPerOne) 2) ∧
      after.textAt? (Sample.hop "s2" "s3") "note" = some "fibre" := by
  have hupdated : ((applyContribution .core 1 Sample.line Sample.latencyFloor Sample.crossed
      .add).map (·.1.updated)).toOption = some 2 := by decide +kernel
  cases hadd : applyContribution .core 1 Sample.line Sample.latencyFloor Sample.crossed .add with
  | error e =>
    rw [hadd] at hupdated
    exact nomatch hupdated
  | ok result =>
    obtain ⟨report', after, hremove, htaken⟩ := applyContribution_add_remove Nat.one_pos hadd
    have hlast : LastLimit Sample.latencyFloor "latency" 8 false :=
      lastLimit?_eq_some_iff.1 (by decide +kernel)
    have hthreshold : (8 : Binary64).units? = some (8 * unitsPerOne : Nat) := by decide +kernel
    obtain ⟨-, hback⟩ := htaken.limited (Sample.hop "s1" "s2") "latency" 8 false 10 _
      (10 * unitsPerOne : Nat) (by decide +kernel) hlast (by decide +kernel) hthreshold
      (by decide +kernel) (by decide +kernel)
    obtain ⟨hraised, -⟩ := htaken.limited (Sample.hop "s2" "s3") "latency" 8 false
      (.ofQuotient false (15 * unitsPerOne) 2) _ (15 * unitsPerOne / 2 : Nat) (by decide +kernel)
      hlast (by decide +kernel) hthreshold (by decide +kernel) (by decide +kernel)
    have hnote := htaken.unlimited (Sample.hop "s2" "s3") "note"
      (lastLimit?_eq_none_iff.1 (by decide +kernel))
    refine ⟨Nat.one_pos, result.1, result.2, report', after, rfl, hremove,
      hback.2 (by decide +kernel), hraised.trans (by decide +kernel), by decide +kernel, ?_⟩
    rw [hnote]
    decide +kernel

end HostRouting
