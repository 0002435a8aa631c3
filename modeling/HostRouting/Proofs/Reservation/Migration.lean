import HostRouting.Proofs.Compiler.Cases
import HostRouting.Proofs.Reservation.Reserve
import HostRouting.Proofs.Reservation.Returns

/-!
# Reservations of an intent that has joined a group

Once an intent is in a group, its reservations are accounted to the group. What it still holds under
its own key is given back by the next reservation that has something to reserve: not by one that
finds everything reserved for the group already.

1. Whatever is given back and granted for the group leaves what is held under the key
   (`Ledger.holding_giveBack_of_ne`).
2. Giving back all that is held under the key leaves what is no number (`holding_own_reserve`).

Main fact: `own_given_back_iff`.
-/

namespace HostRouting

section

variable {l : Ledger} {c : Connectivity} {b : Bandwidth} {points : List ConnectPoint}

/-- What a reservation for a group leaves under the key of the intent. -/
theorem holding_own_reserve (hgroup : c.group.isSome = true)
    (hrequested : c.requestedBandwidth? = some b) :
    (reserve l c points).1.holding (.intent c.key) =
      if outstanding l c.consumer b points = [] then l.holding (.intent c.key)
      else (l.holding (.intent c.key)).filter (·.value = .nan) := by
  have hne := Connectivity.own_ne_consumer hgroup
  rw [reserve_eq hrequested]
  by_cases hempty : outstanding l c.consumer b points = []
  · rw [if_pos (by simp [hempty]), if_pos hempty]
  · rw [if_neg (by simpa using hempty), if_neg hempty, Ledger.holding_allocate_of_ne hne]
    unfold clearedLedger giveBackOwn
    rw [if_pos hgroup]
    refine (Ledger.holding_giveBack_held _ _).trans ?_
    -- What is outdated was held by the group.
    rw [Ledger.holding_giveBack_of_ne fun a ha =>
      Ledger.consumer_of_mem_held (List.mem_filter.1 ha).1 ▸ hne]

/-- A reservation for an intent in a group leaves nothing under the key of the intent exactly when
nothing was held there, or the group does not hold the bandwidth on some device port yet and only
numbers were held. It does so whether the request is granted or refused. When the group holds the
bandwidth on every port, nothing is given back. -/
theorem own_given_back_iff (l : Ledger) (points : List ConnectPoint)
    (hgroup : c.group.isSome = true) (hrequested : c.requestedBandwidth? = some b) :
    ((reserve l c points).1.holding (.intent c.key) = [] ↔
      l.holding (.intent c.key) = [] ∨
        ((∃ p ∈ points, ∃ r, Resource.atPoint? p b = some r ∧
            ∀ held ∈ l.holding c.consumer, (held == r) = false) ∧
          ∀ r ∈ l.holding (.intent c.key), r.value ≠ .nan)) ∧
      ((∀ p ∈ points, ∀ r, Resource.atPoint? p b = some r →
          ∃ held ∈ l.holding c.consumer, (held == r) = true) →
        reserve l c points = (l, [])) := by
  have hnothing : outstanding l c.consumer b points = [] ↔
      ∀ p ∈ points, ∀ r, Resource.atPoint? p b = some r →
        ∃ held ∈ l.holding c.consumer, (held == r) = true := by
    rw [outstanding_eq_nil_iff]
    constructor
    · exact fun h p hp r hr => h r (mem_neededResources.2 ⟨p, hp, hr⟩)
    · intro h r hr
      obtain ⟨p, hp, hat⟩ := mem_neededResources.1 hr
      exact h p hp r hat
  have hmissing : outstanding l c.consumer b points ≠ [] ↔
      ∃ p ∈ points, ∃ r, Resource.atPoint? p b = some r ∧
        ∀ held ∈ l.holding c.consumer, (held == r) = false := by
    rw [ne_eq, hnothing]
    simp only [Classical.not_forall, not_exists, not_and, exists_prop, Bool.not_eq_true]
  refine ⟨?_, fun hall => ?_⟩
  · rw [holding_own_reserve hgroup hrequested, ← hmissing]
    split
    next hempty => exact ⟨.inl, fun h => h.resolve_right fun h => h.1 hempty⟩
    next hempty =>
      rw [List.filter_eq_nil_iff]
      constructor
      · intro h
        exact .inr ⟨hempty, fun r hr => by simpa using h r hr⟩
      · rintro (hnone | ⟨-, hnumbers⟩) r hr
        · rw [hnone] at hr
          exact absurd hr List.not_mem_nil
        · simpa using hnumbers r hr
  · rw [reserve_eq hrequested, hnothing.2 hall]
    rfl

end

namespace Sample

/-- The sample intent with a request for bandwidth, after it has joined a group. -/
def grouped : Connectivity := { (intent [.bandwidth ⟨10⟩]).base with group := some ⟨7⟩ }

def portId (device : String) (number : PortNumber) : ResourceId := ⟨⟨device⟩, number⟩

/-- The intent holds the requested bandwidth under its own key at both ends of the sample link, once
by two allocations, and its group holds it at the given ports. -/
def joined (ports : List ResourceId) : Ledger :=
  (Ledger.empty.setHolding (.intent grouped.key)
    [⟨portId "s1" 1, 10⟩, ⟨portId "s2" 1, 5⟩, ⟨portId "s2" 1, 5⟩]).setHolding (.group ⟨7⟩)
    (ports.map (⟨·, 10⟩))

end Sample

/-- The group holds the bandwidth at one end of the link only. -/
theorem own_given_back_iff_sample :
    Sample.grouped.group.isSome = true ∧ Sample.grouped.requestedBandwidth? = some ⟨10⟩ ∧
      (Sample.joined [Sample.portId "s1" 1]).holding (.intent Sample.grouped.key) ≠ [] ∧
      (reserve (Sample.joined [Sample.portId "s1" 1]) Sample.grouped
        Sample.path.connectPoints).1.holding (.intent Sample.grouped.key) = [] := by
  have hgroup : Sample.grouped.group.isSome = true := rfl
  have hrequested : Sample.grouped.requestedBandwidth? = some ⟨10⟩ := rfl
  refine ⟨hgroup, hrequested, List.cons_ne_nil _ _, ?_⟩
  refine (own_given_back_iff _ _ hgroup hrequested).1.2 (.inr ⟨?_, by decide +kernel⟩)
  exact ⟨⟨.device ⟨"s2"⟩, 1⟩, by decide +kernel, ⟨Sample.portId "s2" 1, 10⟩, rfl, by decide +kernel⟩

/-- Another intent of the group has reserved the bandwidth on the whole path, and the intent keeps
its own reservations beside it. -/
theorem own_kept_beside_group :
    Sample.grouped.group.isSome = true ∧ Sample.grouped.requestedBandwidth? = some ⟨10⟩ ∧
      (reserve (Sample.joined [Sample.portId "s1" 1, Sample.portId "s2" 1]) Sample.grouped
        Sample.path.connectPoints).1.holding (.intent Sample.grouped.key) ≠ [] :=
  ⟨rfl, rfl, List.ne_nil_of_length_pos (by decide +kernel)⟩

end HostRouting
