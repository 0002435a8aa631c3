import HostRouting.Ledger.Shuffled
import HostRouting.Proofs.Binary64.Whole
import HostRouting.Proofs.Reservation.Returns
import HostRouting.Proofs.Reservation.Reserve

/-!
# Reservations in any order

A ledger that adds what is held in another order decides alike as long as its sums do not depend on
the order (`Ledger.OrderFree`), as those of whole numbers do not (`Ledger.CountsWhole.orderFree`).
What it grants may make them depend on it, but the second reservation of a route asks only about
ports where the first has not been granted anything.

1. Where the sums do not depend on the order, a shuffled ledger reserves what its book does
   (`ShuffledLedger.book_reserve`).
2. After a reservation they still do not on the ports that are outstanding
   (`Ledger.OrderFree.reserve`).
-/

namespace HostRouting

namespace Ledger

variable {l l' : Ledger} {id : ResourceId}

/-! ## Sums without an order -/

/-- If the resource is limited, the sum of any of the quantities held of it is the same in every
order. -/
def OrderFreeAt (l : Ledger) (id : ResourceId) : Prop :=
  l.capacities.get? id ≠ none →
    ∀ xs, xs.Sublist (l.quantities id) → ∀ ys, ys.Perm xs → Binary64.sum ys = Binary64.sum xs

/-- No sum that decides whether a resource is available depends on the order of its terms. -/
def OrderFree (l : Ledger) : Prop := ∀ id, l.OrderFreeAt id

/-- Only whole numbers are held of limited resources, and none of their sums is rounded. -/
def CountsWhole (l : Ledger) : Prop :=
  ∀ e ∈ l.capacities.entries, Binary64.AddsWhole (l.quantities e.1)

instance (l : Ledger) : Decidable l.CountsWhole :=
  inferInstanceAs (Decidable (∀ e ∈ l.capacities.entries, _))

/-- Whole numbers may be added in any order. -/
theorem CountsWhole.orderFree (h : l.CountsWhole) : l.OrderFree := by
  intro id hlimited xs hxs ys hys
  obtain ⟨capacity, hcapacity⟩ := Option.ne_none_iff_exists'.1 hlimited
  have hwhole := h _ (SortedMap.get?_eq_some_iff.1 hcapacity)
  exact (hwhole.sublist hxs).sum_eq hys

theorem orderFreeAt_of_unlimited (h : l.capacities.get? id = none) : l.OrderFreeAt id :=
  fun hlimited => absurd h hlimited

theorem OrderFreeAt.of_sublist (h : l.OrderFreeAt id) (hcapacities : l'.capacities = l.capacities)
    (hquantities : (l'.quantities id).Sublist (l.quantities id)) : l'.OrderFreeAt id := by
  intro hlimited xs hxs
  rw [hcapacities] at hlimited
  exact h hlimited xs (hxs.trans hquantities)

end Ledger

section

variable {c : Connectivity} {b : Bandwidth} {points points' : List ConnectPoint}

/-! ## What is outstanding once more -/

/-- What is held and still outstanding is different from itself. -/
theorem nan_of_outstanding_of_held {l : Ledger} {d : Consumer} {r : Resource}
    (hout : r ∈ outstanding l d b points) (hheld : r ∈ l.holding d) : r.value = .nan := by
  by_contra hnumber
  have hself : (r == r) = true := Resource.beq_iff.2 ⟨rfl, Binary64.beq_self_of_ne_nan hnumber⟩
  exact ne_of_held (outstanding_subset hout) hheld hself r hout rfl

/-- A quantity that is not a number fits only where there is no capacity. -/
theorem Ledger.fits_nan {l : Ledger} {id : ResourceId} (h : l.fits id .nan = true) :
    l.capacities.get? id = none := by
  unfold fits at h
  split at h
  next capacity _ =>
    have hsum : l.allocated id + .nan = .nan := by cases l.allocated id <;> rfl
    rw [hsum] at h
    exact absurd rfl (Binary64.ne_nan_of_le_left (of_decide_eq_true h))
  next hnone => exact hnone

/-- Where something has just been granted, only what is not a number can be outstanding. -/
theorem unlimited_of_outstanding_granted {l l' : Ledger} {d : Consumer} {r : Resource}
    (hgrants : l'.grants (outstanding l d b points) = true)
    (hgranted : ∃ r' ∈ outstanding l d b points, r'.id = r.id)
    (hout : r ∈ outstanding (l'.setHolding d (l'.holding d ++ outstanding l d b points)) d b
      points') : l'.capacities.get? r.id = none := by
  obtain ⟨r', hr', hid⟩ := hgranted
  obtain rfl := eq_of_mem_neededResources (outstanding_subset hr') (outstanding_subset hout) hid
  have hheld : r' ∈ (l'.setHolding d (l'.holding d ++ outstanding l d b points)).holding d := by
    rw [Ledger.holding_setHolding_self]
    exact List.mem_append_right _ hr'
  have hnan := nan_of_outstanding_of_held hout hheld
  have hfits := grants_outstanding_iff.1 hgrants r' hr'
  rw [← value_of_mem_neededResources (outstanding_subset hr'), hnan] at hfits
  exact Ledger.fits_nan hfits

/-- A reservation leaves the sums independent of the order on the ports where it still has not
reserved. -/
theorem Ledger.OrderFree.reserve {l : Ledger} {r : Resource} (h : l.OrderFree)
    (hrequested : c.requestedBandwidth? = some b)
    (hout : r ∈ outstanding (reserve l c points).1 c.consumer b points') :
    (HostRouting.reserve l c points).1.OrderFreeAt r.id := by
  have hremains := remains_clearedLedger l c b points
  have hcleared : (clearedLedger l c b points).OrderFreeAt r.id :=
    (h r.id).of_sublist hremains.capacities (hremains.quantities r.id)
  rw [reserve_eq hrequested] at hout ⊢
  by_cases hempty : (outstanding l c.consumer b points).isEmpty = true
  · rw [if_pos hempty]
    exact h r.id
  rw [if_neg hempty, Ledger.allocate] at hout ⊢
  by_cases hgrants : (clearedLedger l c b points).grants (outstanding l c.consumer b points) = true
  · rw [if_pos hgrants] at hout ⊢
    by_cases hgranted : ∃ r' ∈ outstanding l c.consumer b points, r'.id = r.id
    · have hunlimited : (clearedLedger l c b points).capacities.get? r.id = none :=
        unlimited_of_outstanding_granted hgrants hgranted hout
      exact Ledger.orderFreeAt_of_unlimited hunlimited
    · refine hcleared.of_sublist (Ledger.capacities_setHolding _ _ _) ?_
      rw [Ledger.quantities_setHolding_append _ _ fun r' hr' hid => hgranted ⟨r', hr', hid⟩]
  · rw [if_neg hgrants]
    exact hcleared

end

/-! ## Shuffled ledgers -/

namespace ShuffledLedger

variable {l : ShuffledLedger}

theorem fits_eq {id : ResourceId} (h : l.book.OrderFreeAt id) (x : Binary64) :
    l.fits id x = l.book.fits id x := by
  unfold fits Ledger.fits
  cases hcapacity : l.book.capacities.get? id with
  | none => rfl
  | some capacity =>
    have hallocated : l.allocated id = l.book.allocated id :=
      h (by simp [hcapacity]) _ (List.Sublist.refl _) _ (l.perm _ _ _)
    rw [hallocated]

theorem book_giveBack (l : ShuffledLedger) (allocations : List Allocation) :
    (giveBack l allocations).book = giveBack l.book allocations := by
  unfold giveBack
  split <;> rfl

theorem book_giveBackOwn (l : ShuffledLedger) (c : Connectivity) :
    (giveBackOwn l c).book = giveBackOwn l.book c := by
  unfold giveBackOwn
  split
  · exact l.book_giveBack _
  · rfl

theorem book_allocate {resources : List Resource}
    (h : ∀ r ∈ resources, l.book.OrderFreeAt r.id) (d : Consumer) :
    (l.allocate d resources).1.book = (l.book.allocate d resources).1 ∧
      (l.allocate d resources).2 = (l.book.allocate d resources).2 := by
  have hgrants : l.grants resources = l.book.grants resources := by
    unfold grants Ledger.grants
    rw [Bool.eq_iff_iff, List.all_eq_true, List.all_eq_true]
    exact forall₂_congr fun r hr => by rw [fits_eq (h r hr)]
  unfold allocate Ledger.allocate
  rw [hgrants]
  split <;> exact ⟨rfl, rfl⟩

theorem exists_cleared {c : Connectivity} {b : Bandwidth} (l : ShuffledLedger)
    (hrequested : c.requestedBandwidth? = some b) (points : List ConnectPoint) :
    ∃ cleared : ShuffledLedger, cleared.book = clearedLedger l.book c b points ∧
      reserve l c points =
        if (outstanding l.book c.consumer b points).isEmpty then (l, [])
        else cleared.allocate c.consumer (outstanding l.book c.consumer b points) := by
  refine ⟨giveBackOwn (giveBack l ((l.book.held c.consumer).filter fun a =>
    (outstanding l.book c.consumer b points).any (·.id = a.resource.id))) c, ?_, ?_⟩
  · rw [book_giveBackOwn, book_giveBack]
    rfl
  · unfold reserve
    rw [hrequested]
    rfl

/-- Where the order does not matter, a shuffled ledger reserves what its book does. -/
theorem book_reserve {c : Connectivity} {points : List ConnectPoint}
    (h : ∀ b, c.requestedBandwidth? = some b →
      ∀ r ∈ outstanding l.book c.consumer b points, l.book.OrderFreeAt r.id) :
    (reserve l c points).1.book = (reserve l.book c points).1 ∧
      (reserve l c points).2 = (reserve l.book c points).2 := by
  cases hrequested : c.requestedBandwidth? with
  | none =>
    unfold reserve
    rw [hrequested]
    exact ⟨rfl, rfl⟩
  | some b =>
    obtain ⟨cleared, hbook, hreserve⟩ := l.exists_cleared hrequested points
    rw [reserve_eq hrequested, hreserve]
    split
    · exact ⟨rfl, rfl⟩
    · have hremains := remains_clearedLedger l.book c b points
      rw [← hbook] at hremains ⊢
      exact book_allocate (fun r hr =>
        (h b hrequested r hr).of_sublist hremains.capacities (hremains.quantities r.id)) c.consumer

/-- When the order does not matter at first, both reservations of a route are those of the book. -/
theorem book_reserve_both {c : Connectivity} (h : l.book.OrderFree)
    (there back : List ConnectPoint) :
    (reserve (reserve l c there).1 c back).1.book =
      (reserve (reserve l.book c there).1 c back).1 := by
  have hfirst : (reserve l c there).1.book = (reserve l.book c there).1 :=
    (book_reserve fun _ _ r _ => h r.id).1
  rw [← hfirst]
  refine (book_reserve fun b hb r hr => ?_).1
  rw [hfirst] at hr ⊢
  exact h.reserve hb hr

end ShuffledLedger

end HostRouting
