import HostRouting.Proofs.Binary64.Comparison
import HostRouting.Proofs.Reservation.Booking
import HostRouting.Proofs.Reservation.Returns

/-!
# Taking back is subtraction

Allocations are told apart as the ledger does: quantities by value, so that zeros of either sign are
one quantity and not-a-number is none. What is taken back goes out of the list of its consumer one
copy at a time (`Ledger.held_release`), and each copy counts once (`count_foldl_erase`), however
often an allocation is listed and in whatever order.

Main fact: `Ledger.release_subtracts`.
-/

namespace HostRouting

/-! ## Equality of allocations -/

theorem Binary64.beq_iff_units {x y : Binary64} :
    (x == y) = true ↔ (x ≠ .nan ∧ x = y) ∨ ∃ u, x.units? = some u ∧ y.units? = some u := by
  rw [beq_iff]
  rcases x with _ | s | ⟨s, m⟩ <;> rcases y with _ | t | ⟨t, n⟩
  · simp [compare?, units?]
  · simp [compare?, units?]
  · simp [compare?, units?]
  · simp [compare?, units?]
  · cases s <;> cases t <;> simp [compare?, units?]
  · cases s <;> simp [compare?, units?]
  · simp [compare?, units?]
  · cases t <;> simp [compare?, units?]
  · simp only [compare?, units?, Option.some_inj, Int.compare_eq_eq]
    grind

/-- Equality of value is symmetric and transitive, but not-a-number is not equal to itself. -/
instance : PartialEquivBEq Binary64 where
  symm := by
    simp only [Binary64.beq_iff_units]
    grind
  trans := by
    simp only [Binary64.beq_iff_units]
    grind

instance : PartialEquivBEq Resource where
  symm h := by
    obtain ⟨hid, hvalue⟩ := Resource.beq_iff.1 h
    exact Resource.beq_iff.2 ⟨hid.symm, PartialEquivBEq.symm hvalue⟩
  trans h h' := by
    obtain ⟨hid, hvalue⟩ := Resource.beq_iff.1 h
    obtain ⟨hid', hvalue'⟩ := Resource.beq_iff.1 h'
    exact Resource.beq_iff.2 ⟨hid.trans hid', PartialEquivBEq.trans hvalue hvalue'⟩

theorem Allocation.beq_iff {a b : Allocation} :
    (a == b) = true ↔ (a.resource == b.resource) = true ∧ a.consumer = b.consumer := by
  show (a.resource == b.resource && a.consumer == b.consumer) = true ↔ _
  rw [Bool.and_eq_true]
  exact and_congr_right fun _ => beq_iff_eq

instance : PartialEquivBEq Allocation where
  symm h := by
    obtain ⟨hresource, hconsumer⟩ := Allocation.beq_iff.1 h
    exact Allocation.beq_iff.2 ⟨PartialEquivBEq.symm hresource, hconsumer.symm⟩
  trans h h' := by
    obtain ⟨hresource, hconsumer⟩ := Allocation.beq_iff.1 h
    obtain ⟨hresource', hconsumer'⟩ := Allocation.beq_iff.1 h'
    exact Allocation.beq_iff.2
      ⟨PartialEquivBEq.trans hresource hresource', hconsumer.trans hconsumer'⟩

theorem Allocation.beq_self_iff {a : Allocation} : (a == a) = true ↔ a.resource.value ≠ .nan := by
  rw [Allocation.beq_iff, Resource.beq_iff]
  refine ⟨?_, fun h => ⟨⟨rfl, Binary64.beq_self_of_ne_nan h⟩, rfl⟩⟩
  rintro ⟨⟨-, hvalue⟩, -⟩ hnan
  rw [hnan] at hvalue
  exact nomatch hvalue

/-! ## Copies in a list -/

section

variable {α : Type} [BEq α] [PartialEquivBEq α] {a b : α} {xs ys : List α}

theorem count_eq_of_beq (h : (a == b) = true) (xs : List α) : xs.count a = xs.count b := by
  rw [List.count_eq_countP, List.count_eq_countP]
  exact List.countP_congr fun x _ => by rw [BEq.congr_right h]

omit [PartialEquivBEq α] in
theorem count_pos_iff_exists {xs : List α} : 0 < xs.count a ↔ ∃ x ∈ xs, (x == a) = true := by
  rw [List.count_eq_countP, List.countP_pos_iff]

/-- Taking one copy out of a list counts for everything equal to it. -/
theorem count_erase_eq_sub (a b : α) (xs : List α) :
    (xs.erase b).count a = xs.count a - if b == a then 1 else 0 := by
  induction xs with
  | nil => simp
  | cons x xs ih =>
    rw [List.erase_cons]
    by_cases hx : (x == b) = true
    · rw [if_pos hx, List.count_cons, BEq.congr_left hx, Nat.add_sub_cancel]
    · rw [if_neg hx, List.count_cons, List.count_cons, ih]
      by_cases hb : (b == a) = true
      · -- An item equal to both would make them equal.
        have hne : ¬(x == a) = true := fun h =>
          hx (PartialEquivBEq.trans h (PartialEquivBEq.symm hb))
        rw [if_neg hne, Nat.add_zero, Nat.add_zero]
      · rw [if_neg hb, Nat.sub_zero, Nat.sub_zero]

theorem count_foldl_erase (a : α) (xs ys : List α) :
    (ys.foldl List.erase xs).count a = xs.count a - ys.count a := by
  induction ys generalizing xs with
  | nil => rfl
  | cons y ys ih =>
    rw [List.foldl_cons, ih, count_erase_eq_sub, List.count_cons, Nat.sub_sub, Nat.add_comm]

omit [PartialEquivBEq α] in
theorem foldl_erase_sublist (xs ys : List α) : (ys.foldl List.erase xs).Sublist xs := by
  induction ys generalizing xs with
  | nil => exact List.Sublist.refl xs
  | cons y ys ih => exact (ih (xs.erase y)).trans List.erase_sublist

omit [PartialEquivBEq α] in
theorem foldl_erase_eq_self (h : ∀ y ∈ ys, ∀ x ∈ xs, ¬(x == y) = true) :
    ys.foldl List.erase xs = xs := by
  induction ys with
  | nil => rfl
  | cons y ys ih =>
    obtain ⟨hy, hys⟩ := List.forall_mem_cons.1 h
    rw [List.foldl_cons, List.erase_eq_eraseP', List.eraseP_of_forall_not hy, ih hys]

omit [PartialEquivBEq α] in
/-- What is equal to nothing listed stays where it is. -/
theorem filter_foldl_erase {p : α → Bool} (hp : ∀ y ∈ ys, ∀ x, (x == y) = true → p x = false)
    (xs : List α) : (ys.foldl List.erase xs).filter p = xs.filter p := by
  induction ys generalizing xs with
  | nil => rfl
  | cons y ys ih =>
    rw [List.foldl_cons, ih fun y hy => hp y (List.mem_cons_of_mem _ hy)]
    induction xs with
    | nil => rfl
    | cons x xs ih' =>
      rw [List.erase_cons]
      by_cases hx : (x == y) = true
      · rw [if_pos hx, List.filter_cons, hp y List.mem_cons_self x hx]
        rfl
      · rw [if_neg hx, List.filter_cons, List.filter_cons, ih']

omit [PartialEquivBEq α] in
/-- Of a list with others behind it as many items are left when these are taken out. -/
theorem length_foldl_erase_append (hys : ∀ y ∈ ys, (y == y) = true) (xs : List α) :
    (ys.foldl List.erase (xs ++ ys)).length = xs.length := by
  induction ys generalizing xs with
  | nil => rw [List.append_nil]; rfl
  | cons y ys ih =>
    have hrest := ih fun y hy => hys y (List.mem_cons_of_mem _ hy)
    have hself : (y == y) = true := hys y List.mem_cons_self
    rw [List.foldl_cons, List.erase_eq_eraseP']
    by_cases hfound : ∃ x ∈ xs, (x == y) = true
    · obtain ⟨x, hx, hxy⟩ := hfound
      have hpos : 0 < xs.length := List.length_pos_of_mem hx
      rw [List.eraseP_append_left (p := (· == y)) hxy _ hx, List.append_cons, hrest,
        List.length_append, List.length_eraseP_of_mem (p := (· == y)) hx hxy, List.length_singleton,
        Nat.sub_add_cancel hpos]
    · rw [List.eraseP_append_right _ fun x hx hxy => hfound ⟨x, hx, hxy⟩,
        List.eraseP_cons_of_pos (p := (· == y)) hself, hrest]

end

namespace Ledger

variable {l : Ledger}

/-! ## Allocations that are taken back -/

theorem not_beq_of_mem_held {a b : Allocation} {c : Consumer} (hb : b ∈ l.held c)
    (hc : c ≠ a.consumer) : ¬(b == a) = true := fun h =>
  hc ((consumer_of_mem_held hb).symm.trans (Allocation.beq_iff.1 h).2)

theorem erase_map_allocation (resources : List Resource) (r : Resource) (c : Consumer) :
    (resources.map (⟨·, c⟩ : Resource → Allocation)).erase ⟨r, c⟩ =
      (resources.erase r).map (⟨·, c⟩) := by
  induction resources with
  | nil => rfl
  | cons s resources ih =>
    have hsame : ((⟨s, c⟩ : Allocation) == ⟨r, c⟩) = (s == r) := by
      rw [Bool.eq_iff_iff, Allocation.beq_iff]
      exact and_iff_left rfl
    rw [List.map_cons, List.erase_cons, List.erase_cons, hsame, ih]
    split <;> rfl

/-- An allocation that is taken back goes out of every list that has it. -/
theorem held_releaseOne (l : Ledger) (a : Allocation) (c : Consumer) :
    (l.releaseOne a).1.held c = (l.held c).erase a := by
  by_cases hc : c = a.consumer
  · subst hc
    have herase : ((l.holding a.consumer).erase a.resource).map (⟨·, a.consumer⟩) =
        (l.held a.consumer).erase a := (erase_map_allocation _ a.resource a.consumer).symm
    rw [← herase]
    unfold releaseOne held
    dsimp only
    split
    next => rw [holding_setHolding_self]
    next hmissing =>
      rw [List.erase_eq_eraseP', List.eraseP_of_forall_not]
      intro r hr hbeq
      exact hmissing (List.contains_iff_exists_mem_beq.2 ⟨r, hr, PartialEquivBEq.symm hbeq⟩)
  · have hothers : (l.releaseOne a).1.held c = l.held c :=
      congrArg (List.map _) (l.holding_releaseOne_of_ne hc)
    rw [hothers, List.erase_eq_eraseP',
      List.eraseP_of_forall_not fun b hb => not_beq_of_mem_held hb hc]

theorem releaseOne_snd_iff {a : Allocation} :
    (l.releaseOne a).2 = true ↔ 0 < (l.held a.consumer).count a := by
  have hheld : (∃ b ∈ l.held a.consumer, (b == a) = true) ↔
      (l.holding a.consumer).contains a.resource = true := by
    rw [List.contains_iff_exists_mem_beq]
    unfold held
    simp only [List.mem_map, exists_exists_and_eq_and, Allocation.beq_iff, and_true]
    exact exists_congr fun r => and_congr_right fun _ =>
      ⟨PartialEquivBEq.symm, PartialEquivBEq.symm⟩
  rw [count_pos_iff_exists, hheld]
  unfold releaseOne
  dsimp only
  split <;> simp [*]

theorem held_release (l : Ledger) (allocations : List Allocation) (c : Consumer) :
    (l.release allocations).1.held c = allocations.foldl List.erase (l.held c) := by
  induction allocations generalizing l with
  | nil => rfl
  | cons a rest ih =>
    show ((l.releaseOne a).1.release rest).1.held c = _
    rw [ih, held_releaseOne, List.foldl_cons]

/-- All of a list were held just when none of it is listed more often than it is held. -/
theorem release_snd_iff (l : Ledger) (allocations : List Allocation) :
    (l.release allocations).2 = true ↔
      (∀ a ∈ allocations, a.resource.value ≠ .nan) ∧
        ∀ a, allocations.count a ≤ (l.held a.consumer).count a := by
  induction allocations generalizing l with
  | nil => exact iff_of_true rfl ⟨by simp, by simp⟩
  | cons b rest ih =>
    show ((l.releaseOne b).2 && ((l.releaseOne b).1.release rest).2) = true ↔ _
    rw [Bool.and_eq_true, releaseOne_snd_iff, ih, List.forall_mem_cons]
    simp only [held_releaseOne, count_erase_eq_sub, List.count_cons]
    constructor
    · rintro ⟨hfound, hnumbers, hrest⟩
      obtain ⟨x, -, hx⟩ := count_pos_iff_exists.1 hfound
      have hself : (b == b) = true := PartialEquivBEq.trans (PartialEquivBEq.symm hx) hx
      refine ⟨⟨Allocation.beq_self_iff.1 hself, hnumbers⟩, fun a => ?_⟩
      have ha := hrest a
      by_cases hba : (b == a) = true
      · rw [count_eq_of_beq hba, (Allocation.beq_iff.1 hba).2] at hfound
        rw [if_pos hba] at ha ⊢
        omega
      · rw [if_neg hba] at ha ⊢
        exact ha
    · rintro ⟨⟨hnumber, hnumbers⟩, hall⟩
      have hb := hall b
      rw [if_pos (Allocation.beq_self_iff.2 hnumber)] at hb
      refine ⟨by omega, hnumbers, fun a => ?_⟩
      have ha := hall a
      omega

/-! ## Giving back what was granted -/

theorem held_allocate (l : Ledger) (c : Consumer) (resources : List Resource) (d : Consumer) :
    (l.allocate c resources).1.held d =
      l.held d ++ if d = c then (l.allocate c resources).2 else [] := by
  rcases l.allocate_cases c resources with ⟨-, h⟩ | ⟨-, h⟩
  · unfold held
    by_cases hd : d = c
    · rw [if_pos hd, hd, h.holding, h.made, List.map_append]
    · rw [if_neg hd, h.others d hd, List.append_nil]
  · rw [h]
    simp

/-- A grant that is given back at once leaves everyone with as many copies of every allocation, and
as many in all. -/
theorem release_allocate (l : Ledger) (c : Consumer) {resources : List Resource}
    (hnumbers : ∀ r ∈ resources, r.value ≠ .nan) :
    let granted := l.allocate c resources
    let back := granted.1.release granted.2
    back.2 = true ∧ (∀ a, (back.1.held a.consumer).count a = (l.held a.consumer).count a) ∧
      ∀ d, (back.1.held d).length = (l.held d).length := by
  intro granted back
  have hmade : ∀ a ∈ granted.2, a.consumer = c ∧ a.resource.value ≠ .nan := by
    rcases l.allocate_cases c resources with ⟨-, h⟩ | ⟨-, h⟩
    · intro a ha
      rw [h.made] at ha
      obtain ⟨r, hr, rfl⟩ := List.mem_map.1 ha
      exact ⟨rfl, hnumbers r hr⟩
    · intro a ha
      rw [show granted = (l, []) from h] at ha
      exact absurd ha List.not_mem_nil
  have hheld : ∀ a, (granted.1.held a.consumer).count a =
      (l.held a.consumer).count a + granted.2.count a := by
    intro a
    show ((l.allocate c resources).1.held a.consumer).count a = _
    rw [held_allocate, List.count_append]
    split
    next => rfl
    next hc =>
      -- What is granted to someone else is not counted.
      have hnone : granted.2.count a = 0 := by
        refine Nat.eq_zero_of_not_pos fun hpos => ?_
        obtain ⟨b, hb, hbeq⟩ := count_pos_iff_exists.1 hpos
        exact hc ((Allocation.beq_iff.1 hbeq).2.symm.trans (hmade b hb).1)
      rw [hnone, List.count_nil]
  refine ⟨?_, fun a => ?_, fun d => ?_⟩
  · refine (granted.1.release_snd_iff granted.2).2 ⟨fun a ha => (hmade a ha).2, fun a => ?_⟩
    rw [hheld]
    exact Nat.le_add_left _ _
  · show ((granted.1.release granted.2).1.held a.consumer).count a = _
    rw [held_release, count_foldl_erase, hheld, Nat.add_sub_cancel]
  · show ((granted.1.release granted.2).1.held d).length = _
    rw [held_release, show granted.1.held d = _ from l.held_allocate c resources d]
    split
    next => exact length_foldl_erase_append (fun a ha => Allocation.beq_self_iff.2 (hmade a ha).2) _
    next hd =>
      rw [List.append_nil, foldl_erase_eq_self]
      exact fun a ha b hb => not_beq_of_mem_held hb fun heq => hd (heq.trans (hmade a ha).1)

/-- Taking allocations back is subtraction. Of every allocation as many copies are left as were held
less those listed, as far as there were any; what is left of a consumer's list stands in its order,
and everything that is not listed is still there. The answer is that all were held just when none is
listed more often than it was held, where a quantity that is not a number is never held. So what a
request was granted can be given back, and everyone holds what they held before. -/
theorem release_subtracts (l : Ledger) (allocations : List Allocation) :
    let after := (l.release allocations).1
    let unlisted (a : Allocation) := !allocations.contains a
    (∀ a, (after.held a.consumer).count a =
        (l.held a.consumer).count a - allocations.count a) ∧
      (∀ c, (after.held c).Sublist (l.held c) ∧
        (after.held c).filter unlisted = (l.held c).filter unlisted) ∧
      ((l.release allocations).2 = true ↔ (∀ a ∈ allocations, a.resource.value ≠ .nan) ∧
        ∀ a, allocations.count a ≤ (l.held a.consumer).count a) ∧
      ∀ c resources, (∀ r ∈ resources, r.value ≠ .nan) →
        let granted := l.allocate c resources
        let back := granted.1.release granted.2
        back.2 = true ∧ (∀ a, (back.1.held a.consumer).count a = (l.held a.consumer).count a) ∧
          ∀ d, (back.1.held d).length = (l.held d).length := by
  intro after unlisted
  have hheld : ∀ c, after.held c = allocations.foldl List.erase (l.held c) :=
    l.held_release allocations
  have hunlisted : ∀ b ∈ allocations, ∀ a, (a == b) = true → unlisted a = false := by
    intro b hb a hab
    have hlisted : allocations.contains a = true :=
      List.contains_iff_exists_mem_beq.2 ⟨b, hb, hab⟩
    show (!allocations.contains a) = false
    rw [hlisted]
    rfl
  refine ⟨fun a => ?_, fun c => ⟨?_, ?_⟩, l.release_snd_iff allocations,
    fun c resources hnumbers => l.release_allocate c hnumbers⟩
  · rw [hheld, count_foldl_erase]
  · rw [hheld]
    exact foldl_erase_sublist _ _
  · rw [hheld]
    exact filter_foldl_erase hunlisted _

end Ledger

end HostRouting
