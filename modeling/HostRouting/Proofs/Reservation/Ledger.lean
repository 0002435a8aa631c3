import HostRouting.Compiler.Reservation
import HostRouting.Proofs.Binary64.Quantity
import HostRouting.Proofs.SortedMap

/-!
# What operations do to a ledger

Taking allocations back leaves a part of what was held, and granting a request adds to what its
consumer holds, so the quantities of all other resources do not grow.

Main facts: `Ledger.release_spec` and `Ledger.quantities_setHolding_append`.
-/

namespace HostRouting

/-! ## Resources -/

theorem Resource.ext {r r' : Resource} (hid : r.id = r'.id) (hvalue : r.value = r'.value) :
    r = r' := by
  cases r; cases r'
  simp_all

theorem Resource.beq_iff {r r' : Resource} :
    (r == r') = true ↔ r.id = r'.id ∧ (r.value == r'.value) = true := by
  show (r.id == r'.id && r.value == r'.value) = true ↔ _
  rw [Bool.and_eq_true, beq_iff_eq]

namespace Ledger

/-! ## Quantities -/

/-- No one holds a negative quantity. -/
def Nonneg (l : Ledger) : Prop := ∀ a ∈ l.allocations, 0 ≤ a.resource.value

instance (l : Ledger) : Decidable l.Nonneg :=
  inferInstanceAs (Decidable (∀ a ∈ l.allocations, _))

theorem nonneg_iff {l : Ledger} : l.Nonneg ↔ ∀ r ∈ l.everything, 0 ≤ r.value := by
  unfold Nonneg allocations everything SortedMap.values
  constructor
  · intro h r hr
    obtain ⟨rs, hrs, hr⟩ := List.mem_flatten.1 hr
    obtain ⟨e, he, rfl⟩ := List.mem_map.1 hrs
    exact h ⟨r, e.1⟩ (List.mem_flatMap.2 ⟨e, he, List.mem_map.2 ⟨r, hr, rfl⟩⟩)
  · intro h a ha
    obtain ⟨e, he, ha⟩ := List.mem_flatMap.1 ha
    obtain ⟨r, hr, rfl⟩ := List.mem_map.1 ha
    exact h r (List.mem_flatten.2 ⟨e.2, List.mem_map.2 ⟨e, he, rfl⟩, hr⟩)

theorem mem_quantities {l : Ledger} {id : ResourceId} {x : Binary64} (h : x ∈ l.quantities id) :
    ∃ r ∈ l.everything, r.value = x := by
  obtain ⟨r, hr, rfl⟩ := List.mem_map.1 h
  exact ⟨r, (List.mem_filter.1 hr).1, rfl⟩

theorem Nonneg.quantities {l : Ledger} (h : l.Nonneg) (id : ResourceId) :
    ∀ x ∈ l.quantities id, 0 ≤ x := by
  intro x hx
  obtain ⟨r, hr, rfl⟩ := mem_quantities hx
  exact nonneg_iff.1 h r hr

theorem fits_congr {l l' : Ledger} {id : ResourceId} (hcapacities : l'.capacities = l.capacities)
    (hquantities : l'.quantities id = l.quantities id) (x : Binary64) :
    l'.fits id x = l.fits id x := by
  have hallocated : l'.allocated id = l.allocated id := congrArg Binary64.sum hquantities
  unfold fits
  rw [hcapacities, hallocated]

theorem fits_of_unlimited {l : Ledger} {id : ResourceId} (h : l.capacities.get? id = none)
    (x : Binary64) : l.fits id x = true := by
  unfold fits
  rw [h]

/-- A quantity may as well be added to zero first. -/
theorem fits_zero_add (l : Ledger) (id : ResourceId) (x : Binary64) :
    l.fits id (0 + x) = l.fits id x := by
  unfold fits
  split
  next => exact decide_eq_decide.2 (Binary64.add_zero_add_le_iff _ _ _)
  next => rfl

/-! ## Changing what a consumer holds -/

@[simp] theorem capacities_setHolding (l : Ledger) (c : Consumer) (resources : List Resource) :
    (l.setHolding c resources).capacities = l.capacities := rfl

theorem everything_setHolding (l : Ledger) (c : Consumer) (resources : List Resource) :
    ∃ left right, l.everything = left ++ l.holding c ++ right ∧
      (l.setHolding c resources).everything = left ++ resources ++ right := by
  unfold setHolding
  by_cases h : resources = []
  · obtain ⟨left, right, hbefore, hafter⟩ := SortedMap.flatten_filter l.holdings.increasing c
    refine ⟨left, right, hbefore, ?_⟩
    simp only [h, List.isEmpty_nil, if_true, List.append_nil]
    exact hafter
  · obtain ⟨left, right, hbefore, hafter⟩ :=
      SortedMap.flatten_insertEntry l.holdings.increasing c resources
    refine ⟨left, right, hbefore, ?_⟩
    rw [if_neg (by simpa using h)]
    exact hafter

theorem everything_sublist_of_holding {l : Ledger} {c : Consumer} {resources : List Resource}
    (h : resources.Sublist (l.holding c)) :
    (l.setHolding c resources).everything.Sublist l.everything := by
  obtain ⟨left, right, hbefore, hafter⟩ := l.everything_setHolding c resources
  rw [hbefore, hafter]
  exact ((List.Sublist.refl _).append h).append (List.Sublist.refl _)

theorem quantities_setHolding_append (l : Ledger) (c : Consumer) {resources : List Resource}
    {id : ResourceId} (h : ∀ r ∈ resources, r.id ≠ id) :
    (l.setHolding c (l.holding c ++ resources)).quantities id = l.quantities id := by
  obtain ⟨left, right, hbefore, hafter⟩ := l.everything_setHolding c (l.holding c ++ resources)
  have hnone : resources.filter (·.id = id) = [] := by
    apply List.filter_eq_nil_iff.2
    intro r hr
    simp [h r hr]
  unfold quantities
  rw [hbefore, hafter]
  simp only [List.filter_append, hnone, List.append_nil]

theorem Nonneg.setHolding_append {l : Ledger} (h : l.Nonneg) {c : Consumer}
    {resources : List Resource} (hresources : ∀ r ∈ resources, 0 ≤ r.value) :
    (l.setHolding c (l.holding c ++ resources)).Nonneg := by
  obtain ⟨left, right, hbefore, hafter⟩ := l.everything_setHolding c (l.holding c ++ resources)
  rw [nonneg_iff] at h ⊢
  rw [hbefore] at h
  rw [hafter]
  simp only [List.mem_append] at h ⊢
  rintro r ((hr | hr | hr) | hr)
  · exact h r (.inl (.inl hr))
  · exact h r (.inl (.inr hr))
  · exact hresources r hr
  · exact h r (.inr hr)

/-! ## Taking allocations back -/

/-- A ledger that remains when allocations are taken back, none of which the consumer holds on other
resources than the given ones. -/
structure Remains (c : Consumer) (ids : List ResourceId) (before after : Ledger) : Prop where
  capacities : after.capacities = before.capacities
  everything : after.everything.Sublist before.everything
  held : ∀ r ∈ before.holding c, r.id ∉ ids → r ∈ after.holding c

section

variable {c : Consumer} {ids : List ResourceId} {l l' l'' : Ledger}

theorem Remains.refl : Remains c ids l l :=
  ⟨rfl, List.Sublist.refl _, fun _ hr _ => hr⟩

theorem Remains.trans (h : Remains c ids l l') (h' : Remains c ids l' l'') :
    Remains c ids l l'' :=
  ⟨h'.capacities.trans h.capacities, h'.everything.trans h.everything,
    fun r hr hid => h'.held r (h.held r hr hid) hid⟩

theorem Remains.quantities (h : Remains c ids l l') (id : ResourceId) :
    (l'.quantities id).Sublist (l.quantities id) :=
  (h.everything.filter _).map _

theorem Remains.nonneg (h : Remains c ids l l') (hl : l.Nonneg) : l'.Nonneg :=
  nonneg_iff.2 fun r hr => nonneg_iff.1 hl r (h.everything.mem hr)

theorem releaseOne_spec (l : Ledger) {a : Allocation}
    (h : a.consumer = c → a.resource.id ∈ ids) : Remains c ids l (l.releaseOne a).1 := by
  unfold releaseOne
  dsimp only
  split
  next =>
    refine ⟨rfl, everything_sublist_of_holding List.erase_sublist, ?_⟩
    intro r hr hid
    by_cases hc : c = a.consumer
    · subst hc
      have hne : ¬(r == a.resource) = true := fun he =>
        hid ((Resource.beq_iff.1 he).1 ▸ h rfl)
      rw [holding_setHolding_self, List.erase_eq_eraseP']
      exact (List.mem_eraseP_of_neg (p := (· == a.resource)) hne).2 hr
    · rw [holding_setHolding_of_ne _ hc]
      exact hr
  next => exact Remains.refl

/-- Taking allocations back leaves everything else. -/
theorem release_spec (l : Ledger) {allocations : List Allocation}
    (h : ∀ a ∈ allocations, a.consumer = c → a.resource.id ∈ ids) :
    Remains c ids l (l.release allocations).1 := by
  induction allocations generalizing l with
  | nil => exact Remains.refl
  | cons a rest ih =>
    have hfirst := releaseOne_spec l (h a List.mem_cons_self)
    exact hfirst.trans (ih (l.releaseOne a).1 fun b hb => h b (List.mem_cons_of_mem _ hb))

theorem giveBack_spec (l : Ledger) {allocations : List Allocation}
    (h : ∀ a ∈ allocations, a.consumer = c → a.resource.id ∈ ids) :
    Remains c ids l (giveBack l allocations) := by
  unfold giveBack
  split
  · exact Remains.refl
  · exact release_spec l h

end

end Ledger

end HostRouting
