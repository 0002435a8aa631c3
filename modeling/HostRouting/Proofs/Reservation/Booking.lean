import HostRouting.Proofs.Reservation.Ledger
import Mathlib.Algebra.Order.BigOperators.Group.List

/-!
# No resource is overbooked

Quantities are compared exactly, as numbers of units that may be infinite. Requests ask for
quantities that are not negative, and the sums that decide about them need no rounding.

1. A request is granted just when it fits into what is left of every resource that it names
   (`Ledger.grants_iff`).
2. A granted request adds what it names and nothing else (`Ledger.allocate_cases`), and taking
   allocations back adds nothing, so each transaction keeps every resource within its capacity
   (`Ledger.WithinCapacity.apply`).

Main fact: `Ledger.run_within_capacity`.
-/

namespace HostRouting.Ledger

open Binary64

/-! ## Exact amounts -/

/-- The exact amount of a resource in a list. -/
def amount (id : ResourceId) (resources : List Resource) : ℕ∞ :=
  ((resources.filter (·.id = id)).map (·.value.quantity)).sum

theorem amount_append (id : ResourceId) (resources resources' : List Resource) :
    amount id (resources ++ resources') = amount id resources + amount id resources' := by
  unfold amount
  rw [List.filter_append, List.map_append, List.sum_append]

theorem amount_le_of_sublist {id : ResourceId} {resources resources' : List Resource}
    (h : resources.Sublist resources') : amount id resources ≤ amount id resources' :=
  ((h.filter _).map _).sum_le_sum fun _ _ => zero_le

theorem amount_eq_zero {id : ResourceId} {resources : List Resource}
    (h : ∀ r ∈ resources, r.id ≠ id) : amount id resources = 0 := by
  have hnone : resources.filter (·.id = id) = [] :=
    List.filter_eq_nil_iff.2 fun r hr => by simpa using h r hr
  unfold amount
  rw [hnone]
  rfl

theorem everything_eq (l : Ledger) : l.everything = l.allocations.map Allocation.resource := by
  unfold everything allocations SortedMap.values
  induction l.holdings.entries with
  | nil => rfl
  | cons e rest ih =>
    rw [List.map_cons, List.flatten_cons, List.flatMap_cons, List.map_append, ← ih, List.map_map]
    exact congrArg (· ++ _) (List.map_id e.2).symm

/-- The exact amount of a resource that all consumers hold together. -/
def booked (l : Ledger) (id : ResourceId) : ℕ∞ := amount id l.everything

theorem booked_setHolding_append (l : Ledger) (c : Consumer) (resources : List Resource)
    (id : ResourceId) :
    (l.setHolding c (l.holding c ++ resources)).booked id = l.booked id + amount id resources := by
  obtain ⟨left, right, hbefore, hafter⟩ := l.everything_setHolding c (l.holding c ++ resources)
  unfold booked
  rw [hbefore, hafter]
  simp only [amount_append]
  ac_rfl

/-! ## Requests -/

/-- The sums that decide about a request need no rounding. -/
def ExactRequest (l : Ledger) (resources : List Resource) : Prop :=
  ∀ r ∈ resources, l.capacities.contains r.id = true →
    (l.allocated r.id + total r.id resources).quantity = l.booked r.id + amount r.id resources

instance (l : Ledger) (resources : List Resource) : Decidable (l.ExactRequest resources) :=
  inferInstanceAs (Decidable (∀ r ∈ resources, _ → _))

/-- What a request names is left of every resource. -/
def HasRoom (l : Ledger) (resources : List Resource) : Prop :=
  ∀ r ∈ resources, ∀ capacity, l.capacities.get? r.id = some capacity →
    l.booked r.id + amount r.id resources ≤ capacity.quantity

/-- No consumer holds a negative quantity, and the capacity of every resource suffices for what all
consumers hold of it. -/
structure WithinCapacity (l : Ledger) : Prop where
  nonneg : l.Nonneg
  capacities : ∀ id capacity, l.capacities.get? id = some capacity → 0 ≤ capacity
  within : ∀ id capacity, l.capacities.get? id = some capacity →
    l.booked id ≤ capacity.quantity

/-- What a granted request does: it adds what it names to what its consumer holds. -/
structure Granted (before : Ledger) (c : Consumer) (resources : List Resource) (after : Ledger)
    (made : List Allocation) : Prop where
  made : made = resources.map (⟨·, c⟩)
  holding : after.holding c = before.holding c ++ resources
  others : ∀ d, d ≠ c → after.holding d = before.holding d
  capacities : after.capacities = before.capacities

section

variable {l : Ledger}

theorem total_nonneg {resources : List Resource} (h : ∀ r ∈ resources, 0 ≤ r.value)
    (id : ResourceId) : 0 ≤ total id resources := by
  refine sum_nonneg fun x hx => ?_
  obtain ⟨r, hr, rfl⟩ := List.mem_map.1 hx
  exact h r (List.mem_filter.1 hr).1

/-- A request is granted just when there is room for it. -/
theorem grants_iff (hl : l.WithinCapacity) {resources : List Resource}
    (hresources : ∀ r ∈ resources, 0 ≤ r.value) (hexact : l.ExactRequest resources) :
    l.grants resources = true ↔ l.HasRoom resources := by
  have hfits : ∀ r ∈ resources, (l.fits r.id (total r.id resources) = true ↔
      ∀ capacity, l.capacities.get? r.id = some capacity →
        l.booked r.id + amount r.id resources ≤ capacity.quantity) := by
    intro r hr
    unfold fits
    cases hcapacity : l.capacities.get? r.id with
    | none => simp
    | some capacity =>
      have hsum : 0 ≤ l.allocated r.id + total r.id resources :=
        add_nonneg (sum_nonneg (hl.nonneg.quantities r.id)) (total_nonneg hresources r.id)
      have hknown : l.capacities.contains r.id = true := by simp [SortedMap.contains, hcapacity]
      rw [decide_eq_true_iff, le_iff_quantity hsum (hl.capacities _ _ hcapacity),
        hexact r hr hknown]
      simp
  unfold grants HasRoom
  rw [List.all_eq_true]
  exact forall₂_congr hfits

theorem granted_allocate {c : Consumer} {resources : List Resource}
    (h : l.grants resources = true) :
    Granted l c resources (l.allocate c resources).1 (l.allocate c resources).2 := by
  unfold allocate
  rw [if_pos h]
  exact ⟨rfl, holding_setHolding_self _ _ _, fun d hd => holding_setHolding_of_ne _ hd _, rfl⟩

/-- A request is granted as a whole, or nothing is allocated and nothing changes. -/
theorem allocate_cases (l : Ledger) (c : Consumer) (resources : List Resource) :
    (l.grants resources = true ∧
      Granted l c resources (l.allocate c resources).1 (l.allocate c resources).2) ∨
    (l.grants resources = false ∧ l.allocate c resources = (l, [])) := by
  cases h : l.grants resources with
  | true => exact .inl ⟨rfl, granted_allocate h⟩
  | false => exact .inr ⟨rfl, by simp [allocate, h]⟩

/-- A single resource is available just when a request for it is granted. -/
theorem isAvailable_iff_grants (l : Ledger) (r : Resource) :
    l.isAvailable r = true ↔ l.grants [r] = true := by
  have htotal : total r.id [r] = 0 + r.value := by
    unfold total
    rw [List.filter_cons_of_pos (by simp)]
    rfl
  unfold isAvailable grants
  rw [List.all_cons, List.all_nil, Bool.and_true, htotal, fits_zero_add]

end

/-! ## Transactions -/

/-- What consumers have a ledger do. -/
inductive Transaction where
  | allocate (c : Consumer) (resources : List Resource)
  | release (allocations : List Allocation)

/-- Nothing negative is asked for. -/
def Transaction.Nonneg : Transaction → Prop
  | .allocate _ resources => ∀ r ∈ resources, 0 ≤ r.value
  | .release _ => True

instance : (t : Transaction) → Decidable t.Nonneg
  | .allocate _ resources => inferInstanceAs (Decidable (∀ r ∈ resources, _))
  | .release _ => .isTrue trivial

def apply (l : Ledger) : Transaction → Ledger
  | .allocate c resources => (l.allocate c resources).1
  | .release allocations => (l.release allocations).1

def run (l : Ledger) (ts : List Transaction) : Ledger := ts.foldl apply l

/-- The sums that decide about the requests of a run need no rounding. -/
def ExactRun : Ledger → List Transaction → Prop
  | _, [] => True
  | l, .allocate c resources :: rest =>
    l.ExactRequest resources ∧ ExactRun (l.apply (.allocate c resources)) rest
  | l, .release allocations :: rest => ExactRun (l.apply (.release allocations)) rest

instance decidableExactRun : (l : Ledger) → (ts : List Transaction) → Decidable (l.ExactRun ts)
  | _, [] => .isTrue trivial
  | l, .allocate c resources :: rest =>
    have := decidableExactRun (l.apply (.allocate c resources)) rest
    inferInstanceAs (Decidable (_ ∧ _))
  | l, .release allocations :: rest => decidableExactRun (l.apply (.release allocations)) rest

section

variable {l : Ledger}

theorem WithinCapacity.allocate (hl : l.WithinCapacity) {resources : List Resource}
    (hresources : ∀ r ∈ resources, 0 ≤ r.value) (hexact : l.ExactRequest resources)
    (c : Consumer) : (l.allocate c resources).1.WithinCapacity := by
  unfold Ledger.allocate
  split
  next hgrants =>
    refine ⟨hl.nonneg.setHolding_append hresources, hl.capacities, fun id capacity hcapacity => ?_⟩
    rw [booked_setHolding_append]
    by_cases hnamed : ∃ r ∈ resources, r.id = id
    · obtain ⟨r, hr, rfl⟩ := hnamed
      exact (grants_iff hl hresources hexact).1 hgrants r hr capacity hcapacity
    · rw [amount_eq_zero fun r hr hid => hnamed ⟨r, hr, hid⟩, add_zero]
      exact hl.within id capacity hcapacity
  next => exact hl

/-- No consumer is singled out here, so every resource may be among those taken back. -/
theorem exists_remains_release (l : Ledger) (allocations : List Allocation) :
    ∃ ids, Remains (.group ⟨0⟩) ids l (l.release allocations).1 :=
  ⟨allocations.map (·.resource.id), release_spec l fun a ha _ => List.mem_map.2 ⟨a, ha, rfl⟩⟩

theorem WithinCapacity.release (hl : l.WithinCapacity) (allocations : List Allocation) :
    (l.release allocations).1.WithinCapacity := by
  obtain ⟨ids, h⟩ := l.exists_remains_release allocations
  refine ⟨h.nonneg hl.nonneg, fun id capacity hcapacity => ?_, fun id capacity hcapacity => ?_⟩
  · rw [h.capacities] at hcapacity
    exact hl.capacities id capacity hcapacity
  · rw [h.capacities] at hcapacity
    exact (amount_le_of_sublist h.everything).trans (hl.within id capacity hcapacity)

theorem capacities_apply (l : Ledger) (t : Transaction) :
    (l.apply t).capacities = l.capacities := by
  cases t with
  | allocate c resources =>
    rcases l.allocate_cases c resources with ⟨-, h⟩ | ⟨-, h⟩
    · exact h.capacities
    · exact congrArg (·.1.capacities) h
  | release allocations =>
    obtain ⟨ids, h⟩ := l.exists_remains_release allocations
    exact h.capacities

theorem capacities_run (l : Ledger) (ts : List Transaction) :
    (l.run ts).capacities = l.capacities := by
  induction ts generalizing l with
  | nil => rfl
  | cons t rest ih => exact (ih (l.apply t)).trans (l.capacities_apply t)

/-- Transactions keep every resource within its capacity. -/
theorem WithinCapacity.run (hl : l.WithinCapacity) {ts : List Transaction}
    (hnonneg : ∀ t ∈ ts, t.Nonneg) (hexact : l.ExactRun ts) : (l.run ts).WithinCapacity := by
  induction ts generalizing l with
  | nil => exact hl
  | cons t rest ih =>
    have hrest : ∀ t ∈ rest, t.Nonneg := fun t ht => hnonneg t (List.mem_cons_of_mem _ ht)
    have ht := hnonneg t List.mem_cons_self
    cases t with
    | allocate c resources => exact ih (hl.allocate ht hexact.1 c) hrest hexact.2
    | release allocations => exact ih (hl.release allocations) hrest hexact

theorem withinCapacity_of_empty (hempty : l.allocations = [])
    (hcapacities : ∀ id capacity, l.capacities.get? id = some capacity → 0 ≤ capacity) :
    l.WithinCapacity := by
  have hnonneg : l.Nonneg := by
    unfold Ledger.Nonneg
    rw [hempty]
    exact fun a ha => absurd ha List.not_mem_nil
  have hnothing : l.everything = [] := by
    rw [everything_eq, hempty]
    rfl
  refine ⟨hnonneg, hcapacities, fun id capacity _ => ?_⟩
  unfold booked
  rw [hnothing]
  exact zero_le

/-- However a ledger without allocations is used, the consumers together never hold more of a
resource than its capacity. At any time a request is granted as a whole or changes nothing; one that
asks for nothing negative is granted just when there is room for it, and one for a single resource
just when that is reported as available. -/
theorem run_within_capacity {ts : List Transaction} (hempty : l.allocations = [])
    (hcapacities : ∀ id capacity, l.capacities.get? id = some capacity → 0 ≤ capacity)
    (hnonneg : ∀ t ∈ ts, t.Nonneg) (hexact : l.ExactRun ts) :
    (∀ id capacity, l.capacities.get? id = some capacity →
      (l.run ts).booked id ≤ capacity.quantity) ∧
    (∀ c resources, ((l.run ts).grants resources = true ∧
        Granted (l.run ts) c resources ((l.run ts).allocate c resources).1
          ((l.run ts).allocate c resources).2) ∨
      ((l.run ts).grants resources = false ∧ (l.run ts).allocate c resources = (l.run ts, []))) ∧
    (∀ resources, (∀ r ∈ resources, 0 ≤ r.value) → (l.run ts).ExactRequest resources →
      ((l.run ts).grants resources = true ↔ (l.run ts).HasRoom resources)) ∧
    ∀ r c, (l.run ts).isAvailable r = true ↔ ((l.run ts).allocate c [r]).2 = [⟨r, c⟩] := by
  have hwithin := (withinCapacity_of_empty hempty hcapacities).run hnonneg hexact
  refine ⟨fun id capacity hcapacity => ?_, (l.run ts).allocate_cases,
    fun resources hresources hrequest => grants_iff hwithin hresources hrequest, fun r c => ?_⟩
  · rw [← l.capacities_run ts] at hcapacity
    exact hwithin.within id capacity hcapacity
  · rw [isAvailable_iff_grants]
    rcases (l.run ts).allocate_cases c [r] with ⟨h, hgranted⟩ | ⟨h, hrefused⟩
    · exact iff_of_true h hgranted.made
    · rw [h, hrefused]
      simp

end

/-- Two ports, one of which has a capacity of fifteen. -/
def twoPorts : Ledger := Ledger.empty.setCapacity ⟨⟨"s1"⟩, 1⟩ 15

/-- A request that names the port with the capacity twice, one for the other port without end, one
that is refused, and a release of what is held once, twice and never. -/
def twoPortsUse : List Transaction :=
  let narrow : ResourceId := ⟨⟨"s1"⟩, 1⟩
  let wide : ResourceId := ⟨⟨"s2"⟩, 1⟩
  let owner : Consumer := .intent ⟨⟨"sample"⟩, "h1h2"⟩
  [.allocate owner [⟨narrow, 5⟩, ⟨narrow, 5⟩, ⟨wide, 5⟩],
   .allocate (.group ⟨7⟩) [⟨wide, .infinity false⟩],
   .allocate (.group ⟨7⟩) [⟨wide, 1⟩, ⟨narrow, 6⟩],
   .release [⟨⟨narrow, 5⟩, owner⟩, ⟨⟨wide, 5⟩, owner⟩, ⟨⟨wide, 5⟩, owner⟩, ⟨⟨narrow, 5⟩, .group ⟨7⟩⟩],
   .allocate (.group ⟨7⟩) [⟨narrow, 10⟩]]

theorem run_within_capacity_twoPorts :
    twoPorts.allocations = [] ∧
      (∀ id capacity, twoPorts.capacities.get? id = some capacity → 0 ≤ capacity) ∧
      (∀ t ∈ twoPortsUse, t.Nonneg) ∧ twoPorts.ExactRun twoPortsUse ∧
      (twoPorts.run twoPortsUse).booked ⟨⟨"s1"⟩, 1⟩ ≤ (15 : Binary64).quantity ∧
      (twoPorts.run twoPortsUse).allocations.length = 3 ∧
      (twoPorts.run twoPortsUse).isAvailable ⟨⟨⟨"s1"⟩, 1⟩, 1⟩ = false := by
  have hempty : twoPorts.allocations = [] := rfl
  have hcapacities :
      ∀ id capacity, twoPorts.capacities.get? id = some capacity → 0 ≤ capacity := by
    have hall : ∀ e ∈ twoPorts.capacities.entries, 0 ≤ e.2 := by decide +kernel
    exact fun id capacity h => hall _ (SortedMap.get?_eq_some_iff.1 h)
  have hnonneg : ∀ t ∈ twoPortsUse, t.Nonneg := by decide +kernel
  have hexact : twoPorts.ExactRun twoPortsUse := by decide +kernel
  obtain ⟨hwithin, -⟩ := run_within_capacity hempty hcapacities hnonneg hexact
  exact ⟨hempty, hcapacities, hnonneg, hexact, hwithin _ _ rfl, by decide +kernel,
    by decide +kernel⟩

end HostRouting.Ledger
