import HostRouting.Proofs.Reservation.Ledger

/-!
# What a reservation does to a ledger

1. The needed resources are the bandwidth of every device port among the points, each once
   (`mem_neededResources`).
2. Taking outdated allocations back does not use up capacity, so a request is granted when each
   resource in it fits before (`reserve_spec`).

Main fact: `reserve_spec`.
-/

namespace HostRouting

/-! ## What is needed and not yet held -/

/-- The resources that an intent needs at the given points and does not hold. -/
def outstanding (l : Ledger) (c : Consumer) (b : Bandwidth) (points : List ConnectPoint) :
    List Resource :=
  (neededResources b points).filter fun r => !(l.held c).any (·.resource == r)

theorem mem_foldl_found {found resources : List Resource} {r : Resource}
    (h : r ∈ resources.foldl
      (fun found r => if found.any (·.id = r.id) then found else found ++ [r]) found) :
    r ∈ found ∨ r ∈ resources := by
  induction resources generalizing found with
  | nil => exact .inl h
  | cons r' rest ih =>
    rw [List.foldl_cons] at h
    rcases ih h with h | h
    · split at h
      · exact .inl h
      · rcases List.mem_append.1 h with h | h
        · exact .inl h
        · exact .inr (by simp_all)
    · exact .inr (List.mem_cons_of_mem _ h)

theorem foldl_found_complete {found resources : List Resource} {r : Resource}
    (h : r ∈ found ∨ r ∈ resources) : ∃ r' ∈ resources.foldl
      (fun found r => if found.any (·.id = r.id) then found else found ++ [r]) found,
      r'.id = r.id := by
  induction resources generalizing found r with
  | nil => exact ⟨r, h.resolve_right List.not_mem_nil, rfl⟩
  | cons r' rest ih =>
    rw [List.foldl_cons]
    rcases h with h | h
    · refine ih (.inl ?_)
      split
      · exact h
      · exact List.mem_append_left _ h
    · rcases List.mem_cons.1 h with rfl | h
      · split
        next hfound =>
          obtain ⟨r', hr', hid⟩ := List.any_eq_true.1 hfound
          obtain ⟨r'', hr'', hid'⟩ := ih (r := r') (.inl hr')
          exact ⟨r'', hr'', hid'.trans (by simpa using hid)⟩
        next => exact ih (.inl (by simp))
      · exact ih (.inr h)

theorem pairwise_foldl_found {found resources : List Resource}
    (h : found.Pairwise fun r r' => r.id ≠ r'.id) :
    (resources.foldl
      (fun found r => if found.any (·.id = r.id) then found else found ++ [r]) found).Pairwise
      fun r r' => r.id ≠ r'.id := by
  induction resources generalizing found with
  | nil => exact h
  | cons r rest ih =>
    rw [List.foldl_cons]
    refine ih ?_
    split
    next => exact h
    next hfound =>
      refine List.pairwise_append.2 ⟨h, List.pairwise_singleton _ _, ?_⟩
      intro a ha b hb
      rw [List.mem_singleton.1 hb]
      intro hid
      exact hfound (List.any_eq_true.2 ⟨a, ha, by simpa using hid⟩)

/-- A resource is needed exactly when it is the bandwidth of a device port among the points. -/
theorem mem_neededResources {b : Bandwidth} {points : List ConnectPoint} {r : Resource} :
    r ∈ neededResources b points ↔ ∃ p ∈ points, Resource.atPoint? p b = some r := by
  have hvalue {r : Resource} (h : r ∈ points.filterMap (Resource.atPoint? · b)) :
      r.value = b.bps := by
    obtain ⟨p, -, hr⟩ := List.mem_filterMap.1 h
    obtain ⟨device, -, rfl⟩ := Option.map_eq_some_iff.1 hr
    rfl
  rw [← List.mem_filterMap]
  unfold neededResources
  constructor
  · intro h
    exact (mem_foldl_found h).resolve_left List.not_mem_nil
  · intro h
    obtain ⟨r', hr', hid⟩ := foldl_found_complete (.inr h)
    have hmem := (mem_foldl_found hr').resolve_left List.not_mem_nil
    have heq : r' = r := Resource.ext hid ((hvalue hmem).trans (hvalue h).symm)
    exact heq ▸ hr'

theorem value_of_mem_neededResources {b : Bandwidth} {points : List ConnectPoint} {r : Resource}
    (h : r ∈ neededResources b points) : r.value = b.bps := by
  obtain ⟨p, -, hr⟩ := mem_neededResources.1 h
  obtain ⟨device, -, rfl⟩ := Option.map_eq_some_iff.1 hr
  rfl

/-- Needed resources are the same when they are of the same port. -/
theorem eq_of_mem_neededResources {b : Bandwidth} {points points' : List ConnectPoint}
    {r r' : Resource} (h : r ∈ neededResources b points) (h' : r' ∈ neededResources b points')
    (hid : r.id = r'.id) : r = r' :=
  Resource.ext hid
    ((value_of_mem_neededResources h).trans (value_of_mem_neededResources h').symm)

theorem pairwise_neededResources (b : Bandwidth) (points : List ConnectPoint) :
    (neededResources b points).Pairwise fun r r' => r.id ≠ r'.id :=
  pairwise_foldl_found List.Pairwise.nil

/-! ## Room in the ledger -/

/-- What fits still fits when no more is held. -/
theorem Ledger.fits_mono {l l' : Ledger} {id : ResourceId} {x : Binary64} (hl : l.Nonneg)
    (hcapacities : l'.capacities = l.capacities)
    (hquantities : (l'.quantities id).Sublist (l.quantities id)) (hx : 0 ≤ x)
    (h : l.fits id x = true) : l'.fits id x = true := by
  unfold fits at h ⊢
  rw [hcapacities]
  cases hcap : l.capacities.get? id with
  | none => rfl
  | some capacity =>
    rw [hcap] at h
    have hle : l.allocated id + x ≤ capacity := of_decide_eq_true h
    have hnonneg : 0 ≤ l.allocated id := Binary64.sum_nonneg (hl.quantities id)
    have hnonneg' : 0 ≤ l'.allocated id :=
      Binary64.sum_nonneg fun q hq => hl.quantities id q (hquantities.mem hq)
    have hallocated : l'.allocated id ≤ l.allocated id :=
      Binary64.sum_le_sum_of_sublist hquantities (hl.quantities id)
    have hsum : l'.allocated id + x ≤ l.allocated id + x :=
      Binary64.add_le_add hnonneg' hx hnonneg hx hallocated (Binary64.le_refl hx)
    exact decide_eq_true (Binary64.le_trans (Binary64.add_nonneg hnonneg' hx) hsum hle)

/-- In a request for different resources the total of each is what is asked of it. -/
theorem filter_id_of_pairwise {resources : List Resource} {r : Resource}
    (h : resources.Pairwise fun r r' => r.id ≠ r'.id) (hr : r ∈ resources) :
    resources.filter (·.id = r.id) = [r] := by
  induction resources with
  | nil => exact absurd hr List.not_mem_nil
  | cons a rest ih =>
    obtain ⟨hne, hrest⟩ := List.pairwise_cons.1 h
    rcases List.mem_cons.1 hr with rfl | hr
    · have hnone : rest.filter (·.id = r.id) = [] := by
        apply List.filter_eq_nil_iff.2
        intro r' hr'
        simpa using (hne r' hr').symm
      rw [List.filter_cons_of_pos (by simp), hnone]
    · rw [List.filter_cons_of_neg (by simpa using hne r hr), ih hrest hr]

theorem outstanding_subset {l : Ledger} {c : Consumer} {b : Bandwidth}
    {points : List ConnectPoint} {r : Resource} (h : r ∈ outstanding l c b points) :
    r ∈ neededResources b points := (List.mem_filter.1 h).1

/-- What is needed is outstanding or held already. -/
theorem held_or_outstanding {l : Ledger} {c : Consumer} {b : Bandwidth}
    {points : List ConnectPoint} {r : Resource} (h : r ∈ neededResources b points) :
    r ∈ outstanding l c b points ∨ ∃ r' ∈ l.holding c, (r' == r) = true := by
  by_cases hheld : (l.held c).any (·.resource == r) = true
  · obtain ⟨a, ha, har⟩ := List.any_eq_true.1 hheld
    obtain ⟨r', hr', rfl⟩ := List.mem_map.1 ha
    exact .inr ⟨r', hr', har⟩
  · exact .inl (List.mem_filter.2 ⟨h, by simpa using hheld⟩)

/-- In what is outstanding every port occurs once. -/
theorem total_outstanding {l : Ledger} {c : Consumer} {b : Bandwidth} {points : List ConnectPoint}
    {r : Resource} (h : r ∈ outstanding l c b points) :
    Ledger.total r.id (outstanding l c b points) = 0 + b.bps := by
  have hdistinct : (outstanding l c b points).Pairwise fun r r' => r.id ≠ r'.id :=
    (pairwise_neededResources b points).filter _
  unfold Ledger.total
  rw [filter_id_of_pairwise hdistinct h, ← value_of_mem_neededResources (outstanding_subset h)]
  rfl

/-- What is outstanding is granted just when it fits on each of its ports. -/
theorem grants_outstanding_iff {l l' : Ledger} {c : Consumer} {b : Bandwidth}
    {points : List ConnectPoint} :
    l'.grants (outstanding l c b points) = true ↔
      ∀ r ∈ outstanding l c b points, l'.fits r.id b.bps = true := by
  unfold Ledger.grants
  rw [List.all_eq_true]
  refine forall₂_congr fun r hr => ?_
  rw [total_outstanding hr, Ledger.fits_zero_add]

theorem grants_outstanding {l l' : Ledger} {c : Consumer} {b : Bandwidth}
    {points : List ConnectPoint} {ids : List ResourceId} (hl : l.Nonneg) (hb : 0 ≤ b.bps)
    (hremains : l.Remains c ids l')
    (hfits : ∀ r ∈ outstanding l c b points, l.fits r.id b.bps = true) :
    l'.grants (outstanding l c b points) = true :=
  grants_outstanding_iff.2 fun r hr =>
    Ledger.fits_mono hl hremains.capacities (hremains.quantities r.id) hb (hfits r hr)

/-! ## Reservations -/

/-- A reservation that is granted: everything needed is held afterwards, and neither what the
consumer holds of other resources is given back nor are the quantities of other resources
increased. -/
structure Reserved (l : Ledger) (c : Connectivity) (b : Bandwidth) (points : List ConnectPoint)
    (l' : Ledger) (made : List Allocation) : Prop where
  made : made = (outstanding l c.consumer b points).map (⟨·, c.consumer⟩)
  holds : ∀ r ∈ neededResources b points, ∃ r' ∈ l'.holding c.consumer, (r' == r) = true
  kept : ∀ r ∈ l.holding c.consumer,
    (∀ r' ∈ outstanding l c.consumer b points, r'.id ≠ r.id) → r ∈ l'.holding c.consumer
  capacities : l'.capacities = l.capacities
  quantities : ∀ id, (∀ r ∈ outstanding l c.consumer b points, r.id ≠ id) →
    (l'.quantities id).Sublist (l.quantities id)
  nonneg : l'.Nonneg

/-- The ledger after what is outdated has been given back. -/
def clearedLedger (l : Ledger) (c : Connectivity) (b : Bandwidth) (points : List ConnectPoint) :
    Ledger :=
  giveBackOwn (giveBack l ((l.held c.consumer).filter fun a =>
    (outstanding l c.consumer b points).any (·.id = a.resource.id))) c

theorem reserve_eq {l : Ledger} {c : Connectivity} {b : Bandwidth} {points : List ConnectPoint}
    (hc : c.requestedBandwidth? = some b) :
    reserve l c points =
      if (outstanding l c.consumer b points).isEmpty then (l, [])
      else
        (clearedLedger l c b points).allocate c.consumer
          (outstanding l c.consumer b points) := by
  unfold reserve
  rw [hc]
  rfl

/-- The reservations of an intent in a group are not accounted to its key. -/
theorem Connectivity.own_ne_consumer {c : Connectivity} (h : c.group.isSome = true) :
    Consumer.intent c.key ≠ c.consumer := by
  obtain ⟨g, hg⟩ := Option.isSome_iff_exists.1 h
  unfold consumer
  rw [hg]
  rintro ⟨⟩

theorem remains_clearedLedger (l : Ledger) (c : Connectivity) (b : Bandwidth)
    (points : List ConnectPoint) :
    l.Remains c.consumer ((outstanding l c.consumer b points).map Resource.id)
      (clearedLedger l c b points) := by
  have houtdated : ∀ a ∈ (l.held c.consumer).filter fun a =>
      (outstanding l c.consumer b points).any (·.id = a.resource.id),
      a.consumer = c.consumer → a.resource.id ∈
        (outstanding l c.consumer b points).map Resource.id := by
    intro a ha _
    obtain ⟨r, hr, hid⟩ := List.any_eq_true.1 (List.mem_filter.1 ha).2
    exact List.mem_map.2 ⟨r, hr, by simpa using hid⟩
  refine (Ledger.giveBack_spec l houtdated).trans ?_
  unfold clearedLedger giveBackOwn
  split
  next hgroup =>
    refine Ledger.giveBack_spec _ ?_
    intro a ha hconsumer
    obtain ⟨r, -, rfl⟩ := List.mem_map.1 ha
    exact absurd hconsumer (Connectivity.own_ne_consumer hgroup)
  next => exact Ledger.Remains.refl

/-- A held resource of the needed kind is not given back. -/
theorem ne_of_held {l : Ledger} {c : Consumer} {b : Bandwidth} {points : List ConnectPoint}
    {r held : Resource} (hr : r ∈ neededResources b points) (hheld : held ∈ l.holding c)
    (hbeq : (held == r) = true) : ∀ r' ∈ outstanding l c b points, r'.id ≠ held.id := by
  intro r' hr' hid
  have hsame : r' = r := eq_of_mem_neededResources (outstanding_subset hr') hr
    (hid.trans (Resource.beq_iff.1 hbeq).1)
  have hnot := (List.mem_filter.1 hr').2
  rw [hsame, Bool.not_eq_true'] at hnot
  have : (l.held c).any (·.resource == r) = true :=
    List.any_eq_true.2 ⟨⟨held, c⟩, List.mem_map.2 ⟨held, hheld, rfl⟩, hbeq⟩
  rw [hnot] at this
  exact nomatch this

/-- Nothing is outstanding when all that is needed is held. -/
theorem outstanding_eq_nil_iff {l : Ledger} {c : Consumer} {b : Bandwidth}
    {points : List ConnectPoint} :
    outstanding l c b points = [] ↔
      ∀ r ∈ neededResources b points, ∃ held ∈ l.holding c, (held == r) = true := by
  constructor
  · intro h r hr
    refine (held_or_outstanding hr).resolve_left ?_
    rw [h]
    exact List.not_mem_nil
  · intro h
    apply List.eq_nil_iff_forall_not_mem.2
    intro r hr
    obtain ⟨held, hheld, hbeq⟩ := h r (outstanding_subset hr)
    exact ne_of_held (outstanding_subset hr) hheld hbeq r hr (Resource.beq_iff.1 hbeq).1.symm

/-- A reservation is granted when every outstanding resource fits. -/
theorem reserve_spec {l : Ledger} {c : Connectivity} {b : Bandwidth} {points : List ConnectPoint}
    (hl : l.Nonneg) (hc : c.requestedBandwidth? = some b) (hb : 0 ≤ b.bps)
    (hfits : ∀ r ∈ outstanding l c.consumer b points, l.fits r.id b.bps = true) :
    Reserved l c b points (reserve l c points).1 (reserve l c points).2 := by
  rw [reserve_eq hc]
  by_cases hempty : outstanding l c.consumer b points = []
  · rw [if_pos (by simp [hempty])]
    refine ⟨by simp [hempty], fun r hr => ?_, fun r hr _ => hr, rfl,
      fun id _ => List.Sublist.refl _, hl⟩
    exact outstanding_eq_nil_iff.1 hempty r hr
  · have hremains := remains_clearedLedger l c b points
    rw [if_neg (by simpa using hempty), Ledger.allocate,
      if_pos (grants_outstanding hl hb hremains hfits)]
    refine ⟨rfl, fun r hr => ?_, fun r hr hne => ?_, hremains.capacities, fun id hid => ?_, ?_⟩
    · rw [Ledger.holding_setHolding_self]
      rcases held_or_outstanding (l := l) (c := c.consumer) hr with hout | ⟨held, hheld, hbeq⟩
      · refine ⟨r, List.mem_append_right _ hout, Resource.beq_iff.2 ⟨rfl, ?_⟩⟩
        exact Binary64.beq_self (value_of_mem_neededResources hr ▸ hb)
      · refine ⟨held, List.mem_append_left _ (hremains.held held hheld ?_), hbeq⟩
        intro hmem
        obtain ⟨r', hr', hid⟩ := List.mem_map.1 hmem
        exact ne_of_held hr hheld hbeq r' hr' hid
    · rw [Ledger.holding_setHolding_self]
      refine List.mem_append_left _ (hremains.held r hr ?_)
      intro hmem
      obtain ⟨r', hr', hid⟩ := List.mem_map.1 hmem
      exact hne r' hr' hid
    · rw [Ledger.quantities_setHolding_append _ _ hid]
      exact hremains.quantities id
    · refine (hremains.nonneg hl).setHolding_append fun r hr => ?_
      rw [value_of_mem_neededResources (outstanding_subset hr)]
      exact hb

end HostRouting
