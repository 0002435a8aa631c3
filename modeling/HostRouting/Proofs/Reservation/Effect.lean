import HostRouting.Proofs.Compiler.Holdings
import HostRouting.Proofs.Reservation.Migration

/-!
# What a reservation changes

A reservation replaces what the consumer holds on the device ports among the points by the requested
bandwidth, when the ledger grants it, and only gives back what is outdated there, when the ledger
refuses. It changes nothing on other ports and nothing that others hold.

1. What is given back is what the consumer holds on those ports with another value
   (`holding_clearedLedger`), if it holds one allocation on each port at most.
2. What is granted is the bandwidth on those ports where it is not held yet (`heldOf_of_granted`).

A quantity that is no number is equal to none, itself included: the ledger does not find it again,
so it stays where it is.

Main fact: `reserve_effect`.
-/

namespace HostRouting

/-! ## Ports -/

/-- The device ports among the points. -/
def devicePorts (points : List ConnectPoint) : List ResourceId :=
  points.filterMap fun p => p.device?.map (⟨·, p.port⟩)

theorem mem_devicePorts_iff {points : List ConnectPoint} {id : ResourceId} (b : Bandwidth) :
    id ∈ devicePorts points ↔ ⟨id, b.bps⟩ ∈ neededResources b points := by
  rw [mem_neededResources]
  unfold devicePorts
  rw [List.mem_filterMap]
  refine exists_congr fun p => and_congr_right fun _ => ?_
  unfold Resource.atPoint?
  cases p.device? with
  | none => simp
  | some device => simp [Resource.ofBandwidth]

theorem id_mem_devicePorts {points : List ConnectPoint} {b : Bandwidth} {r : Resource}
    (h : r ∈ neededResources b points) : r.id ∈ devicePorts points := by
  rw [mem_devicePorts_iff b, ← value_of_mem_neededResources h]
  exact h

/-- What a consumer holds of a resource. -/
def Ledger.heldOf (l : Ledger) (d : Consumer) (id : ResourceId) : List Resource :=
  (l.holding d).filter (·.id = id)

/-- The consumer holds at most one allocation of each resource. -/
def Ledger.HoldsOnce (l : Ledger) (d : Consumer) : Prop :=
  (l.holding d).Pairwise fun r r' => r.id ≠ r'.id

instance (l : Ledger) (d : Consumer) : Decidable (l.HoldsOnce d) :=
  inferInstanceAs (Decidable ((l.holding d).Pairwise _))

theorem Ledger.HoldsOnce.eq {l : Ledger} {d : Consumer} (h : l.HoldsOnce d) {r r' : Resource}
    (hr : r ∈ l.holding d) (hr' : r' ∈ l.holding d) (hid : r.id = r'.id) : r = r' := by
  have hone := filter_id_of_pairwise h hr
  have hmem : r' ∈ (l.holding d).filter (·.id = r.id) :=
    List.mem_filter.2 ⟨hr', by simpa using hid.symm⟩
  rw [hone] at hmem
  exact (List.mem_singleton.1 hmem).symm

/-! ## What is given back -/

section

variable {l : Ledger} {c : Connectivity} {b : Bandwidth} {points : List ConnectPoint}

/-- The allocation is on a device port among the points, with another number than the bandwidth. -/
def isOutdated (b : Bandwidth) (points : List ConnectPoint) (r : Resource) : Bool :=
  r.id ∈ devicePorts points && !(r.value == b.bps) && r.value ≠ .nan

/-- On a port where the consumer holds an allocation, the bandwidth is outstanding when it is needed
there and is not the value of the allocation. -/
theorem outstanding_at_held_iff (b : Bandwidth) (points : List ConnectPoint) {d : Consumer}
    (honce : l.HoldsOnce d) {r : Resource} (hr : r ∈ l.holding d) :
    (∃ r' ∈ outstanding l d b points, r'.id = r.id) ↔
      r.id ∈ devicePorts points ∧ (r.value == b.bps) = false := by
  constructor
  · rintro ⟨r', hr', hid⟩
    have hneeded := outstanding_subset hr'
    refine ⟨hid ▸ id_mem_devicePorts hneeded, Bool.eq_false_iff.2 fun hvalue => ?_⟩
    refine ne_of_held hneeded hr (Resource.beq_iff.2 ⟨hid.symm, ?_⟩) r' hr' hid
    rw [value_of_mem_neededResources hneeded]
    exact hvalue
  · rintro ⟨hport, hvalue⟩
    have hneeded := (mem_devicePorts_iff b).1 hport
    rcases held_or_outstanding (l := l) (c := d) hneeded with hout | ⟨held, hheld, hbeq⟩
    · exact ⟨_, hout, rfl⟩
    · obtain ⟨hid, hsame⟩ := Resource.beq_iff.1 hbeq
      obtain rfl := honce.eq hheld hr hid
      rw [hvalue] at hsame
      exact nomatch hsame

/-- Before a request is made, the consumer has given back what is outdated and nothing else. -/
theorem holding_clearedLedger (honce : l.HoldsOnce c.consumer) :
    (clearedLedger l c b points).holding c.consumer =
      (l.holding c.consumer).filter (!isOutdated b points ·) := by
  have hown : (clearedLedger l c b points).holding c.consumer =
      (giveBack l ((l.held c.consumer).filter fun a =>
        (outstanding l c.consumer b points).any (·.id = a.resource.id))).holding c.consumer := by
    unfold clearedLedger giveBackOwn
    split
    next hgroup =>
      exact Ledger.holding_giveBack_of_ne fun a ha =>
        Ledger.consumer_of_mem_held ha ▸ (Connectivity.own_ne_consumer hgroup).symm
    next => rfl
  have hkind : ∀ r r' : Resource, (r == r') = true →
      (outstanding l c.consumer b points).any (·.id = r.id) =
        (outstanding l c.consumer b points).any (·.id = r'.id) :=
    fun r r' hbeq => by rw [(Resource.beq_iff.1 hbeq).1]
  rw [hown, Ledger.holding_giveBack_filter l c.consumer hkind]
  apply List.filter_congr
  intro r hr
  have hiff := outstanding_at_held_iff b points honce hr
  have hany : (outstanding l c.consumer b points).any (·.id = r.id) =
      (decide (r.id ∈ devicePorts points) && !(r.value == b.bps)) := by
    rw [Bool.eq_iff_iff, List.any_eq_true]
    simpa using hiff
  unfold isOutdated
  rw [hany, Bool.not_and]
  simp

/-! ## What is granted -/

/-- The ledger refuses the request: what is outdated has been given back, and yet the bandwidth does
not fit on some device port where it is not held. -/
def Refused (l : Ledger) (c : Connectivity) (b : Bandwidth) (points : List ConnectPoint) : Prop :=
  ∃ r ∈ outstanding l c.consumer b points, (clearedLedger l c b points).fits r.id b.bps = false

instance (l : Ledger) (c : Connectivity) (b : Bandwidth) (points : List ConnectPoint) :
    Decidable (Refused l c b points) :=
  inferInstanceAs (Decidable (∃ r ∈ outstanding l c.consumer b points, _))

theorem reserve_of_unrequested (hnone : c.requestedBandwidth? = none) :
    reserve l c points = (l, []) := by
  unfold reserve
  rw [hnone]

theorem reserve_of_refused (hrequested : c.requestedBandwidth? = some b)
    (h : Refused l c b points) : reserve l c points = (clearedLedger l c b points, []) := by
  obtain ⟨r, hr, hfull⟩ := h
  rw [reserve_eq hrequested, if_neg (by simpa using List.ne_nil_of_mem hr), Ledger.allocate,
    if_neg]
  intro hgrants
  rw [grants_outstanding_iff.1 hgrants r hr] at hfull
  exact Bool.noConfusion hfull

theorem reserve_of_granted (honce : l.HoldsOnce c.consumer)
    (hrequested : c.requestedBandwidth? = some b) (h : ¬Refused l c b points) :
    (reserve l c points).2 = (outstanding l c.consumer b points).map (⟨·, c.consumer⟩) ∧
      (reserve l c points).1.holding c.consumer =
        (l.holding c.consumer).filter (!isOutdated b points ·) ++
          outstanding l c.consumer b points := by
  rw [reserve_eq hrequested]
  by_cases hempty : outstanding l c.consumer b points = []
  · have hkept : (l.holding c.consumer).filter (!isOutdated b points ·) = l.holding c.consumer := by
      refine List.filter_eq_self.2 fun r hr => ?_
      have hiff := outstanding_at_held_iff b points honce hr
      simp only [hempty, List.not_mem_nil, false_and, exists_false, false_iff, not_and] at hiff
      by_cases hport : r.id ∈ devicePorts points <;> simp [isOutdated, hport, hiff]
    rw [if_pos (by simp [hempty]), hempty, hkept, List.append_nil]
    exact ⟨rfl, rfl⟩
  · have hgrants : (clearedLedger l c b points).grants (outstanding l c.consumer b points) := by
      rw [grants_outstanding_iff]
      intro r hr
      by_contra hfull
      exact h ⟨r, hr, by simpa using hfull⟩
    rw [if_neg (by simpa using hempty), Ledger.allocate, if_pos hgrants,
      holding_clearedLedger honce]
    exact ⟨rfl, Ledger.holding_setHolding_self _ _ _⟩

theorem heldOf_of_granted (honce : l.HoldsOnce c.consumer)
    (hrequested : c.requestedBandwidth? = some b) (h : ¬Refused l c b points) (id : ResourceId) :
    (reserve l c points).1.heldOf c.consumer id =
      (l.heldOf c.consumer id).filter (!isOutdated b points ·) ++
        (outstanding l c.consumer b points).filter (·.id = id) := by
  unfold Ledger.heldOf
  rw [(reserve_of_granted honce hrequested h).2, List.filter_append, List.filter_filter,
    List.filter_filter]
  simp only [Bool.and_comm]

/-- Where nothing is needed, the consumer holds what it held. -/
theorem heldOf_elsewhere (honce : l.HoldsOnce c.consumer)
    (hrequested : c.requestedBandwidth? = some b) (h : ¬Refused l c b points) {id : ResourceId}
    (hid : id ∉ devicePorts points) :
    (reserve l c points).1.heldOf c.consumer id = l.heldOf c.consumer id := by
  have hkept : (l.heldOf c.consumer id).filter (!isOutdated b points ·) =
      l.heldOf c.consumer id := by
    refine List.filter_eq_self.2 fun r hr => ?_
    have hr : r.id = id := by simpa using (List.mem_filter.1 hr).2
    simp [isOutdated, hr, hid]
  have hnone : (outstanding l c.consumer b points).filter (·.id = id) = [] := by
    refine List.filter_eq_nil_iff.2 fun r hr => ?_
    have hport := id_mem_devicePorts (outstanding_subset hr)
    simpa using fun heq : r.id = id => hid (heq ▸ hport)
  rw [heldOf_of_granted honce hrequested h, hkept, hnone, List.append_nil]

/-- Where the bandwidth is needed, the consumer holds it once, beside what is no number. -/
theorem heldOf_devicePort (honce : l.HoldsOnce c.consumer)
    (hrequested : c.requestedBandwidth? = some b) (hb : b.bps ≠ .nan)
    (h : ¬Refused l c b points) {id : ResourceId} (hid : id ∈ devicePorts points) :
    ∃ r, (r.value == b.bps) = true ∧ (reserve l c points).1.heldOf c.consumer id =
      (l.heldOf c.consumer id).filter (·.value = .nan) ++ [r] := by
  have hneeded := (mem_devicePorts_iff b).1 hid
  rw [heldOf_of_granted honce hrequested h]
  rcases held_or_outstanding (l := l) (c := c.consumer) hneeded with hout | ⟨held, hheld, hbeq⟩
  · -- The bandwidth is new, and all numbers that were held on the port are outdated.
    have hnew : (outstanding l c.consumer b points).filter (·.id = id) = [⟨id, b.bps⟩] :=
      filter_id_of_pairwise ((pairwise_neededResources b points).filter _) hout
    have hkept : (l.heldOf c.consumer id).filter (!isOutdated b points ·) =
        (l.heldOf c.consumer id).filter (·.value = .nan) := by
      refine List.filter_congr fun r hr => ?_
      obtain ⟨hheld, hport⟩ := List.mem_filter.1 hr
      have hport : id = r.id := by simpa using Eq.symm (of_decide_eq_true hport)
      have hvalue := ((outstanding_at_held_iff b points honce hheld).1 ⟨_, hout, hport⟩).2
      simp [isOutdated, ← hport, hid, hvalue]
    exact ⟨⟨id, b.bps⟩, Binary64.beq_self_of_ne_nan hb, by rw [hkept, hnew]⟩
  · -- The bandwidth is held already, so it is all that is held on the port.
    obtain ⟨rfl, hvalue⟩ := Resource.beq_iff.1 hbeq
    have hone : l.heldOf c.consumer held.id = [held] := filter_id_of_pairwise honce hheld
    have hnone : (outstanding l c.consumer b points).filter (·.id = held.id) = [] := by
      refine List.filter_eq_nil_iff.2 fun r hr => ?_
      simpa using ne_of_held hneeded hheld hbeq r hr
    have hnumber : held.value ≠ .nan := by
      intro hnan
      rw [Resource.beq_eq_false_of_nan hnan] at hbeq
      exact nomatch hbeq
    refine ⟨held, hvalue, ?_⟩
    rw [hone, hnone]
    simp [isOutdated, hvalue, hnumber]

/-- What is outstanding is not held. -/
theorem ne_of_outstanding {d : Consumer} {r : Resource} (hr : r ∈ outstanding l d b points)
    {old : Allocation} (hold : old ∈ l.held d) : (old == ⟨r, d⟩) = false := by
  have hmissing : (l.held d).any (·.resource == r) = false := by
    simpa using (List.mem_filter.1 hr).2
  have hresource : (old.resource == r) = false :=
    Bool.eq_false_iff.2 (List.any_eq_false.1 hmissing old hold)
  show (old.resource == r && old.consumer == d) = false
  rw [hresource, Bool.false_and]

theorem capacities_reserve (l : Ledger) (c : Connectivity) (points : List ConnectPoint) :
    (reserve l c points).1.capacities = l.capacities := by
  cases hrequested : c.requestedBandwidth? with
  | none => rw [reserve_of_unrequested hrequested]
  | some b =>
    rw [reserve_eq hrequested]
    split
    · rfl
    · unfold Ledger.allocate
      split <;> exact (remains_clearedLedger l c b points).capacities

/-! ## Reserving once more -/

/-- When the bandwidth is held wherever it is needed, a reservation does nothing. -/
theorem reserve_of_held (hrequested : c.requestedBandwidth? = some b)
    (h : ∀ id ∈ devicePorts points, ∃ r ∈ l.holding c.consumer,
      r.id = id ∧ (r.value == b.bps) = true) : reserve l c points = (l, []) := by
  have hnothing : outstanding l c.consumer b points = [] := by
    refine outstanding_eq_nil_iff.2 fun r hr => ?_
    obtain ⟨held, hheld, hid, hvalue⟩ := h r.id (id_mem_devicePorts hr)
    refine ⟨held, hheld, Resource.beq_iff.2 ⟨hid, ?_⟩⟩
    rw [value_of_mem_neededResources hr]
    exact hvalue
  rw [reserve_eq hrequested, if_pos (by simp [hnothing])]

end

/-! ## The whole effect -/

/-- What a reservation that is granted leaves. -/
structure Granted (c : Connectivity) (b : Bandwidth) (points : List ConnectPoint)
    (before after : Ledger) (made : List Allocation) : Prop where
  /-- On each device port among the points there is one allocation, and its value is the bandwidth;
  what is no number stays beside it. -/
  onPorts : ∀ id ∈ devicePorts points, ∃ r, (r.value == b.bps) = true ∧
    after.heldOf c.consumer id = (before.heldOf c.consumer id).filter (·.value = .nan) ++ [r]
  /-- What is held on other ports is kept. -/
  elsewhere : ∀ id ∉ devicePorts points,
    after.heldOf c.consumer id = before.heldOf c.consumer id
  /-- The allocations made are those that were not held before. -/
  made : ∃ kept, kept.Sublist (before.held c.consumer) ∧ after.held c.consumer = kept ++ made ∧
    ∀ a ∈ made, ∀ old ∈ before.held c.consumer, (old == a) = false
  /-- Reserving the same once more makes no allocation and changes nothing. -/
  again : reserve after c points = (after, [])

/-- A reservation by a consumer that holds at most one allocation on each port changes what it holds
on the device ports among the points, and what is held under the key of an intent that has joined a
group, and nothing else. -/
theorem reserve_effect (l : Ledger) {c : Connectivity} (points : List ConnectPoint)
    (honce : l.HoldsOnce c.consumer) (hfinite : c.AsksFinite) :
    let after := (reserve l c points).1
    let made := (reserve l c points).2
    (c.requestedBandwidth? = none → after = l ∧ made = []) ∧
      (∀ b, c.requestedBandwidth? = some b →
        (¬Refused l c b points → Granted c b points l after made) ∧
        (Refused l c b points → made = [] ∧
          after.holding c.consumer = (l.holding c.consumer).filter (!isOutdated b points ·))) ∧
      after.capacities = l.capacities ∧
      ∀ d, d ≠ c.consumer → d ≠ .intent c.key → after.holding d = l.holding d := by
  intro after made
  refine ⟨fun hnone => ?_, fun b hrequested => ⟨fun hgranted => ?_, fun hrefused => ?_⟩,
    capacities_reserve l c points, (l.reserve_othersKept hfinite points).holding⟩
  · exact Prod.mk.inj (reserve_of_unrequested hnone)
  · have honPorts := fun id (hid : id ∈ devicePorts points) => heldOf_devicePort honce hrequested
      (Binary64.ne_nan_of_isFinite (hfinite b hrequested)) hgranted hid
    refine ⟨honPorts, fun id => heldOf_elsewhere honce hrequested hgranted, ?_, ?_⟩
    · obtain ⟨hmade, hholding⟩ := reserve_of_granted honce hrequested hgranted
      refine ⟨((l.holding c.consumer).filter (!isOutdated b points ·)).map (⟨·, c.consumer⟩),
        List.filter_sublist.map _, ?_, fun a ha old hold => ?_⟩
      · rw [show made = _ from hmade, ← List.map_append, ← hholding]
        rfl
      · rw [show made = _ from hmade] at ha
        obtain ⟨r, hr, rfl⟩ := List.mem_map.1 ha
        exact ne_of_outstanding hr hold
    · refine reserve_of_held hrequested fun id hid => ?_
      obtain ⟨r, hvalue, hheld⟩ := honPorts id hid
      have hr : r ∈ after.heldOf c.consumer id := hheld ▸ List.mem_append_right _ (by simp)
      obtain ⟨hr, hport⟩ := List.mem_filter.1 hr
      exact ⟨r, hr, by simpa using hport, hvalue⟩
  · rw [← holding_clearedLedger honce]
    obtain ⟨hafter, hmade⟩ := Prod.mk.inj (reserve_of_refused hrequested hrefused)
    exact ⟨hmade, congrArg (Ledger.holding · c.consumer) hafter⟩

namespace Sample

/-- The sample intent with a request for bandwidth. -/
def asking : Connectivity := (intent [.bandwidth ⟨10⟩]).base

/-- Ports at which the intent holds the bandwidth, another value and nothing, one of them twice,
between its hosts. -/
def crossing : List ConnectPoint :=
  [.ofHost one, ⟨.device ⟨"s1"⟩, 1⟩, ⟨.device ⟨"s2"⟩, 1⟩, ⟨.device ⟨"s2"⟩, 1⟩, ⟨.device ⟨"s3"⟩, 1⟩,
    .ofHost two]

/-- The intent holds bandwidth at two of the ports and elsewhere, and a group does at one whose
capacity is given. -/
def booked (capacity : Binary64) : Ledger :=
  ((Ledger.empty.setHolding (.intent asking.key)
    [⟨portId "s1" 1, 10⟩, ⟨portId "s2" 1, 5⟩, ⟨portId "s9" 1, 3⟩]).setHolding (.group ⟨7⟩)
    [⟨portId "s2" 1, 4⟩]).setCapacity (portId "s2" 1) capacity

end Sample

/-- The bandwidth just fits beside what the group holds, or just does not. -/
theorem reserve_effect_sample :
    (Sample.booked 14).HoldsOnce Sample.asking.consumer ∧
      (Sample.booked 13).HoldsOnce Sample.asking.consumer ∧ Sample.asking.AsksFinite ∧
      Granted Sample.asking ⟨10⟩ Sample.crossing (Sample.booked 14)
        (reserve (Sample.booked 14) Sample.asking Sample.crossing).1
        (reserve (Sample.booked 14) Sample.asking Sample.crossing).2 ∧
      (reserve (Sample.booked 13) Sample.asking Sample.crossing).2 = [] ∧
      (reserve (Sample.booked 13) Sample.asking Sample.crossing).1.holding Sample.asking.consumer =
        ((Sample.booked 13).holding Sample.asking.consumer).filter
          (!isOutdated ⟨10⟩ Sample.crossing ·) := by
  have hroomy : (Sample.booked 14).HoldsOnce Sample.asking.consumer := by decide +kernel
  have hfull : (Sample.booked 13).HoldsOnce Sample.asking.consumer := by decide +kernel
  have hrequested : Sample.asking.requestedBandwidth? = some ⟨10⟩ := rfl
  have hfinite : Sample.asking.AsksFinite := by
    intro b hb
    obtain rfl := Option.some.inj (hrequested.symm.trans hb)
    decide +kernel
  refine ⟨hroomy, hfull, hfinite, ?_, ?_⟩
  · exact ((reserve_effect _ Sample.crossing hroomy hfinite).2.1 ⟨10⟩ hrequested).1
      (by decide +kernel)
  · exact ((reserve_effect _ Sample.crossing hfull hfinite).2.1 ⟨10⟩ hrequested).2
      (by decide +kernel)

namespace Sample

/-- The intent holds what is no number at one port, and a group holds bandwidth at another whose
capacity is given. -/
def clogged (capacity : Binary64) : Ledger :=
  ((Ledger.empty.setHolding (.intent asking.key) [⟨portId "s1" 1, .nan⟩]).setHolding (.group ⟨7⟩)
    [⟨portId "s2" 1, 4⟩]).setCapacity (portId "s2" 1) capacity

/-- The sample intent with a request for no bandwidth at all. -/
def modest : Connectivity := (intent [.bandwidth ⟨0⟩]).base

/-- The intent holds the negative zero. -/
def zeroed : Ledger :=
  Ledger.empty.setHolding (.intent modest.key) [⟨portId "s1" 1, .zero true⟩]

end Sample

/-- What is no number is not given back: it stays beside the bandwidth that is granted, and it is
not lost when the ledger refuses. Where a zero is held, the other one is held already. -/
theorem nan_stays_held :
    ((Sample.clogged 14).HoldsOnce Sample.asking.consumer ∧
      Sample.asking.requestedBandwidth? = some ⟨10⟩ ∧
      Sample.portId "s1" 1 ∈ devicePorts Sample.crossing ∧
      ¬Refused (Sample.clogged 14) Sample.asking ⟨10⟩ Sample.crossing ∧
      ((reserve (Sample.clogged 14) Sample.asking Sample.crossing).1.heldOf Sample.asking.consumer
        (Sample.portId "s1" 1)).map Resource.value = [.nan, 10]) ∧
    ((Sample.clogged 13).HoldsOnce Sample.asking.consumer ∧
      Refused (Sample.clogged 13) Sample.asking ⟨10⟩ Sample.crossing ∧
      ((reserve (Sample.clogged 13) Sample.asking Sample.crossing).1.heldOf Sample.asking.consumer
        (Sample.portId "s1" 1)).map Resource.value = [.nan]) ∧
    Sample.zeroed.HoldsOnce Sample.modest.consumer ∧
      Sample.modest.requestedBandwidth? = some ⟨0⟩ ∧
      ¬Refused Sample.zeroed Sample.modest ⟨0⟩ Sample.crossing ∧
      ((reserve Sample.zeroed Sample.modest Sample.crossing).1.heldOf Sample.modest.consumer
        (Sample.portId "s1" 1)).map Resource.value = [.zero true] := by
  refine ⟨⟨?_, rfl, ?_, ?_, ?_⟩, ⟨?_, ?_, ?_⟩, ?_, rfl, ?_, ?_⟩ <;> decide +kernel

end HostRouting
