import HostRouting.Proofs.Routing.Selection

/-!
# The fingerprint and the place it picks

The remainder of a fingerprint by the number of candidates is never negative, so a negative
fingerprint picks a candidate as well and selection fails only for want of one. What the fingerprint
reads of an intent is the addresses of its hosts, its protocol and the ports of that protocol.

Main definition: `SameFlow`. Main fact: `selection_by_fingerprint`.
-/

namespace HostRouting

/-! ## Places -/

/-- The place that a fingerprint picks among `n` candidates. -/
def place (print : Int32) (n : Nat) : Nat := (print.toInt % n).toNat

theorem natCast_place {n : Nat} (hn : 0 < n) (print : Int32) :
    (place print n : Int) = print.toInt % n :=
  Int.toNat_of_nonneg (Int.emod_nonneg _ (by omega))

theorem place_lt {n : Nat} (hn : 0 < n) (print : Int32) : place print n < n := by
  have hlt : print.toInt % n < n := Int.emod_lt_of_pos _ (by omega)
  have hplace := natCast_place hn print
  omega

/-- The place is the remainder of a division that rounds down, whatever the sign. -/
theorem toInt_eq_mul_add_place {n : Nat} (hn : 0 < n) (print : Int32) :
    print.toInt = n * (print.toInt / n) + place print n := by
  rw [natCast_place hn]
  exact (Int.mul_ediv_add_emod ..).symm

theorem pick_eq_none_iff {α : Type} {print : Int32} {items : List α} :
    pick print items = none ↔ items = [] := by
  cases items with
  | nil => exact ⟨fun _ => rfl, fun _ => rfl⟩
  | cons a rest =>
    have hlt := place_lt (List.length_pos_of_mem (List.mem_cons_self (a := a) (l := rest))) print
    have hpicked : pick print (a :: rest) = some _ := List.getElem?_eq_getElem hlt
    simp [hpicked]

/-! ## Flows -/

/-- The protocols with ports, each with the fields of its source and destination ports. -/
def portFields : List (UInt8 × CriterionType × CriterionType) :=
  [(tcpProtocol, .tcpSrc, .tcpDst), (udpProtocol, .udpSrc, .udpDst),
   (sctpProtocol, .sctpSrc, .sctpDst)]

/-- The addresses of the hosts that an intent connects, as far as they are known. -/
def endAddresses (hosts : HostDirectory) (i : FlowIntent) :
    Option (Option (SortedSet IpAddress) × Option (SortedSet IpAddress)) :=
  i.hosts.map fun ends =>
    ((hosts.host? ends.1).map Host.addresses, (hosts.host? ends.2).map Host.addresses)

/-- Two intents, each with the hosts known at its time, ask for the same flow: the same addresses at
both ends, the same protocol and, where the protocol has ports, the same ports. -/
structure SameFlow (hosts : HostDirectory) (i : FlowIntent) (hosts' : HostDirectory)
    (i' : FlowIntent) : Prop where
  addresses : endAddresses hosts i = endAddresses hosts' i'
  protocol : i.connectivity.selector.criterion? .ipProto =
    i'.connectivity.selector.criterion? .ipProto
  ports : ∀ fields ∈ portFields, i.connectivity.selector.ipProtocol? = some fields.1 →
    i.connectivity.selector.criterion? fields.2.1 = i'.connectivity.selector.criterion? fields.2.1 ∧
      i.connectivity.selector.criterion? fields.2.2 = i'.connectivity.selector.criterion? fields.2.2

/-- The port fields that a fingerprint reads are those of the protocol asked for. -/
theorem mem_portTypes_iff {s : Selector} {t : CriterionType} :
    t ∈ portTypes s ↔
      ∃ fields ∈ portFields, s.ipProtocol? = some fields.1 ∧ (t = fields.2.1 ∨ t = fields.2.2) := by
  unfold portTypes
  cases s.ipProtocol? with
  | none => simp
  | some p =>
    by_cases htcp : p = tcpProtocol
    · subst htcp
      simp [portFields, CriterionType.transportSrc, CriterionType.transportDst, tcpProtocol,
        udpProtocol, sctpProtocol]
    by_cases hudp : p = udpProtocol
    · subst hudp
      simp [portFields, CriterionType.transportSrc, CriterionType.transportDst, tcpProtocol,
        udpProtocol, sctpProtocol]
    by_cases hsctp : p = sctpProtocol
    · subst hsctp
      simp [portFields, CriterionType.transportSrc, CriterionType.transportDst, tcpProtocol,
        udpProtocol, sctpProtocol]
    · simp [portFields, CriterionType.transportSrc, CriterionType.transportDst, htcp, hudp, hsctp]

theorem map_addressHash_knownEnds (hosts : HostDirectory) (i : FlowIntent) :
    (knownEnds hosts i).map addressHash =
      match endAddresses hosts i with
      | some (one, two) => [one, two].filterMap
          (Option.map fun set => stableHash (",".intercalate (set.toList.map IpAddress.text)))
      | none => [] := by
  unfold knownEnds endAddresses
  cases i.hosts with
  | none => rfl
  | some ends =>
    cases hone : hosts.host? ends.1 <;> cases htwo : hosts.host? ends.2 <;>
      simp [hone, htwo, addressHash]

/-- The fingerprint depends on nothing but the flow. -/
theorem SameFlow.fingerprint_eq {hosts hosts' : HostDirectory} {i i' : FlowIntent}
    (h : SameFlow hosts i hosts' i') : fingerprint hosts i = fingerprint hosts' i' := by
  have haddresses :
      (knownEnds hosts i).map addressHash = (knownEnds hosts' i').map addressHash := by
    rw [map_addressHash_knownEnds, map_addressHash_knownEnds, h.addresses]
  have hasked : i.connectivity.selector.ipProtocol? = i'.connectivity.selector.ipProtocol? := by
    unfold Selector.ipProtocol?
    rw [h.protocol]
  have htypes : portTypes i.connectivity.selector = portTypes i'.connectivity.selector := by
    unfold portTypes
    rw [hasked]
  have hprotocol : criterionHash i.connectivity.selector .ipProto =
      criterionHash i'.connectivity.selector .ipProto := by
    unfold criterionHash
    rw [h.protocol]
  have hports : (portTypes i.connectivity.selector).map (criterionHash i.connectivity.selector) =
      (portTypes i'.connectivity.selector).map (criterionHash i'.connectivity.selector) := by
    rw [← htypes]
    apply List.map_congr_left
    intro t ht
    obtain ⟨fields, hfields, hprotocol, ht⟩ := mem_portTypes_iff.1 ht
    obtain ⟨hsrc, hdst⟩ := h.ports fields hfields hprotocol
    unfold criterionHash
    rcases ht with rfl | rfl
    · rw [hsrc]
    · rw [hdst]
  have hhashes : flowHashes hosts i = flowHashes hosts' i' := by
    simp only [flowHashes, haddresses, hprotocol, hports]
  rw [fingerprint, fingerprint, hhashes]

/-- Criteria on other fields than the protocol and its ports leave the flow as it is. -/
theorem sameFlow_add (hosts : HostDirectory) (i : FlowIntent) {c : Criterion}
    (hprotocol : c.type ≠ .ipProto) (hports : c.type ∉ portTypes i.connectivity.selector) :
    SameFlow hosts i hosts
      { i with connectivity.selector := i.connectivity.selector.add c } where
  addresses := rfl
  protocol := (Selector.criterion?_add_of_ne _ hprotocol.symm).symm
  ports := by
    intro fields hfields hasked
    have hother {t : CriterionType} (ht : t = fields.2.1 ∨ t = fields.2.2) :
        (i.connectivity.selector.add c).criterion? t = i.connectivity.selector.criterion? t := by
      apply Selector.criterion?_add_of_ne
      rintro rfl
      exact hports (mem_portTypes_iff.2 ⟨fields, hfields, hasked, ht⟩)
    exact ⟨(hother (.inl rfl)).symm, (hother (.inr rfl)).symm⟩

/-! ## Selection -/

section

variable {σ ρ : Type} [LinkStore σ] [Reservations ρ]

/-- A path is selected iff a candidate satisfies every constraint, and so is a pair iff both paths of
a candidate do. It is the one at the place of the fingerprint among those that do, in the order of
the candidates, and intents for the same flow have the same fingerprint. -/
theorem selection_by_fingerprint (service : PathService σ) (links : σ) (hosts : HostDirectory)
    (resources : ρ) (i : FlowIntent) (src dst : ElementId) :
    let ctx := Context.ofStores links resources
    let constraints := i.connectivity.constraints
    let passes := fun p : Path => constraints.all fun c => c.validates p ctx
    let paths := service.paths links hosts (ctx.weigher constraints) src dst
    let pairs := service.disjointPaths links hosts (ctx.weigher constraints) src dst
    let passing := paths.filter passes
    let passingPairs := pairs.filter fun d => passes d.primary && passes d.backup
    let print := fingerprint hosts i
    (∀ e, selectPath service links hosts resources i src dst = .error e ↔
        e = .pathNotFound src dst ∧ ∀ p ∈ paths, ¬passes p) ∧
      (∀ p, selectPath service links hosts resources i src dst = .ok p ↔
        passing[place print passing.length]? = some p) ∧
      (∀ e, selectPair service links hosts resources i src dst = .error e ↔
        e = .pathNotFound src dst ∧ ∀ d ∈ pairs, ¬(passes d.primary ∧ passes d.backup)) ∧
      (∀ d, selectPair service links hosts resources i src dst = .ok d ↔
        passingPairs[place print passingPairs.length]? = some d) ∧
      (∀ n, 0 < n → place print n < n ∧ print.toInt = n * (print.toInt / n) + place print n) ∧
      ∀ hosts' i', SameFlow hosts i hosts' i' → fingerprint hosts' i' = print := by
  intro ctx constraints passes paths pairs passing passingPairs print
  have hpath : selectPath service links hosts resources i src dst =
      pickOr print src dst passing := rfl
  have hpair : selectPair service links hosts resources i src dst =
      pickOr print src dst passingPairs := rfl
  refine ⟨fun e => ?_, fun p => ?_, fun e => ?_, fun d => ?_, fun n hn => ?_, fun hosts' i' h => ?_⟩
  · rw [hpath, pickOr_eq_error, pick_eq_none_iff, List.filter_eq_nil_iff]
  · exact pickOr_eq_ok
  · rw [hpair, pickOr_eq_error, pick_eq_none_iff, List.filter_eq_nil_iff]
    simp only [Bool.and_eq_true]
  · exact pickOr_eq_ok
  · exact ⟨place_lt hn print, toInt_eq_mul_add_place hn print⟩
  · exact h.fingerprint_eq.symm

end

end HostRouting
