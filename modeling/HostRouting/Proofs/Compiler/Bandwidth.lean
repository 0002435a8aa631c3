import HostRouting.LinkStore.Table
import HostRouting.Proofs.Compiler.Cases
import HostRouting.Proofs.Reservation.Reserve

/-!
# A successful compilation has its reservations

1. A selected path has room for the requested bandwidth on every device port
   (`fits_of_satisfies`), and so has its inverse.
2. The first reservation takes room only on ports that the path there crosses, and of those the
   path back needs nothing more, so what the path back still needs fits as it did when the paths
   were selected (`fits_after_reserved`).

Main fact: `compile_reserves`.
-/

namespace HostRouting

/-! ## Room on selected paths -/

theorem mem_connectPoints {p : Path} {point : ConnectPoint} :
    point ∈ p.connectPoints ↔ ∃ l ∈ p.links, point ∈ [l.src, l.dst] := List.mem_flatMap

/-- A path and its inverse cross the same points. -/
theorem mem_connectPoints_inverted {p : Path} {point : ConnectPoint} :
    point ∈ p.inverted.connectPoints ↔ point ∈ p.connectPoints := by
  rw [mem_connectPoints, mem_connectPoints]
  constructor
  · rintro ⟨l, hl, hpoint⟩
    obtain ⟨l', hl', rfl⟩ := List.mem_map.1 hl
    refine ⟨l', List.mem_reverse.1 hl', ?_⟩
    simpa [Link.reversed, or_comm] using hpoint
  · rintro ⟨l, hl, hpoint⟩
    refine ⟨l.reversed, List.mem_map.2 ⟨l, List.mem_reverse.2 hl, rfl⟩, ?_⟩
    simpa [Link.reversed, or_comm] using hpoint

theorem mem_constraints_of_requested {c : Connectivity} {b : Bandwidth}
    (h : c.requestedBandwidth? = some b) : .bandwidth b ∈ c.constraints := by
  obtain ⟨constraint, hmem, hb⟩ := List.exists_of_findSome?_eq_some h
  cases constraint <;> simp_all [Constraint.requestedBandwidth?]

section

variable {σ : Type} [LinkStore σ]

/-- A path that satisfies the constraints has room for the requested bandwidth. -/
theorem fits_of_satisfies {links : σ} {l : Ledger} {c : Connectivity} {b : Bandwidth} {p : Path}
    (hb : c.requestedBandwidth? = some b)
    (h : satisfies (Context.ofStores links l) c.constraints p = true) :
    ∀ r ∈ neededResources b p.connectPoints, l.fits r.id b.bps = true := by
  intro r hr
  obtain ⟨point, hpoint, hr'⟩ := mem_neededResources.1 hr
  obtain ⟨link, hlink, hpoint⟩ := mem_connectPoints.1 hpoint
  have hlinkValid := satisfies_iff.1 h _ (mem_constraints_of_requested hb) link hlink
  have havailable := List.all_eq_true.1 hlinkValid r (List.mem_filterMap.2 ⟨point, hpoint, hr'⟩)
  have hfits : l.fits r.id r.value = true := havailable
  rw [value_of_mem_neededResources hr] at hfits
  exact hfits

/-- Both selected routes have room for the requested bandwidth. -/
theorem fits_of_selectRoutes {service : PathService σ} {s : Stores σ Ledger} {i : HostIntent}
    {b : Bandwidth} {there back : Path} (hb : i.base.requestedBandwidth? = some b)
    (h : selectRoutes service s i = .ok (there, back)) :
    (∀ r ∈ neededResources b there.connectPoints, s.resources.fits r.id b.bps = true) ∧
      ∀ r ∈ neededResources b back.connectPoints, s.resources.fits r.id b.bps = true := by
  obtain ⟨hthere, hback⟩ := selectRoutes_eq_ok.1 h
  have hfits := fits_of_satisfies hb (satisfies_of_selectPath hthere)
  refine ⟨hfits, ?_⟩
  split at hback
  next => exact fits_of_satisfies hb (satisfies_of_selectPath hback)
  next =>
    intro r hr
    obtain ⟨point, hpoint, hr'⟩ := mem_neededResources.1 hr
    rw [hback, mem_connectPoints_inverted] at hpoint
    exact hfits r (mem_neededResources.2 ⟨point, hpoint, hr'⟩)

end

/-! ## Both reservations -/

theorem fits_after_reserved {l l' : Ledger} {c : Connectivity} {b : Bandwidth}
    {there back : List ConnectPoint} {made : List Allocation} (hl : l.Nonneg) (hb : 0 ≤ b.bps)
    (h : Reserved l c b there l' made)
    (hfits : ∀ r ∈ neededResources b back, l.fits r.id b.bps = true) :
    ∀ r ∈ outstanding l' c.consumer b back, l'.fits r.id b.bps = true := by
  intro r hr
  have hneeded := outstanding_subset hr
  have hother : ∀ r' ∈ outstanding l c.consumer b there, r'.id ≠ r.id := by
    intro r' hr' hid
    obtain rfl := eq_of_mem_neededResources (outstanding_subset hr') hneeded hid
    obtain ⟨held, hheld, hbeq⟩ := h.holds r' (outstanding_subset hr')
    exact ne_of_held hneeded hheld hbeq r' hr (Resource.beq_iff.1 hbeq).1.symm
  exact Ledger.fits_mono hl h.capacities (h.quantities r.id hother) hb (hfits r hneeded)

/-- Reserving along both paths of a route is granted both times, and in the end everything that
either path needs is held. -/
theorem reserve_both {l : Ledger} {c : Connectivity} {b : Bandwidth}
    {there back : List ConnectPoint} (hl : l.Nonneg) (hc : c.requestedBandwidth? = some b)
    (hb : 0 ≤ b.bps) (hthere : ∀ r ∈ neededResources b there, l.fits r.id b.bps = true)
    (hback : ∀ r ∈ neededResources b back, l.fits r.id b.bps = true) :
    let first := reserve l c there
    let second := reserve first.1 c back
    Reserved l c b there first.1 first.2 ∧ Reserved first.1 c b back second.1 second.2 ∧
      ∀ r, r ∈ neededResources b there ∨ r ∈ neededResources b back →
        ∃ held ∈ second.1.holding c.consumer, (held == r) = true := by
  intro first second
  have hfirst : Reserved l c b there first.1 first.2 :=
    reserve_spec hl hc hb fun r hr => hthere r (outstanding_subset hr)
  have hsecond : Reserved first.1 c b back second.1 second.2 :=
    reserve_spec hfirst.nonneg hc hb (fits_after_reserved hl hb hfirst hback)
  refine ⟨hfirst, hsecond, ?_⟩
  rintro r (hr | hr)
  · obtain ⟨held, hheld, hbeq⟩ := hfirst.holds r hr
    refine ⟨held, hsecond.kept held hheld ?_, hbeq⟩
    -- What is outstanding on the way back is of ports that are not held after the way there.
    intro r' hr' hid
    have hsame : r' = r := eq_of_mem_neededResources (outstanding_subset hr') hr
      (hid.trans (Resource.beq_iff.1 hbeq).1)
    exact ne_of_held (outstanding_subset hr') hheld (hsame ▸ hbeq) r' hr' hid
  · exact hsecond.holds r hr

section

variable {σ : Type} [LinkStore σ]

/-- Installing reserves along the path there and, if that can be installed, along the path back. -/
theorem resources_installBoth_eq {flavor : InstallableFlavor} {ρ : Type} [Reservations ρ]
    {resources : ρ} {i : HostIntent} {there back : Path} {one two : Host} :
    (installBoth flavor resources i there back one two).2 =
      let first := (reserve resources i.base there.connectPoints).1
      if (installable flavor i there one two).isOk then
        (reserve first i.base back.connectPoints).1
      else first := by
  unfold installBoth install
  cases installable flavor i there one two with
  | error e => rfl
  | ok forward => cases installable flavor i back two one <;> rfl

theorem resources_installBoth {flavor : InstallableFlavor} {ρ : Type} [Reservations ρ]
    {resources : ρ} {i : HostIntent} {there back : Path} {one two : Host}
    (h : (installBoth flavor resources i there back one two).1.isOk = true) :
    (installBoth flavor resources i there back one two).2 =
      (reserve (reserve resources i.base there.connectPoints).1 i.base back.connectPoints).1 := by
  cases hboth : (installBoth flavor resources i there back one two).1 with
  | error e =>
    rw [hboth] at h
    exact nomatch h
  | ok installables =>
    obtain ⟨forward, -, -, hforward, -⟩ := installBoth_eq_ok hboth
    rw [resources_installBoth_eq, hforward]
    rfl

/-- After a successful compilation the consumer of the intent holds the requested bandwidth on every
device port at an end of a link of the recorded paths, and neither reservation has been refused. -/
theorem compile_reserves {c : Compiler σ} {s : Stores σ Ledger} {i : HostIntent} {b : Bandwidth}
    (hnonneg : s.resources.Nonneg) (hrequested : i.base.requestedBandwidth? = some b)
    (hb : 0 ≤ b.bps) (hends : i.one ≠ i.two)
    (hok : (compile c s i).result.isOk = true) :
    ∃ there back, (compile c s i).intent.paths = some (there, back) ∧
      (∀ l ∈ there.links ++ back.links, ∀ device port,
        (⟨.device device, port⟩ : ConnectPoint) ∈ [l.src, l.dst] →
          ∃ held ∈ (compile c s i).stores.resources.holding i.base.consumer,
            held.id = ⟨device, port⟩ ∧ (held.value == b.bps) = true) ∧
      let pointsThere := there.links.flatMap fun l => [l.src, l.dst]
      let pointsBack := back.links.flatMap fun l => [l.src, l.dst]
      let first := reserve s.resources i.base pointsThere
      let second := reserve first.1 i.base pointsBack
      (compile c s i).stores.resources = second.1 ∧
        first.2 = (outstanding s.resources i.base.consumer b pointsThere).map
          (⟨·, i.base.consumer⟩) ∧
        second.2 = (outstanding first.1 i.base.consumer b pointsBack).map
          (⟨·, i.base.consumer⟩) := by
  obtain ⟨bare, links, there, back, one, two, hrouting, hcompile⟩ :=
    rerouting_of_compile_isOk hok hends
  obtain ⟨hthere, hback⟩ := fits_of_selectRoutes hrequested hrouting.selected
  obtain ⟨hfirst, hsecond, hholds⟩ := reserve_both hnonneg hrequested hb hthere hback
  have hresources : (compile c s i).stores.resources =
      (reserve (reserve s.resources i.base there.connectPoints).1 i.base back.connectPoints).1 := by
    rw [hcompile] at hok ⊢
    exact resources_installBoth hok
  refine ⟨there, back, ?_, ?_, hresources, hfirst.made, hsecond.made⟩
  · rw [hcompile]
    rfl
  · intro l hl device port hpoint
    have hneeded {p : Path} (hl : l ∈ p.links) :
        ⟨⟨device, port⟩, b.bps⟩ ∈ neededResources b p.connectPoints :=
      mem_neededResources.2 ⟨_, mem_connectPoints.2 ⟨l, hl, hpoint⟩, rfl⟩
    obtain ⟨held, hheld, hbeq⟩ := hholds _ ((List.mem_append.1 hl).imp hneeded hneeded)
    rw [hresources]
    exact ⟨held, hheld, Resource.beq_iff.1 hbeq⟩

end

namespace Sample

/-- The bandwidth of the port at the start of the sample link. -/
def srcPort : ResourceId := ⟨⟨"s1"⟩, 1⟩

/-- The bandwidth of the port at the end of the sample link. -/
def dstPort : ResourceId := ⟨⟨"s2"⟩, 1⟩

/-- Ports of capacity fifteen, some of which is held, at one port by the sample intent. -/
def ledger : Ledger :=
  ((((Ledger.empty.setCapacity srcPort 15).setCapacity dstPort 15).setHolding
    (.intent ⟨⟨"sample"⟩, "h1h2"⟩) [⟨srcPort, 3⟩])).setHolding (.group ⟨7⟩) [⟨dstPort, 5⟩]

/-- The sample network with the ledger. -/
def stores : Stores LinkTable Ledger := ⟨LinkTable.empty.insert link, hosts, ledger⟩

def compiler : Compiler LinkTable := ⟨service, .default⟩

end Sample

/-- The intent held three on the first port and nothing on the second, where a group holds five. -/
theorem compile_reserves_sample :
    Sample.stores.resources.Nonneg ∧
      (Sample.intent [.bandwidth ⟨10⟩]).base.requestedBandwidth? = some ⟨10⟩ ∧
      (0 : Binary64) ≤ 10 ∧ Sample.one ≠ Sample.two ∧
      (compile Sample.compiler Sample.stores (Sample.intent [.bandwidth ⟨10⟩])).result.isOk = true ∧
      ∀ id ∈ [Sample.srcPort, Sample.dstPort],
        ∃ held ∈ (compile Sample.compiler Sample.stores
            (Sample.intent [.bandwidth ⟨10⟩])).stores.resources.holding
              (.intent ⟨⟨"sample"⟩, "h1h2"⟩), held.id = id ∧ (held.value == 10) = true := by
  have hnonneg : Sample.stores.resources.Nonneg := by decide +kernel
  have hrequested :
      (Sample.intent [.bandwidth ⟨10⟩]).base.requestedBandwidth? = some ⟨10⟩ := rfl
  have hb : (0 : Binary64) ≤ 10 := by decide +kernel
  have hends : Sample.one ≠ Sample.two := by decide
  have hok : (compile Sample.compiler Sample.stores
      (Sample.intent [.bandwidth ⟨10⟩])).result.isOk = true := by decide +kernel
  have hlinks : (compile Sample.compiler Sample.stores
      (Sample.intent [.bandwidth ⟨10⟩])).intent.paths.map (·.1.links) = some [Sample.link] := by
    decide +kernel
  obtain ⟨there, back, hpaths, hheld, -⟩ := compile_reserves hnonneg hrequested hb hends hok
  rw [hpaths] at hlinks
  have hthere : there.links = [Sample.link] := Option.some.inj hlinks
  have hlink := hheld Sample.link (by simp [hthere])
  refine ⟨hnonneg, hrequested, hb, hends, hok, fun id hid => ?_⟩
  have hid : id = Sample.srcPort ∨ id = Sample.dstPort := by simpa using hid
  rcases hid with rfl | rfl
  · exact hlink ⟨"s1"⟩ 1 (by decide)
  · exact hlink ⟨"s2"⟩ 1 (by decide)

end HostRouting
