import HostRouting.Proofs.Compiler.Failure
import HostRouting.Proofs.Compiler.Orders
import HostRouting.Proofs.Compiler.Stickiness

/-!
# Ports that stay reserved

An intent that is compiled again and again, while links, hosts and the reservations of others
change, reserves along every route that it takes. A reservation gives back what is held on the ports
that it needs and nothing else, so the ports of a route that is left stay reserved until the intent
is withdrawn.

1. Every reservation along a selected path is granted and adds exactly the ports of the path
   (`HoldsOn.reserve`).
2. One compilation adds the ports along which it reserved: those of the paths that it records, also
   when it fails to install them (`HoldsOn.compile`), and so does each of a run of compilations
   (`Standing.Keeps.run`).

The ledger may add what is held in any order. Where that changes what is available, a reservation
along a selected path may be refused (`way_back_not_held`), so nothing is said of such a run.

Main fact: `held_ports_after_compile`.
-/

namespace HostRouting

/-- A consumer holds the bandwidth, and nothing else, on exactly the device ports among the
points. -/
def HoldsOn (l : Ledger) (d : Consumer) (b : Bandwidth) (points : List ConnectPoint) : Prop :=
  ∀ r, r ∈ l.holding d ↔ ∃ p ∈ points, Resource.atPoint? p b = some r

/-! ## Reservations -/

section

variable {l : Ledger} {c : Connectivity} {d : Consumer} {b : Bandwidth} {r : Resource}
variable {crossed points points' : List ConnectPoint}

theorem HoldsOn.value (h : HoldsOn l d b crossed) (hr : r ∈ l.holding d) : r.value = b.bps :=
  value_of_mem_neededResources (mem_neededResources.2 ((h r).1 hr))

/-- When the consumer holds the right bandwidth wherever it holds any, there is nothing to give
back. -/
theorem HoldsOn.clearedLedger (h : HoldsOn l c.consumer b crossed) (hgroup : c.group = none) :
    clearedLedger l c b points = l := by
  unfold HostRouting.clearedLedger giveBackOwn
  rw [hgroup, if_neg (by simp)]
  apply Ledger.giveBack_of_not_held
  intro a ha r _
  obtain ⟨hheld, hany⟩ := List.mem_filter.1 ha
  obtain ⟨r', hr', hid⟩ := List.any_eq_true.1 hany
  obtain ⟨held, hmem, rfl⟩ := List.mem_map.1 hheld
  have hsame : held = r' := Resource.ext (of_decide_eq_true hid).symm
    ((h.value hmem).trans (value_of_mem_neededResources (outstanding_subset hr')).symm)
  exact Resource.beq_eq_false_of_nan (nan_of_outstanding_of_held (hsame ▸ hr') hmem) r

/-- A reservation that is granted adds what is outstanding. -/
theorem HoldsOn.reserve_eq (h : HoldsOn l c.consumer b crossed) (hgroup : c.group = none)
    (hrequested : c.requestedBandwidth? = some b)
    (hfits : ∀ r ∈ outstanding l c.consumer b points, l.fits r.id b.bps = true) :
    (reserve l c points).1 =
      if outstanding l c.consumer b points = [] then l
      else l.setHolding c.consumer (l.holding c.consumer ++ outstanding l c.consumer b points) := by
  rw [HostRouting.reserve_eq hrequested]
  by_cases hempty : outstanding l c.consumer b points = []
  · rw [if_pos (by simp [hempty]), if_pos hempty]
  · rw [if_neg (by simpa using hempty), if_neg hempty, h.clearedLedger hgroup, Ledger.allocate,
      if_pos (grants_outstanding_iff.2 hfits)]

/-- A reservation that is granted adds the device ports among its points. -/
theorem HoldsOn.reserve (h : HoldsOn l c.consumer b crossed) (hgroup : c.group = none)
    (hrequested : c.requestedBandwidth? = some b)
    (hfits : ∀ r ∈ outstanding l c.consumer b points, l.fits r.id b.bps = true) :
    HoldsOn (reserve l c points).1 c.consumer b (crossed ++ points) := by
  have hholding : (HostRouting.reserve l c points).1.holding c.consumer =
      l.holding c.consumer ++ outstanding l c.consumer b points := by
    rw [h.reserve_eq hgroup hrequested hfits]
    split
    next hempty => rw [hempty, List.append_nil]
    next => exact Ledger.holding_setHolding_self _ _ _
  intro r
  have hboth : (∃ p ∈ crossed ++ points, Resource.atPoint? p b = some r) ↔
      (∃ p ∈ crossed, Resource.atPoint? p b = some r) ∨ r ∈ neededResources b points := by
    simp only [mem_neededResources, List.mem_append, or_and_right, exists_or]
  rw [hholding, List.mem_append, hboth, h r]
  constructor
  · exact Or.imp_right outstanding_subset
  · rintro (hr | hr)
    · exact .inl hr
    · rcases held_or_outstanding (l := l) (c := c.consumer) hr with hout | ⟨held, hmem, hbeq⟩
      · exact .inr hout
      · have hsame : held = r := Resource.ext (Resource.beq_iff.1 hbeq).1
          ((h.value hmem).trans (value_of_mem_neededResources hr).symm)
        exact .inl ((h r).1 (hsame ▸ hmem))

/-- What is still outstanding after a reservation fits as it did before. -/
theorem HoldsOn.fits_reserve (h : HoldsOn l c.consumer b crossed) (hgroup : c.group = none)
    (hrequested : c.requestedBandwidth? = some b)
    (hfits : ∀ r ∈ outstanding l c.consumer b points, l.fits r.id b.bps = true)
    (hout : r ∈ outstanding (HostRouting.reserve l c points).1 c.consumer b points')
    (hr : l.fits r.id b.bps = true) :
    (HostRouting.reserve l c points).1.fits r.id b.bps = true := by
  rw [h.reserve_eq hgroup hrequested hfits] at hout ⊢
  split at hout
  next hempty =>
    rw [if_pos hempty]
    exact hr
  next hempty =>
    rw [if_neg hempty]
    by_cases hgranted : ∃ r' ∈ outstanding l c.consumer b points, r'.id = r.id
    · refine Ledger.fits_of_unlimited ?_ _
      rw [Ledger.capacities_setHolding]
      exact unlimited_of_outstanding_granted (grants_outstanding_iff.2 hfits) hgranted hout
    · have hsame := l.quantities_setHolding_append c.consumer
        fun r' hr' hid => hgranted ⟨r', hr', hid⟩
      exact (Ledger.fits_congr (l.capacities_setHolding _ _) hsame _).trans hr

end

/-! ## Compilations -/

/-- There is a device at either end of the path, so it can be installed. -/
def Path.opensAtDevices (p : Path) : Bool :=
  (devicePoint p.first).isOk && (devicePoint p.last).isOk

/-- The points along which a compilation has reserved: those of both recorded paths when it
succeeds. When the paths are recorded but cannot be installed, those of the path back are among them
only if the path there can be installed. -/
def Outcome.reservedPoints {σ ρ : Type} (o : Outcome σ ρ (List Installable)) :
    List ConnectPoint :=
  match o.result, o.intent.paths with
  | .ok _, some (there, back) => there.connectPoints ++ back.connectPoints
  | .error (.compilation _), some (there, back) =>
    there.connectPoints ++ if there.opensAtDevices then back.connectPoints else []
  | _, _ => []

theorem isOk_installable_iff {flavor : InstallableFlavor} {i : HostIntent} {p : Path}
    {src dst : Host} :
    (installable flavor i p src dst).isOk = true ↔ flavor = .path ∨ p.opensAtDevices = true := by
  unfold installable Path.opensAtDevices
  cases flavor with
  | path => exact iff_of_true rfl (.inl rfl)
  | linkCollection =>
    dsimp only
    cases devicePoint p.first with
    | error e => simp [bind, Except.bind, Except.isOk, Except.toBool]
    | ok ingress =>
      cases devicePoint p.last <;> simp [bind, Except.bind, Except.isOk, Except.toBool]

theorem reservedPoints_reroutingOutcome {σ ρ : Type} [Reservations ρ] (c : Compiler σ)
    (s : Stores σ ρ) (i : HostIntent) (links : σ) (there back : Path) (one two : Host) :
    (reroutingOutcome c s i links there back one two).reservedPoints =
      there.connectPoints ++
        if (installable c.config.flavor (i.routed there back) there one two).isOk then
          back.connectPoints
        else [] := by
  unfold reroutingOutcome installBoth install Outcome.reservedPoints
  cases hforward : installable c.config.flavor (i.routed there back) there one two with
  | error e =>
    obtain ⟨reason, rfl⟩ := installable_eq_error hforward
    have hclosed : ¬there.opensAtDevices = true := fun hopens => by
      have hok := hforward ▸ isOk_installable_iff.2 (.inr hopens)
      exact nomatch hok
    show there.connectPoints ++ (if there.opensAtDevices then back.connectPoints else []) = _
    rw [if_neg hclosed]
    rfl
  | ok forward =>
    cases hreverse : installable c.config.flavor (i.routed there back) back two one with
    | ok reverse => rfl
    | error e =>
      obtain ⟨reason, rfl⟩ := installable_eq_error hreverse
      -- Where a path can always be installed, the path back could be too.
      have hflavor : c.config.flavor ≠ .path := fun hpath => by
        have hok := hreverse ▸ isOk_installable_iff.2 (.inl hpath)
        exact nomatch hok
      have hopens : there.opensAtDevices = true :=
        (isOk_installable_iff.1 (congrArg Except.isOk hforward)).resolve_left hflavor
      show there.connectPoints ++ (if there.opensAtDevices then back.connectPoints else []) = _
      rw [if_pos hopens]
      rfl

/-- A compilation adds the device ports along which it reserved. -/
theorem HoldsOn.compile {σ : Type} [LinkStore σ] {c : Compiler σ} {s : Stores σ Ledger}
    {i : HostIntent} {b : Bandwidth} {crossed : List ConnectPoint}
    (h : HoldsOn s.resources (.intent i.base.key) b crossed)
    (hgroup : i.base.group = none) (hrequested : i.base.requestedBandwidth? = some b)
    (hends : i.one ≠ i.two) :
    HoldsOn (compile c s i).stores.resources (.intent i.base.key) b
      (crossed ++ (HostRouting.compile c s i).reservedPoints) := by
  have hconsumer : i.base.consumer = .intent i.base.key := by
    unfold Connectivity.consumer
    rw [hgroup]
  rcases compile_steps c s i with ⟨heq, -⟩ | ⟨e, hr, hc⟩ | ⟨bare, e, -, -, hc⟩ |
    ⟨bare, links, there, back, one, two, hrouting, hc⟩
  · exact absurd heq hends
  · -- The error is not one of installing, so nothing has been reserved.
    obtain ⟨key, value, -, rfl⟩ := contribute_eq_error (retract_eq_error hr).2
    rw [hc]
    simpa [Outcome.reservedPoints] using h
  · rw [hc]
    simpa [Outcome.reservedPoints, HostIntent.unrouted] using h
  · rw [← hconsumer] at h ⊢
    obtain ⟨hthere, hback⟩ := fits_of_selectRoutes hrequested hrouting.selected
    have houtstanding : ∀ r ∈ outstanding s.resources i.base.consumer b there.connectPoints,
        s.resources.fits r.id b.bps = true := fun r hr => hthere r (outstanding_subset hr)
    have hfirst := h.reserve hgroup hrequested houtstanding
    have hsecond : HoldsOn
        (HostRouting.reserve (HostRouting.reserve s.resources i.base there.connectPoints).1 i.base
          back.connectPoints).1 i.base.consumer b
        (crossed ++ there.connectPoints ++ back.connectPoints) :=
      hfirst.reserve hgroup hrequested fun r hr =>
        h.fits_reserve hgroup hrequested houtstanding hr (hback r (outstanding_subset hr))
    rw [hc, reservedPoints_reroutingOutcome, ← List.append_assoc]
    unfold reroutingOutcome
    dsimp only
    rw [resources_installBoth_eq]
    dsimp only
    split
    · exact hsecond
    · rw [List.append_nil]
      exact hfirst

/-! ## Runs of compilations -/

/-- A compilation of an intent with a key, after whatever happened since the one before: the links
and the hosts are the given ones, and others have used the ledger. -/
structure Turn (σ : Type) (key : IntentKey) where
  compiler : Compiler σ
  links : σ
  hosts : HostDirectory
  others : ShuffledLedger → ShuffledLedger
  own : ∀ l, (others l).book.holding (.intent key) = l.book.holding (.intent key)

/-- What a run of compilations leaves: the ledger, the intent and the points along which it has
reserved so far. -/
structure Standing where
  ledger : ShuffledLedger
  intent : HostIntent
  crossed : List ConnectPoint

namespace Standing

variable {σ : Type} [LinkStore σ] {key : IntentKey} {b : Bandwidth} {s : Standing}

def outcome (s : Standing) (t : Turn σ key) : Outcome σ ShuffledLedger (List Installable) :=
  compile t.compiler ⟨t.links, t.hosts, t.others s.ledger⟩ s.intent

def step (s : Standing) (t : Turn σ key) : Standing :=
  let o := s.outcome t
  ⟨o.stores.resources, o.intent, s.crossed ++ o.reservedPoints⟩

def run (s : Standing) (turns : List (Turn σ key)) : Standing := turns.foldl step s

/-- Whenever the intent is compiled, the sums of the ledger do not depend on the order. -/
def OrderFree : Standing → List (Turn σ key) → Prop
  | _, [] => True
  | s, t :: rest => (t.others s.ledger).book.OrderFree ∧ OrderFree (s.step t) rest

/-- The intent has no group, asks for the bandwidth and connects two hosts, and it holds the
bandwidth along everything that it has crossed. -/
structure Keeps (key : IntentKey) (b : Bandwidth) (s : Standing) : Prop where
  identity : s.intent.base.key = key
  ungrouped : s.intent.base.group = none
  requested : s.intent.base.requestedBandwidth? = some b
  ends : s.intent.one ≠ s.intent.two
  holds : HoldsOn s.ledger.book (.intent key) b s.crossed

theorem Keeps.step (h : s.Keeps key b) {t : Turn σ key}
    (hfree : (t.others s.ledger).book.OrderFree) : (s.step t).Keeps key b := by
  have hsame : (s.outcome t).intent.unrouted = s.intent.unrouted := compile_unrouted _ _ _
  have hbase : (s.outcome t).intent.base = s.intent.base := compile_base _ _ _
  have hheld : HoldsOn (t.others s.ledger).book (.intent s.intent.base.key) b s.crossed := by
    intro r
    rw [h.identity, t.own]
    exact h.holds r
  refine ⟨?_, ?_, ?_, ?_, ?_⟩
  · exact (congrArg (·.key) hbase).trans h.identity
  · exact (congrArg (·.group) hbase).trans h.ungrouped
  · exact (congrArg (·.requestedBandwidth?) hbase).trans h.requested
  · show (s.outcome t).intent.unrouted.one ≠ (s.outcome t).intent.unrouted.two
    rw [hsame]
    exact h.ends
  · -- The ledger is left as a compilation against its book would leave that.
    have hcompiled := HoldsOn.compile (c := t.compiler)
      (s := ⟨t.links, t.hosts, (t.others s.ledger).book⟩) hheld h.ungrouped h.requested h.ends
    rw [h.identity] at hcompiled
    have hbook := compile_book (s := ⟨t.links, t.hosts, t.others s.ledger⟩) hfree t.compiler
      s.intent
    unfold Stores.book at hbook
    rw [hbook] at hcompiled
    exact hcompiled

theorem Keeps.run (h : s.Keeps key b) {turns : List (Turn σ key)} {last : Turn σ key}
    (hfree : s.OrderFree (turns ++ [last])) :
    (s.run turns).Keeps key b ∧ (last.others (s.run turns).ledger).book.OrderFree := by
  induction turns generalizing s with
  | nil => exact ⟨h, hfree.1⟩
  | cons t rest ih => exact ih (h.step hfree.1) hfree.2

end Standing

/-- After a successful compilation an intent without a group holds the requested bandwidth on the
device ports of its recorded paths and on those along which it reserved before, and on no others:
none is ever given back. The order in which the ledger adds what is held may change at any time, as
long as it does not matter. -/
theorem held_ports_after_compile {σ : Type} [LinkStore σ] {l : ShuffledLedger} {i : HostIntent}
    {b : Bandwidth} (hgroup : i.base.group = none)
    (hrequested : i.base.requestedBandwidth? = some b) (hends : i.one ≠ i.two)
    (hnothing : l.book.holding (.intent i.base.key) = [])
    (turns : List (Turn σ i.base.key)) (last : Turn σ i.base.key)
    (hfree : (Standing.mk l i []).OrderFree (turns ++ [last])) :
    let before := (Standing.mk l i []).run turns
    let o := before.outcome last
    o.result.isOk = true →
      ∃ there back, o.intent.paths = some (there, back) ∧
        HoldsOn o.stores.resources.book (.intent i.base.key) b
          (before.crossed ++ (there.connectPoints ++ back.connectPoints)) := by
  intro before o hok
  have hstart : (Standing.mk l i []).Keeps i.base.key b :=
    ⟨rfl, hgroup, hrequested, hends, fun r => by simp [hnothing]⟩
  obtain ⟨hbefore, hlast⟩ : before.Keeps i.base.key b ∧
    (last.others before.ledger).book.OrderFree := hstart.run hfree
  obtain ⟨bare, links, there, back, one, two, -, hc⟩ := rerouting_of_compile_isOk hok hbefore.ends
  have hpaths : o.intent.paths = some (there, back) := congrArg (·.intent.paths) hc
  have hreserved : o.reservedPoints = there.connectPoints ++ back.connectPoints := by
    unfold Outcome.reservedPoints
    rw [hpaths]
    cases hresult : o.result with
    | ok installables => rfl
    | error e =>
      rw [hresult] at hok
      exact nomatch hok
  have hafter : HoldsOn o.stores.resources.book (.intent i.base.key) b
      (before.crossed ++ o.reservedPoints) := (hbefore.step hlast).holds
  exact ⟨there, back, hpaths, hreserved ▸ hafter⟩

namespace Sample

/-- Two cables between two devices. -/
def parallel : LinkTable :=
  (cable (port "s1" 1) (port "s2" 1) ++ cable (port "s1" 2) (port "s2" 2)).foldl
    LinkTable.insert .empty

/-- The cables after a link of the first is removed. -/
def thinned : LinkTable := (parallel.remove (port "s1" 1) (port "s2" 1)).1

/-- A host at each of the devices. -/
def parallelHosts : HostDirectory :=
  (HostDirectory.empty.add ((Host.named one (mac 1)).locatedAt (port "s1" 9))).add
    ((Host.named two (mac 2)).locatedAt (port "s2" 9))

/-- A port of the second cable is limited, a group holds some of it, and every change turns the
order of what is held around. -/
def turning : ShuffledLedger where
  book := (Ledger.empty.setCapacity ⟨⟨"s1"⟩, 2⟩ 20).setHolding (.group ⟨7⟩) [⟨⟨⟨"s1"⟩, 2⟩, 2⟩]
  changes := 0
  order n _ xs := if n % 2 = 1 then xs.reverse else xs
  perm n id xs := by
    split
    · exact List.reverse_perm xs
    · exact List.Perm.refl xs

/-- The sample intent is compiled on the given links, after another group has asked for some of the
limited port. -/
def onParallel (links : LinkTable) : Turn LinkTable (intent [.bandwidth ⟨10⟩]).base.key where
  compiler := ⟨topologyPaths .default, .default⟩
  links := links
  hosts := parallelHosts
  others l := (l.allocate (.group ⟨8⟩) [⟨⟨⟨"s1"⟩, 2⟩, 4⟩]).1
  own l := by
    unfold ShuffledLedger.allocate
    split
    · exact l.book.holding_setHolding_of_ne (by decide) _
    · rfl

/-- The sample intent, compiled once. -/
def settled : Standing :=
  (Standing.mk turning (intent [.bandwidth ⟨10⟩]) []).run [onParallel parallel]

/-- What it leaves when it is compiled again on the links that are left. -/
def diverted : Outcome LinkTable ShuffledLedger (List Installable) :=
  settled.outcome (onParallel thinned)

end Sample

/-- With what the groups hold the limited port is full in the end. -/
theorem held_ports_after_compile_diverted :
    (Sample.intent [.bandwidth ⟨10⟩]).base.group = none ∧
      (Sample.intent [.bandwidth ⟨10⟩]).base.requestedBandwidth? = some ⟨10⟩ ∧
      Sample.one ≠ Sample.two ∧
      Sample.turning.book.holding (.intent (Sample.intent [.bandwidth ⟨10⟩]).base.key) = [] ∧
      (Standing.mk Sample.turning (Sample.intent [.bandwidth ⟨10⟩]) []).OrderFree
        ([Sample.onParallel Sample.parallel] ++ [Sample.onParallel Sample.thinned]) ∧
      Sample.diverted.result.isOk = true ∧
      Sample.diverted.stores.resources.book.quantities ⟨⟨"s1"⟩, 2⟩ = [10, 2, 4, 4] ∧
      ∃ there back, Sample.diverted.intent.paths = some (there, back) ∧
        HoldsOn Sample.diverted.stores.resources.book (.intent ⟨⟨"sample"⟩, "h1h2"⟩) ⟨10⟩
          (Sample.settled.crossed ++ (there.connectPoints ++ back.connectPoints)) := by
  have hgroup : (Sample.intent [.bandwidth ⟨10⟩]).base.group = none := rfl
  have hrequested : (Sample.intent [.bandwidth ⟨10⟩]).base.requestedBandwidth? = some ⟨10⟩ := rfl
  have hends : Sample.one ≠ Sample.two := by decide
  have hnothing :
      Sample.turning.book.holding (.intent (Sample.intent [.bandwidth ⟨10⟩]).base.key) = [] := rfl
  have hfree : (Standing.mk Sample.turning (Sample.intent [.bandwidth ⟨10⟩]) []).OrderFree
      ([Sample.onParallel Sample.parallel] ++ [Sample.onParallel Sample.thinned]) := by
    refine ⟨Ledger.CountsWhole.orderFree ?_, Ledger.CountsWhole.orderFree ?_, trivial⟩
    · decide +kernel
    · decide +kernel
  have hok : Sample.diverted.result.isOk = true := by decide +kernel
  have hfull : Sample.diverted.stores.resources.book.quantities ⟨⟨"s1"⟩, 2⟩ = [10, 2, 4, 4] := by
    decide +kernel
  unfold Sample.diverted Sample.settled at hok hfull ⊢
  exact ⟨hgroup, hrequested, hends, hnothing, hfree, hok, hfull,
    held_ports_after_compile hgroup hrequested hends hnothing [Sample.onParallel Sample.parallel]
      (Sample.onParallel Sample.thinned) hfree hok⟩

namespace Sample

def tenths (n : Nat) : Binary64 := .ofQuotient false (n * unitsPerOne) 10

/-- A way back by ports of its own. -/
def pathBack : Path :=
  ⟨.core, [.between (port "s2" 2) (port "s1" 2) .direct], 1, by simp, trivial⟩

/-- The service that offers a path in one direction and another one in the other. -/
def oneWays : PathService LinkTable :=
  ⟨fun _ _ _ src _ => if src = .host one then [path] else [pathBack], fun _ _ _ _ _ => []⟩

/-- Groups hold one, two and three tenths of a port on the way back. They are added from the
largest at first, which gives six tenths, and from the smallest later, which gives more. -/
def rounding : ShuffledLedger where
  book := (((Ledger.empty.setCapacity ⟨⟨"s2"⟩, 2⟩ (tenths 9)).setHolding (.group ⟨1⟩)
    [⟨⟨⟨"s2"⟩, 2⟩, tenths 1⟩]).setHolding (.group ⟨2⟩) [⟨⟨⟨"s2"⟩, 2⟩, tenths 2⟩]).setHolding
    (.group ⟨3⟩) [⟨⟨⟨"s2"⟩, 2⟩, tenths 3⟩]
  changes := 0
  order n _ xs := if n = 0 then xs.reverse else xs
  perm n id xs := by
    split
    · exact List.reverse_perm xs
    · exact List.Perm.refl xs

/-- The sample intent is compiled on the one-way paths, and no one else reserves. -/
def onOneWays : Turn LinkTable ⟨⟨"sample"⟩, "h1h2"⟩ where
  compiler := ⟨oneWays, .default⟩
  links := .empty
  hosts := hosts
  others := id
  own _ := rfl

/-- What compiling it leaves when it asks for three tenths in both directions. -/
def rounded : Outcome LinkTable ShuffledLedger (List Installable) :=
  (Standing.mk rounding (intent [.bandwidth ⟨tenths 3⟩, .asymmetricPath]) []).outcome onOneWays

end Sample

/-- Where the order matters, the compilation may succeed without the reservation on the way back:
the first reservation changes the order, and what was available is refused. -/
theorem way_back_not_held :
    Sample.rounded.result.isOk = true ∧
      Sample.rounded.intent.paths.map (·.2.links) = some Sample.pathBack.links ∧
      Sample.rounding.fits ⟨⟨"s2"⟩, 2⟩ (Sample.tenths 3) = true ∧
      (Sample.rounded.stores.resources.book.holding (.intent ⟨⟨"sample"⟩, "h1h2"⟩)).map
        Resource.id = [⟨⟨"s1"⟩, 1⟩, ⟨⟨"s2"⟩, 1⟩] := by decide +kernel

/-- The port that the first compilation took is still held, and it is on neither recorded path. -/
theorem left_port_stays_held :
    (Sample.intent [.bandwidth ⟨10⟩]).base.group = none ∧
      (Sample.intent [.bandwidth ⟨10⟩]).base.requestedBandwidth? = some ⟨10⟩ ∧
      Sample.one ≠ Sample.two ∧
      Sample.turning.book.holding (.intent (Sample.intent [.bandwidth ⟨10⟩]).base.key) = [] ∧
      Sample.diverted.result.isOk = true ∧
      ¬∃ there back, Sample.diverted.intent.paths = some (there, back) ∧
        HoldsOn Sample.diverted.stores.resources.book (.intent ⟨⟨"sample"⟩, "h1h2"⟩) ⟨10⟩
          (there.connectPoints ++ back.connectPoints) := by
  obtain ⟨hok, ⟨r, hr, hid⟩, hleft⟩ : Sample.diverted.result.isOk = true ∧
      (∃ r ∈ Sample.diverted.stores.resources.book.holding (.intent ⟨⟨"sample"⟩, "h1h2"⟩),
        r.id = ⟨⟨"s1"⟩, 1⟩) ∧
      ∀ paths ∈ Sample.diverted.intent.paths,
        ∀ p ∈ paths.1.connectPoints ++ paths.2.connectPoints,
          p.device?.map (ResourceId.mk · p.port) ≠ some ⟨⟨"s1"⟩, 1⟩ := by decide +kernel
  refine ⟨rfl, rfl, by decide, rfl, hok, ?_⟩
  rintro ⟨there, back, hpaths, hholds⟩
  obtain ⟨p, hp, hat⟩ := (hholds r).1 hr
  refine hleft (there, back) hpaths p hp ?_
  obtain ⟨device, hdevice, rfl⟩ := Option.map_eq_some_iff.1 hat
  rw [hdevice, ← hid]
  rfl

end HostRouting
