import HostRouting.Ledger.Basic
import HostRouting.LinkStore.Table
import HostRouting.Proofs.Routing.Settling
import HostRouting.Proofs.Routing.Soundness
import HostRouting.Proofs.Routing.Weights
import HostRouting.Routing.Selection

/-!
# When a route is found

A passage over usable links with a weight exists exactly when the search gives the destination a
cost (`Graph.isSome_cost_iff_passage`). A path is listed exactly when the links by which elements
were reached also lead back from the destination to the source (`allRoutes_ne_nil_iff`).

They do lead back when a cost that neither exceeds another one of its element nor ties with it is
smaller (`Graph.Decisive`): then what is known of a settled element is never replaced. The weights
of constraints are not negative (`Context.nonneg_of_weigher`), but costs need not be decisive. Two
infinite costs neither exceed each other nor tie, so the links that reach an element last replace
the others, and the way back can run in a circle (`paths_miss_route`).

Main fact: `paths_ne_nil_iff`.
-/

namespace HostRouting

variable {κ : Type} [PathCost κ] {g : Graph κ} {src dst e : ElementId} {rank : κ → Nat}

/-! ## The way back -/

namespace Search

/-- The links by which settled elements were reached lead back from an element to the source. -/
inductive LeadsBack (s : Search κ) (src : ElementId) : ElementId → Prop
  | source : LeadsBack s src src
  | step {e : ElementId} {l : Link} (h : LeadsBack s src l.src.element) (he : e ∈ s.settled)
    (hl : l ∈ s.arrivalsAt e) : LeadsBack s src e

variable {s s' : Search κ}

omit [PathCost κ] in
theorem LeadsBack.mono (h : s.LeadsBack src e) (hsettled : ∀ e ∈ s.settled, e ∈ s'.settled)
    (harrivals : ∀ e ∈ s.settled, ∀ l ∈ s.arrivalsAt e, l ∈ s'.arrivalsAt e) :
    s'.LeadsBack src e := by
  induction h with
  | source => exact .source
  | step _ he hl ih => exact ih.step (hsettled _ he) (harrivals _ he _ hl)

omit [PathCost κ] in
theorem LeadsBack.exists_walk (h : s.LeadsBack src e) (hs : s.Consistent) :
    ∃ links, IsWalk src links e ∧ ∀ l ∈ links, l ∈ s.arrivalsAt l.dst.element := by
  induction h with
  | source => exact ⟨[], rfl, by simp⟩
  | @step e l _ _ hl ih =>
    obtain ⟨links, hwalk, hlinks⟩ := ih
    obtain rfl := hs e l hl
    refine ⟨links ++ [l], hwalk.concat rfl, fun l' hl' => ?_⟩
    rcases List.mem_append.1 hl' with hl' | hl'
    · exact hlinks l' hl'
    · rwa [List.mem_singleton.1 hl']

/-- The way back from all elements that have a cost: from settled ones, and from the others by the
first step. -/
structure Retraces (s : Search κ) (src : ElementId) : Prop where
  settled : ∀ e ∈ s.settled, s.LeadsBack src e
  waiting : ∀ e, (s.costs.get? e).isSome → e ∉ s.settled →
    e = src ∨ ∃ l ∈ s.arrivalsAt e, s.LeadsBack src l.src.element

omit [PathCost κ] in
theorem Retraces.pass (h : s.Retraces src) (rest : List (ElementId × κ)) :
    Retraces { s with frontier := rest } src := by
  have hmono : ∀ {e}, s.LeadsBack src e → LeadsBack { s with frontier := rest } src e :=
    fun he => he.mono (fun _ he => he) fun _ _ _ hl => hl
  exact ⟨fun e he => hmono (h.settled e he), fun e he hnew =>
    (h.waiting e he hnew).imp id fun ⟨l, hl, hback⟩ => ⟨l, hl, hmono hback⟩⟩

theorem Retraces.serve {entry : ElementId × κ} {rest : List (ElementId × κ)}
    {done : List (Edge κ)} (h : s.Retraces src) (hsound : Sound g src done s)
    (htakes : s.Takes entry rest) :
    Retraces { s with settled := entry.1 :: s.settled, frontier := rest } src := by
  have hmono : ∀ {e}, s.LeadsBack src e → LeadsBack
      { s with settled := entry.1 :: s.settled, frontier := rest } src e :=
    fun he => he.mono (fun _ he => List.mem_cons_of_mem _ he) fun _ _ _ hl => hl
  constructor
  · intro e he
    rcases List.mem_cons.1 he with rfl | he
    · rcases h.waiting _ (hsound.waiting entry htakes.mem).1 htakes.new with hsrc | ⟨l, hl, hback⟩
      · rw [hsrc]
        exact .source
      · exact (hmono hback).step List.mem_cons_self hl
    · exact hmono (h.settled e he)
  · intro e he hnew'
    refine (h.waiting e he fun hs => hnew' (List.mem_cons_of_mem _ hs)).imp id ?_
    exact fun ⟨l, hl, hback⟩ => ⟨l, hl, hmono hback⟩

/-- An arrival that replaces others is cheaper, so its end is not settled yet. -/
theorem Retraces.relax {cost : κ} {done : List (Edge κ)} {edge : Edge κ}
    (hrank : g.Ranked src rank)
    (hdecisive : ∀ {e cost known}, g.Arrives src e cost → g.Arrives src e known →
      ¬PathCost.exceeds cost known = true → ¬PathCost.ties cost known = true →
      rank cost < rank known)
    (hserving : Serving g src rank e cost done s) (hedge : edge ∈ g.edgesOut src e)
    (h : s.Retraces src) : Retraces (Search.relax cost s edge) src := by
  obtain ⟨hmem, rfl, hleave⟩ := Graph.mem_edgesOut_iff.1 hedge
  have hback := h.settled _ hserving.mem
  have hrelaxed := relaxed cost s edge
  generalize Search.relax cost s edge = s' at hrelaxed ⊢
  cases hrelaxed with
  | kept _ _ => exact h
  | tied hknown _ _ =>
    have harrivals : ∀ e, ∀ l ∈ s.arrivalsAt e, l ∈ arrivalsAt
        { s with arrivals := s.arrivals.insert edge.link.dst.element
                  (s.arrivalsAt edge.link.dst.element ++ [edge.link]) } e := by
      intro e l hl
      rw [arrivalsAt_insert rfl]
      split
      next he => exact List.mem_append_left _ (he ▸ hl)
      next => exact hl
    constructor
    · exact fun e he => (h.settled e he).mono (fun _ he => he) fun e _ => harrivals e
    · intro e he hnew
      refine (h.waiting e he hnew).imp id fun ⟨l, hl, hl'⟩ => ⟨l, harrivals e l hl, ?_⟩
      exact hl'.mono (fun _ he => he) fun e _ => harrivals e
  | replaced hknown =>
    have hnext : edge.link.dst.element ∉ s.settled := by
      intro hsettled
      obtain ⟨known, hcost⟩ := Option.isSome_iff_exists.1
        (hserving.sound.settledKnown _ hsettled)
      have hlt := hdecisive (hserving.arrives.step hleave hmem) (hserving.sound.arrives hcost)
        (hknown known hcost).1 (hknown known hcost).2
      have hlast := hserving.last _ hsettled
      rw [rankAt_of_cost hcost] at hlast
      have hgrows := hrank.grows hserving.arrives hmem
      omega
    have harrivals : ∀ e ∈ s.settled, ∀ l ∈ s.arrivalsAt e,
        l ∈ (s.reroute edge (PathCost.add cost edge.weight)).arrivalsAt e := by
      intro e he l hl
      have hne : e ≠ edge.link.dst.element := fun heq => hnext (heq ▸ he)
      rwa [arrivalsAt_insert (s := s) rfl, if_neg hne]
    have hmono : ∀ {e}, s.LeadsBack src e →
        (s.reroute edge (PathCost.add cost edge.weight)).LeadsBack src e :=
      fun he => he.mono (fun _ he => he) harrivals
    constructor
    · exact fun e he => hmono (h.settled e he)
    · intro e he hnew
      rw [arrivalsAt_insert (s := s) rfl]
      split
      next => exact .inr ⟨edge.link, List.mem_singleton_self _, hmono hback⟩
      next hne =>
        rw [reroute, SortedMap.get?_insert, if_neg hne] at he
        refine (h.waiting e he hnew).imp id fun ⟨l, hl, hl'⟩ => ⟨l, hl, hmono hl'⟩

end Search

/-- From all elements with a cost the links by which they were reached lead back, if replacing a
cost makes the rank smaller. -/
theorem Graph.leadsBack_of_cost (hrank : g.Ranked src rank)
    (hdecisive : ∀ {e cost known}, g.Arrives src e cost → g.Arrives src e known →
      ¬PathCost.exceeds cost known = true → ¬PathCost.ties cost known = true →
      rank cost < rank known)
    (h : ((g.search src).costs.get? e).isSome) : (g.search src).LeadsBack src e := by
  have hstart : (Search.start (κ := κ) src).Retraces src := by
    refine ⟨fun e he => absurd he List.not_mem_nil, fun e he _ => .inl ?_⟩
    by_contra hne
    simp [Search.start, SortedMap.get?_insert, hne] at he
  have hretraces : (g.search src).Retraces src :=
    Graph.search_induction hrank (Q := fun _ s => s.Retraces src) hstart
      (fun _ _ rest h => h.pass rest)
      (fun _ _ _ _ hsound htakes h => h.serve hsound htakes)
      fun _ _ _ _ _ hserving hedge h => h.relax hrank hdecisive hserving hedge
  obtain ⟨cost, hcost⟩ := Option.isSome_iff_exists.1 h
  exact hretraces.settled e (mem_settled_of_cost hcost)

/-- A route can be read from the destination exactly when the links by which elements were reached
lead back from it. -/
theorem allRoutes_ne_nil_iff :
    g.allRoutes (g.search src) src dst ≠ [] ↔ (g.search src).LeadsBack src dst := by
  have hserved := Graph.served_search g src
  constructor
  · intro h
    obtain ⟨route, hroute⟩ := List.exists_mem_of_ne_nil _ h
    obtain ⟨hwalk, harrives, -⟩ := hserved.mem_allRoutes_iff.1 hroute
    have hback : ∀ {e} (links : List Link), IsWalk e links dst →
        (∀ l ∈ links, l ∈ (g.search src).arrivalsAt l.dst.element) →
        (g.search src).LeadsBack src e → (g.search src).LeadsBack src dst := by
      intro e links
      induction links generalizing e with
      | nil => exact fun hwalk _ he => (show e = dst from hwalk) ▸ he
      | cons l links ih =>
        intro hwalk harrives he
        have hl := harrives l List.mem_cons_self
        obtain ⟨cost, hcost⟩ := Option.isSome_iff_exists.1
          (hserved.sound.reachedKnown _ (List.ne_nil_of_mem hl))
        exact ih hwalk.2 (fun l hl => harrives l (List.mem_cons_of_mem _ hl))
          ((hwalk.1 ▸ he).step (Graph.mem_settled_of_cost hcost) hl)
    exact hback route hwalk harrives .source
  · intro h
    obtain ⟨links, hwalk, hlinks⟩ := h.exists_walk hserved.consistent
    obtain ⟨route, hsub, hwalk, hsimple⟩ := hwalk.exists_simple
    exact List.ne_nil_of_mem (hserved.mem_allRoutes_iff.2
      ⟨hwalk, fun l hl => hlinks l (hsub.subset hl), hsimple⟩)

/-! ## Decisive costs -/

/-- A cost of a walk that neither exceeds another one to the same element nor ties with it is
smaller. -/
def Graph.Decisive (g : Graph Binary64) (src : ElementId) : Prop :=
  ∀ e cost known, g.Arrives src e cost → g.Arrives src e known →
    ¬PathCost.exceeds cost known = true → ¬PathCost.ties cost known = true → cost < known

theorem Graph.Arrives.nonneg {g : Graph Binary64} {cost : Binary64}
    (hweights : ∀ edge ∈ g.edges, 0 ≤ edge.weight) (h : g.Arrives src e cost) : 0 ≤ cost := by
  induction h with
  | start => exact Binary64.zero_nonneg
  | step _ _ hedge ih => exact Binary64.add_nonneg ih (hweights _ hedge)

/-- Costs are decisive if those on a list are that has every cost of a walk. -/
theorem Graph.decisive_of_listed {g : Graph Binary64} {listed : List (ElementId × Binary64)}
    (hstart : (src, PathCost.zero) ∈ listed)
    (hstep : ∀ edge ∈ g.edges, ∀ a ∈ listed, a.1 = edge.link.src.element →
      (edge.link.dst.element, PathCost.add a.2 edge.weight) ∈ listed)
    (hdecisive : ∀ a ∈ listed, ∀ b ∈ listed, a.1 = b.1 → ¬PathCost.exceeds a.2 b.2 = true →
      ¬PathCost.ties a.2 b.2 = true → a.2 < b.2) : g.Decisive src := by
  have hlisted : ∀ {e cost}, g.Arrives src e cost → (e, cost) ∈ listed := by
    intro e cost h
    induction h with
    | start => exact hstart
    | step _ _ hedge ih => exact hstep _ hedge _ ih rfl
  exact fun e cost known hcost hknown =>
    hdecisive _ (hlisted hcost) _ (hlisted hknown) rfl

theorem Graph.Decisive.ranked {g : Graph Binary64} (h : g.Decisive src)
    (hweights : ∀ edge ∈ g.edges, 0 ≤ edge.weight) : g.Ranked src Binary64.level where
  le_of_order ha hb horder := by
    rw [Binary64.order_eq (ha.nonneg hweights) (hb.nonneg hweights), Nat.compare_ne_gt] at horder
    exact horder
  ge_of_order ha hb horder := by
    rw [Binary64.order_eq (ha.nonneg hweights) (hb.nonneg hweights), Nat.compare_ne_lt] at horder
    exact horder
  grows hcost hedge := by
    have hnonneg := hcost.nonneg hweights
    exact (Binary64.le_iff_level hnonneg (Binary64.add_nonneg hnonneg (hweights _ hedge))).1
      (Binary64.le_add hnonneg (hweights _ hedge))
  replaces hcost hknown hexceeds hties :=
    Nat.le_of_lt ((Binary64.lt_iff_level (hcost.nonneg hweights) (hknown.nonneg hweights)).1
      (h _ _ _ hcost hknown hexceeds hties))

/-! ## Paths -/

section

variable {σ : Type} [LinkStore σ] (config : PlannerConfig) {store : σ} {hosts : HostDirectory}

/-- A path is listed exactly when the way back from the destination leads to the source. -/
theorem paths_ne_nil_iff_leadsBack {weigher : Weigher} (hne : src ≠ dst)
    (hmax : 0 < config.maxPaths) :
    (topologyPaths config).paths store hosts weigher src dst ≠ [] ↔
      ((graphOf store hosts weigher).search src).LeadsBack src dst := by
  rw [← allRoutes_ne_nil_iff, not_iff_not, ← List.map_eq_nil_iff (f := Path.links),
    links_paths config store hosts weigher hne, ← List.length_eq_zero_iff, sorted,
    length_sortedOn, List.length_take, ← List.length_eq_zero_iff]
  omega

variable (store hosts) (ctx : Context) (constraints : List Constraint)

/-- When a list of constraints leaves a way: the search gives the destination a cost exactly then,
and it lists a path exactly when the links by which elements were reached also lead back, as they
do when costs are decisive. -/
theorem paths_ne_nil_iff (hne : src ≠ dst) (hmax : 0 < config.maxPaths) :
    let weigher := ctx.weigher constraints
    let g := graphOf store hosts weigher
    let paths := (topologyPaths config).paths store hosts weigher src dst
    let leaves := ∃ links,
      IsPassage (Admitted (LinkStore.links store) hosts.hosts weigher) src dst links
    (((g.search src).costs.get? dst).isSome ↔ leaves) ∧
      (paths ≠ [] ↔ (g.search src).LeadsBack src dst) ∧
      (g.Decisive src → (paths ≠ [] ↔ leaves)) := by
  intro weigher g paths leaves
  have hadmitted : (· ∈ g.edges.map Edge.link) =
      Admitted (LinkStore.links store) hosts.hosts weigher :=
    funext fun l => propext mem_links_topologyGraph_iff
  have hcost : ((g.search src).costs.get? dst).isSome ↔ leaves := by
    rw [Graph.isSome_cost_iff_passage, hadmitted]
  have hback : paths ≠ [] ↔ (g.search src).LeadsBack src dst :=
    paths_ne_nil_iff_leadsBack config hne hmax
  refine ⟨hcost, hback, fun hdecisive => ?_⟩
  have hweights : ∀ edge ∈ g.edges, 0 ≤ edge.weight := fun edge hedge =>
    ctx.nonneg_of_weigher (mem_topologyGraph_iff.1 hedge).2
  rw [← hcost]
  constructor
  · intro hpaths
    obtain ⟨p, hp⟩ := List.exists_mem_of_ne_nil _ hpaths
    exact hcost.2 ⟨p.links, (isRoute_of_mem_cheapestPaths hp).toIsPassage⟩
  · intro h
    refine hback.2 (Graph.leadsBack_of_cost (hdecisive.ranked hweights) ?_ h)
    intro e cost known hcost hknown hexceeds hties
    exact (Binary64.lt_iff_level (hcost.nonneg hweights) (hknown.nonneg hweights)).1
      (hdecisive _ _ _ hcost hknown hexceeds hties)

end

/-! ## A fork -/

namespace Fork

/-- A link between two devices that takes a time. -/
def lane (src dst : String) (latency : String) : Link :=
  { Link.between ⟨.device ⟨src⟩, 1⟩ ⟨.device ⟨dst⟩, 2⟩ .direct with
    annotations := .ofList [("latency", latency)] }

/-- The link from the first device to the last, which takes too long. -/
def direct : Link := lane "s1" "s4" "25"

/-- Ways from the first device to the last over the second, over the third and without a stop. -/
def links : LinkTable :=
  [lane "s1" "s2" "5", lane "s2" "s4" "5", lane "s1" "s3" "3", lane "s3" "s4" "4", direct].foldl
    LinkTable.insert .empty

def start : ElementId := .device ⟨"s1"⟩

def goal : ElementId := .device ⟨"s4"⟩

def constraints : List Constraint := [.limit "latency" 20 true]

def quick : Weigher := (Context.ofStores links Ledger.empty).weigher constraints

/-- The way over the second device. -/
def way : List Link := [lane "s1" "s2" "5", lane "s2" "s4" "5"]

/-- The costs of all walks; the last device is reached at two of them. -/
def costs : List (ElementId × Binary64) :=
  [(start, 0), (.device ⟨"s2"⟩, 5), (.device ⟨"s3"⟩, 3), (goal, 10), (goal, 7)]

end Fork

theorem paths_ne_nil_iff_fork :
    Fork.start ≠ Fork.goal ∧ 0 < PlannerConfig.default.maxPaths ∧
      (graphOf Fork.links .empty Fork.quick).Decisive Fork.start ∧
      (Fork.quick Fork.direct).value? = none ∧
      ((graphOf Fork.links .empty Fork.quick).search Fork.start).costs.get? Fork.goal = some 7 ∧
      (∃ links, IsPassage (Admitted Fork.links.links [] Fork.quick) Fork.start Fork.goal links) ∧
      (topologyPaths .default).paths Fork.links .empty Fork.quick Fork.start Fork.goal ≠ [] := by
  have hne : Fork.start ≠ Fork.goal := by decide
  have hmax : 0 < PlannerConfig.default.maxPaths := by decide
  have hstart : (Fork.start, PathCost.zero) ∈ Fork.costs := List.mem_cons_self
  have hsteps : ∀ edge ∈ (graphOf Fork.links .empty Fork.quick).edges, ∀ a ∈ Fork.costs,
      a.1 = edge.link.src.element →
        ∃ b ∈ Fork.costs, b = (edge.link.dst.element, PathCost.add a.2 edge.weight) := by
    decide +kernel
  have hdecisive : (graphOf Fork.links .empty Fork.quick).Decisive Fork.start := by
    refine Graph.decisive_of_listed hstart (fun edge hedge a ha hsrc => ?_) ?_
    · obtain ⟨b, hb, rfl⟩ := hsteps edge hedge a ha hsrc
      exact hb
    · decide +kernel
  have hway : ∀ l ∈ Fork.way, l ∈ candidateLinks Fork.links.links [] ∧
      (Fork.quick l).value?.isSome = true := by decide +kernel
  have hpassage :
      ∃ links, IsPassage (Admitted Fork.links.links [] Fork.quick) Fork.start Fork.goal links := by
    refine ⟨Fork.way, by decide +kernel, fun l hl => ?_, by decide +kernel⟩
    obtain ⟨hcandidate, hweight⟩ := hway l hl
    obtain ⟨w, hw⟩ := Option.isSome_iff_exists.1 hweight
    exact ⟨mem_candidateLinks_iff.1 hcandidate, w, Weight.value?_eq_some_iff.1 hw⟩
  obtain ⟨-, -, hlisted⟩ := paths_ne_nil_iff .default Fork.links .empty
    (Context.ofStores Fork.links Ledger.empty) Fork.constraints hne hmax
  exact ⟨hne, hmax, hdecisive, by decide +kernel, by decide +kernel, hpassage,
    (hlisted hdecisive).2 hpassage⟩

/-! ## Devices in a row -/

namespace Row

def port (device : String) (number : UInt64) : ConnectPoint := ⟨.device ⟨device⟩, number⟩

def one : HostId := ⟨"h1"⟩

def two : HostId := ⟨"h2"⟩

/-- A cable between two ports, a link in each direction, with nothing to spare. -/
def cable (a b : ConnectPoint) : List Link :=
  [(a, b), (b, a)].map fun ends =>
    { Link.between ends.1 ends.2 .direct with annotations := .ofList [("spare", "0")] }

/-- Three devices in a row. -/
def links : LinkTable :=
  (cable (port "s1" 1) (port "s2" 1) ++ cable (port "s2" 2) (port "s3" 1)).foldl
    LinkTable.insert .empty

/-- A host at each end of the row. -/
def hosts : HostDirectory :=
  (HostDirectory.empty.add ((Host.named one ⟨#v[0, 0, 0, 0, 0, 1]⟩).locatedAt (port "s1" 9))).add
    ((Host.named two ⟨#v[0, 0, 0, 0, 0, 2]⟩).locatedAt (port "s3" 9))

/-- The weigher that asks for something to spare, however little. -/
def spare : Weigher :=
  (Context.ofStores links Ledger.empty).weigher [.limit "spare" 0 false]

/-- The way from host to host. -/
def way : List Link :=
  [.between (.ofHost one) (port "s1" 9) .edge] ++ (cable (port "s1" 1) (port "s2" 1)).take 1 ++
    (cable (port "s2" 2) (port "s3" 1)).take 1 ++ [.between (port "s3" 9) (.ofHost two) .edge]

end Row

/-- With nothing to spare on the cables all costs but the first are infinite. The link back from the
third device replaces the one that led to the second, and no way back is found. -/
theorem paths_miss_route :
    IsPassage (Admitted Row.links.links Row.hosts.hosts Row.spare) (.host Row.one) (.host Row.two)
        Row.way ∧
      (topologyPaths .default).paths Row.links Row.hosts Row.spare (.host Row.one)
        (.host Row.two) = [] := by
  have hway : ∀ l ∈ Row.way, l ∈ candidateLinks Row.links.links Row.hosts.hosts ∧
      (Row.spare l).value?.isSome = true := by decide +kernel
  have hnone : ((topologyPaths .default).paths Row.links Row.hosts Row.spare (.host Row.one)
      (.host Row.two)).length = 0 := by decide +kernel
  refine ⟨⟨by decide +kernel, fun l hl => ?_, by decide +kernel⟩,
    List.eq_nil_of_length_eq_zero hnone⟩
  obtain ⟨hcandidate, hweight⟩ := hway l hl
  obtain ⟨w, hw⟩ := Option.isSome_iff_exists.1 hweight
  exact ⟨mem_candidateLinks_iff.1 hcandidate, w, Weight.value?_eq_some_iff.1 hw⟩

end HostRouting
