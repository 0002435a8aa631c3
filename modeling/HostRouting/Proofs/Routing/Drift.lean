import HostRouting.Proofs.Routing.Arrivals
import HostRouting.Proofs.Routing.Exactness

/-!
# How far costs drift

A cost is kept while another one is smaller by no more than the tolerance, and links whose costs
differ by no more than the tolerance count as equally cheap. So costs and lengths drift apart, by at
most the tolerance at each link (`Search.Near`):

1. the rank of an element is at most the tolerance above that to which an edge leads, and a link by
   which an element was reached leads to its rank up to the tolerance (`Search.Near.relax`);
2. so along a walk the rank grows by at most the total length and the tolerance for each link, and
   over links by which elements were reached also by no less (`Graph.Tolerant.rankAt_walk`,
   `Graph.Tolerant.total_near`);
3. the rank is the length of a walk, so no route is shorter (`Graph.Tolerant.exists_route`).

Main fact: `Graph.Tolerant.drift`.
-/

namespace HostRouting

variable {κ : Type} [PathCost κ] {g : Graph κ} {src dst e : ElementId} {rank : κ → Nat}
  {tolerance : Nat} {length : Link → Nat} {permitted : Link → Prop} {links route : List Link}

/-- Two numbers differ by no more than a third one. -/
def Within (bound a b : Nat) : Prop := a ≤ b + bound ∧ b ≤ a + bound

instance (bound a b : Nat) : Decidable (Within bound a b) := inferInstanceAs (Decidable (_ ∧ _))

/-- Ranks count the lengths of links. A cost that exceeds another one is not the smaller, and costs
that tie differ by no more than the tolerance. -/
structure Graph.Tolerant (g : Graph κ) (src : ElementId) (rank : κ → Nat) (tolerance : Nat)
    (length : Link → Nat) : Prop extends Graph.Ranked g src rank where
  zero : rank PathCost.zero = 0
  add : ∀ {cost edge}, g.Arrives src edge.link.src.element cost → edge ∈ g.edges →
    rank (PathCost.add cost edge.weight) = rank cost + length edge.link
  kept : ∀ {e cost known}, g.Arrives src e cost → g.Arrives src e known →
    PathCost.exceeds cost known = true → rank known ≤ rank cost
  tied : ∀ {e cost known}, g.Arrives src e cost → g.Arrives src e known →
    PathCost.ties cost known = true → Within tolerance (rank cost) (rank known)

namespace Search

/-! ## Edges that have been considered -/

/-- No considered edge leads to an element at less than its rank by more than the tolerance, and the
links by which an element was reached lead to its rank up to the tolerance. -/
structure Near (src : ElementId) (rank : κ → Nat) (tolerance : Nat) (length : Link → Nat)
    (done : List (Edge κ)) (s : Search κ) : Prop where
  source : s.rankAt rank src = 0
  served : ∀ edge ∈ done, edge.link.src.element ∈ s.settled
  closed : ∀ edge ∈ done, s.rankAt rank edge.link.dst.element ≤
    s.rankAt rank edge.link.src.element + length edge.link + tolerance
  arrivals : ∀ e, ∀ l ∈ s.arrivalsAt e, l.src.element ∈ s.settled ∧
    Within tolerance (s.rankAt rank l.src.element + length l) (s.rankAt rank e)

variable {s : Search κ} {done : List (Edge κ)}

theorem near_start (h : g.Tolerant src rank tolerance length) :
    Near src rank tolerance length [] (start (κ := κ) src) where
  source := by simp [start, rankAt, h.zero]
  served _ hedge := absurd hedge List.not_mem_nil
  closed _ hedge := absurd hedge List.not_mem_nil
  arrivals _ _ hl := absurd hl List.not_mem_nil

omit [PathCost κ] in
theorem Near.serve {entry : ElementId × κ} (h : Near src rank tolerance length done s)
    (rest : List (ElementId × κ)) : Near src rank tolerance length done
      { s with settled := entry.1 :: s.settled, frontier := rest } where
  source := h.source
  served edge hedge := List.mem_cons_of_mem _ (h.served edge hedge)
  closed := h.closed
  arrivals e l hl := ⟨List.mem_cons_of_mem _ (h.arrivals e l hl).1, (h.arrivals e l hl).2⟩

/-- What considering an edge does to the rank of its end and to the links by which the end was
reached: they stay, the edge is added when its cost ties, or it takes their place and the rank does
not grow. -/
theorem near_relax {cost : κ} {edge : Edge κ} (h : g.Tolerant src rank tolerance length)
    (hserving : Serving g src rank edge.link.src.element cost done s) (hedge : edge ∈ g.edges)
    (hleave : MayLeave src edge.link.src.element) :
    let s' := relax cost s edge
    let next := edge.link.dst.element
    let r := rank (PathCost.add cost edge.weight)
    s'.rankAt rank next ≤ r + tolerance ∧
      ((s.costs.get? next).isSome → s'.rankAt rank next ≤ s.rankAt rank next) ∧
      ((s'.rankAt rank next = s.rankAt rank next ∧ s'.arrivalsAt next = s.arrivalsAt next) ∨
        (s'.rankAt rank next = s.rankAt rank next ∧ Within tolerance r (s.rankAt rank next) ∧
          s'.arrivalsAt next = s.arrivalsAt next ++ [edge.link]) ∨
        (s'.rankAt rank next = r ∧ s'.arrivalsAt next = [edge.link])) := by
  have hnext := hserving.arrives.step hleave hedge
  dsimp only
  have hrelaxed := relaxed cost s edge
  generalize relax cost s edge = s' at hrelaxed ⊢
  cases hrelaxed with
  | kept hknown hexceeds =>
    have hle := h.kept hnext (hserving.sound.arrives hknown) hexceeds
    refine ⟨?_, fun _ => Nat.le_refl _, .inl ⟨rfl, rfl⟩⟩
    rw [rankAt_of_cost hknown]
    omega
  | tied hknown _ hties =>
    have hwithin := h.tied hnext (hserving.sound.arrives hknown) hties
    have hat : s.rankAt rank edge.link.dst.element = rank _ := rankAt_of_cost hknown
    rw [← hat] at hwithin
    refine ⟨hwithin.2, fun _ => Nat.le_refl _, .inr (.inl ⟨rfl, hwithin, ?_⟩)⟩
    rw [arrivalsAt_insert rfl, if_pos rfl]
  | replaced hknown =>
    have hat : (s.reroute edge (PathCost.add cost edge.weight)).rankAt rank
        edge.link.dst.element = rank (PathCost.add cost edge.weight) := by
      rw [rankAt_insert (s := s) rfl, if_pos rfl]
    refine ⟨?_, fun hsome => ?_, .inr (.inr ⟨hat, ?_⟩)⟩
    · rw [hat]
      exact Nat.le_add_right _ _
    · obtain ⟨known, hcost⟩ := Option.isSome_iff_exists.1 hsome
      rw [hat, rankAt_of_cost hcost]
      exact h.replaces hnext (hserving.sound.arrives hcost) (hknown known hcost).1
        (hknown known hcost).2
    · rw [arrivalsAt_insert (s := s) rfl, if_pos rfl]

theorem Near.relax {cost : κ} {edge : Edge κ} (htolerant : g.Tolerant src rank tolerance length)
    (hserving : Serving g src rank e cost done s) (hedge : edge ∈ g.edgesOut src e)
    (h : Near src rank tolerance length done s) :
    Near src rank tolerance length (done ++ [edge]) (Search.relax cost s edge) := by
  obtain ⟨hmem, rfl, hleave⟩ := Graph.mem_edgesOut_iff.1 hedge
  have hkeep := (hserving.relax htolerant.toRanked hedge).2
  have hother {e : ElementId} (he : e ≠ edge.link.dst.element) :=
    rank_relax_frame rank cost s edge he
  obtain ⟨hle, hold, hcases⟩ := near_relax htolerant hserving hmem hleave
  rw [htolerant.add hserving.arrives hmem, ← hserving.rankAt_eq] at hle hcases
  have hsettled := settled_relax cost s edge
  have hsound := hserving.sound
  generalize Search.relax cost s edge = s' at *
  have hfrom := hkeep _ hserving.mem
  have hdrop {e : ElementId} (he : (s.costs.get? e).isSome) :
      s'.rankAt rank e ≤ s.rankAt rank e := by
    by_cases hto : e = edge.link.dst.element
    · rw [hto]
      exact hold (hto ▸ he)
    · exact Nat.le_of_eq (hother hto).1
  constructor
  case source =>
    have hzero := hdrop hsound.source
    rw [h.source] at hzero
    exact Nat.le_zero.1 hzero
  case served =>
    intro edge' hedge'
    rw [hsettled]
    rcases List.mem_append.1 hedge' with hedge' | hedge'
    · exact h.served edge' hedge'
    · rw [List.mem_singleton.1 hedge']
      exact hserving.mem
  case closed =>
    intro edge' hedge'
    rcases List.mem_append.1 hedge' with hedge' | hedge'
    · rw [hkeep _ (h.served edge' hedge')]
      exact Nat.le_trans (hdrop (hsound.doneKnown edge' hedge')) (h.closed edge' hedge')
    · rw [List.mem_singleton.1 hedge', hfrom]
      exact hle
  case arrivals =>
    -- Links that stay come from settled elements, whose ranks are kept.
    have hstay : ∀ e, s'.rankAt rank e = s.rankAt rank e → ∀ l ∈ s.arrivalsAt e,
        l.src.element ∈ s'.settled ∧
          Within tolerance (s'.rankAt rank l.src.element + length l) (s'.rankAt rank e) := by
      intro e he l hl
      obtain ⟨hmem, hwithin⟩ := h.arrivals e l hl
      rw [hsettled, hkeep _ hmem, he]
      exact ⟨hmem, hwithin⟩
    intro e l hl
    by_cases hto : e = edge.link.dst.element
    · subst hto
      rcases hcases with ⟨hrank, hlinks⟩ | ⟨hrank, hwithin, hlinks⟩ | ⟨hrank, hlinks⟩
      · rw [hlinks] at hl
        exact hstay _ hrank l hl
      · rw [hlinks] at hl
        rcases List.mem_append.1 hl with hl | hl
        · exact hstay _ hrank l hl
        · rw [List.mem_singleton.1 hl, hsettled, hfrom, hrank]
          exact ⟨hserving.mem, hwithin⟩
      · rw [hlinks] at hl
        rw [List.mem_singleton.1 hl, hsettled, hfrom, hrank]
        exact ⟨hserving.mem, Nat.le_add_right _ _, Nat.le_add_right _ _⟩
    · obtain ⟨hrank, hlinks⟩ := hother hto
      rw [hlinks] at hl
      exact hstay e hrank l hl

end Search

/-! ## Routes -/

/-- Where there is a route, there is a cheapest one. -/
theorem IsRoute.exists_cheapest (h : IsRoute permitted src dst route) (length : Link → Nat) :
    ∃ best, IsCheapest permitted length src dst best := by
  induction hn : total length route using Nat.strongRecOn generalizing route with
  | _ n ih =>
    by_cases hless : ∃ other, IsRoute permitted src dst other ∧ total length other < n
    · obtain ⟨other, hother, hlt⟩ := hless
      exact ih _ hlt hother rfl
    · refine ⟨route, h, fun other hother => ?_⟩
      rw [hn]
      exact Nat.le_of_not_lt fun hlt => hless ⟨other, hother, hlt⟩

/-- A cost and routes are as good as the tolerance allows: the cost is at least the least total and
at most the tolerance for each link of a cheapest route above it, and so near is the total of each
of the routes to the cost. -/
structure Drifts (permitted : Link → Prop) (length : Link → Nat) (tolerance : Nat)
    (src dst : ElementId) (cost : Nat) (routes : List (List Link)) : Prop where
  reachable : ∃ best, IsCheapest permitted length src dst best
  cheapest : ∀ best, IsCheapest permitted length src dst best →
    total length best ≤ cost ∧ cost ≤ total length best + best.length * tolerance
  routes : ∀ route ∈ routes, IsRoute permitted src dst route ∧
    Within (route.length * tolerance) (total length route) cost

theorem Drifts.mono {cost : Nat} {routes routes' : List (List Link)}
    (h : Drifts permitted length tolerance src dst cost routes)
    (hsub : ∀ route ∈ routes', route ∈ routes) :
    Drifts permitted length tolerance src dst cost routes' :=
  { h with routes := fun route hroute => h.routes route (hsub route hroute) }

namespace Graph.Tolerant

theorem near (h : g.Tolerant src rank tolerance length) :
    Search.Near src rank tolerance length (g.edgesServed src (g.search src).settled)
      (g.search src) :=
  search_induction h.toRanked (Search.near_start h) (fun _ _ _ hnear => { hnear with })
    (fun _ _ _ rest _ _ hnear => hnear.serve rest)
    fun _ _ _ _ _ hserving hedge hnear => hnear.relax h hserving hedge

theorem rankAt_walk (h : g.Tolerant src rank tolerance length) (hwalk : IsWalk e links dst)
    (hlinks : ∀ l ∈ links, l ∈ g.edges.map Edge.link ∧ MayLeave src l.src.element)
    (he : ((g.search src).costs.get? e).isSome) :
    (g.search src).rankAt rank dst ≤
      (g.search src).rankAt rank e + total length links + links.length * tolerance := by
  induction links generalizing e with
  | nil =>
    obtain rfl : e = dst := hwalk
    exact Nat.le_trans (Nat.le_add_right _ _) (Nat.le_add_right _ _)
  | cons l links ih =>
    obtain ⟨rfl, hwalk⟩ := hwalk
    obtain ⟨hl, hleave⟩ := hlinks l List.mem_cons_self
    obtain ⟨edge, hedge, rfl⟩ := List.mem_map.1 hl
    have hserved := mem_edgesServed_search_iff.2 ⟨hedge, hleave, he⟩
    have hnext := (g.served_search src).sound.doneKnown edge hserved
    have hrest := ih hwalk (fun l hl => hlinks l (List.mem_cons_of_mem _ hl)) hnext
    have hstep := h.near.closed edge hserved
    rw [total, List.length_cons, Nat.succ_mul]
    omega

/-- A walk over links by which elements were reached is as long as the ranks differ, up to the
tolerance for each link. -/
theorem total_near (h : g.Tolerant src rank tolerance length) (hwalk : IsWalk e links dst)
    (hlinks : ∀ l ∈ links, l ∈ (g.search src).arrivalsAt l.dst.element) :
    Within (links.length * tolerance) ((g.search src).rankAt rank e + total length links)
      ((g.search src).rankAt rank dst) := by
  induction links generalizing e with
  | nil =>
    obtain rfl : e = dst := hwalk
    exact ⟨Nat.le_add_right _ _, Nat.le_add_right _ _⟩
  | cons l links ih =>
    obtain ⟨rfl, hwalk⟩ := hwalk
    obtain ⟨hl, hrest⟩ := List.forall_mem_cons.1 hlinks
    obtain ⟨habove, hbelow⟩ := ih hwalk hrest
    obtain ⟨-, hstep, hstep'⟩ := h.near.arrivals _ l hl
    unfold Within
    rw [total, List.length_cons, Nat.succ_mul]
    omega

/-- Some route is no longer than the rank of its end. -/
theorem exists_route (h : g.Tolerant src rank tolerance length) {cost : κ}
    (hcost : g.Arrives src dst cost) :
    ∃ route, IsRoute (· ∈ g.edges.map Edge.link) src dst route ∧
      total length route ≤ rank cost := by
  obtain ⟨links, hpassage, hle⟩ := hcost.exists_passage
    (P := fun links cost => total length links ≤ rank cost) (fun _ => Nat.zero_le _)
    (fun {links cost edge} harrives hedge hle => by
      rw [h.add harrives hedge, total_append]
      exact Nat.add_le_add_right hle _)
  obtain ⟨route, hsub, hroute⟩ := hpassage.exists_route
  exact ⟨route, hroute, Nat.le_trans (total_le_of_sublist hsub) hle⟩

/-- The cost that the search gives and the routes that are read backwards drift by no more than the
tolerance at each link. -/
theorem drift (h : g.Tolerant src rank tolerance length) {cost : κ}
    (hcost : (g.search src).costs.get? dst = some cost) :
    Drifts (· ∈ g.edges.map Edge.link) length tolerance src dst (rank cost)
      (g.allRoutes (g.search src) src dst) := by
  have hserved := g.served_search src
  have hat : (g.search src).rankAt rank dst = rank cost := Search.rankAt_of_cost hcost
  obtain ⟨short, hshort, hle⟩ := h.exists_route (hserved.sound.arrives hcost)
  refine ⟨hshort.exists_cheapest length, fun best hbest => ⟨?_, ?_⟩, fun route hroute => ?_⟩
  · exact Nat.le_trans (hbest.least short hshort) hle
  · have hwalk := h.rankAt_walk hbest.walk
      (fun l hl => ⟨hbest.permits l hl, hbest.mayLeave l hl⟩) hserved.sound.source
    rwa [h.near.source, Nat.zero_add, hat] at hwalk
  · obtain ⟨hwalk, harrives, -⟩ := hserved.mem_allRoutes_iff.1 hroute
    have hnear := h.total_near hwalk harrives
    rw [h.near.source, Nat.zero_add, hat] at hnear
    exact ⟨hserved.isRoute hroute, hnear⟩

end Graph.Tolerant

end HostRouting
