import HostRouting.Proofs.Binary64.Comparison
import HostRouting.Proofs.Routing.Soundness
import Mathlib.Algebra.BigOperators.Group.List.Lemmas
import Mathlib.Data.List.Count

/-!
# How often routes are read

A graph may have several edges of one link. They stand next to each other and have one weight, so
they are considered one after another and with the same outcome: an element whose cost ties with
itself is reached by a link as many times as the link has edges, and an element with another cost,
such as an infinite one, is reached by it once (`Search.Served.count_arrivalsAt`).

A route is read once for each choice among these (`Search.count_chains`,
`Search.Served.count_allRoutes`).
-/

namespace HostRouting

variable {κ : Type}

/-! ## Reading -/

namespace Search

/-- A route is read once for each choice of its links among those that reached their ends. -/
theorem count_chains {s : Search κ} {src e : ElementId} (hs : s.Consistent) {n : Nat}
    {visited : List ElementId} {route : List Link} (h : route ∈ s.chains src n visited e) :
    (s.chains src n visited e).count route =
      (route.map fun l => (s.arrivalsAt l.dst.element).count l).prod := by
  induction n generalizing visited e route with
  | zero => exact absurd h List.not_mem_nil
  | succ n ih =>
    rw [chains] at h ⊢
    split at h
    next hsrc =>
      rw [if_pos hsrc, List.mem_singleton.1 h]
      rfl
    next hsrc =>
      rw [if_neg hsrc, List.count_flatMap]
      obtain ⟨link, hlink, hroute⟩ := List.mem_flatMap.1 h
      split at hroute
      · exact absurd hroute List.not_mem_nil
      next hnew =>
        obtain ⟨init, hinit, rfl⟩ := List.mem_map.1 hroute
        -- Only what comes in by the last link of the route counts.
        rw [List.sum_map_eq_nsmul_single link]
        · have hchunk := List.count_map_of_injective
            (s.chains src n (link.src.element :: visited) link.src.element) (· ++ [link])
            (List.append_left_injective [link]) init
          rw [Function.comp_apply, if_neg hnew, hchunk, ih hinit, List.map_append,
            List.prod_append, List.map_singleton, List.prod_singleton, hs e link hlink,
            Nat.nsmul_eq_mul, Nat.mul_comm]
        · intro link' hne _
          rw [Function.comp_apply, List.count_eq_zero]
          intro hroute'
          split at hroute'
          · exact List.not_mem_nil hroute'
          · obtain ⟨init', -, heq⟩ := List.mem_map.1 hroute'
            exact hne (List.singleton_inj.1 (List.append_inj_right' heq rfl))

end Search

/-! ## Edges of one link -/

/-- The edges stand in the order of their links, and those of one link are the same. -/
structure Graph.Ordered (g : Graph κ) : Prop where
  increases : Increases Edge.link g.edges
  eq_of_link : ∀ edge ∈ g.edges, ∀ edge' ∈ g.edges, edge.link = edge'.link → edge = edge'

theorem Graph.ordered_ofCandidates (weigh : Link → Option κ) (candidates : List Link) :
    (ofCandidates weigh .none candidates).Ordered where
  increases := increases_sortedOn
  eq_of_link := by
    rintro ⟨l, w⟩ hedge ⟨l', w'⟩ hedge' hlink
    obtain rfl : l = l' := hlink
    have hw : weigh l = some w := (mem_ofCandidates_iff.1 hedge).2
    have hw' : weigh l = some w' := (mem_ofCandidates_iff.1 hedge').2
    rw [Option.some.inj (hw.symm.trans hw')]

/-- A link that a graph has is there as many times as it is a candidate. -/
theorem Graph.count_ofCandidates {weigh : Link → Option κ} {candidates : List Link} {l : Link}
    (hl : l ∈ (ofCandidates weigh .none candidates).edges.map Edge.link) :
    ((ofCandidates weigh .none candidates).edges.map Edge.link).count l =
      candidates.count l := by
  have hweighed : ∀ links : List Link,
      (links.filterMap fun l => (weigh l).map fun w => ({ link := l, weight := w } : Edge κ)).map
        Edge.link = links.filter fun l => (weigh l).isSome := by
    intro links
    rw [List.map_filterMap, ← List.filterMap_eq_filter]
    congr 1
    funext l
    cases hw : weigh l <;> simp [Option.guard, hw]
  obtain ⟨edge, hedge, rfl⟩ := List.mem_map.1 hl
  have hsome : (weigh edge.link).isSome = true := by
    rw [(mem_ofCandidates_iff.1 hedge).2]
    rfl
  have hperm := (perm_sortedOn Edge.link ((candidates.filter Exclusions.none.allows).filterMap
    fun l => (weigh l).map fun w => ({ link := l, weight := w } : Edge κ))).map Edge.link
  have hcount := hperm.count_eq edge.link
  rw [hweighed, List.count_filter (p := fun l => (weigh l).isSome) hsome,
    List.count_filter (Exclusions.allows_none _)] at hcount
  exact hcount

/-- Edges that come after one with the same link come right after it. -/
theorem Graph.Ordered.last_eq {g : Graph κ} (hg : g.Ordered) {src e : ElementId}
    {before after : List (Edge κ)} {edge : Edge κ}
    (h : g.edgesOut src e = before ++ edge :: after) (hmem : edge.link ∈ before.map Edge.link) :
    before.getLast? = some edge := by
  have hin : ∀ edge' ∈ before ++ edge :: after, edge' ∈ g.edges :=
    fun edge' hedge' => (mem_edgesOut_iff.1 (h ▸ hedge')).1
  have hsorted : Increases Edge.link (before ++ edge :: after) := by
    rw [← h]
    unfold edgesOut edgesFrom
    split
    · exact hg.increases.filter _
    · exact List.Pairwise.nil
  rcases List.eq_nil_or_concat before with rfl | ⟨init, last, rfl⟩
  · exact absurd hmem List.not_mem_nil
  rw [List.concat_eq_append] at *
  obtain ⟨hbefore, -, hafter⟩ := List.pairwise_append.1 hsorted
  have hlast : (compare last.link edge.link).isLE = true :=
    hafter last (List.mem_append_right _ List.mem_cons_self) edge List.mem_cons_self
  have hlink : last.link = edge.link := by
    rw [List.map_append, List.mem_append] at hmem
    rcases hmem with hmem | hmem
    · obtain ⟨first, hfirst, heq⟩ := List.mem_map.1 hmem
      have hle := (List.pairwise_append.1 hbefore).2.2 first hfirst last List.mem_cons_self
      rw [heq] at hle
      exact Std.LawfulEqOrd.eq_of_compare (Std.OrientedCmp.isLE_antisymm hlast hle)
    · exact (List.mem_singleton.1 hmem).symm
  rw [List.getLast?_concat]
  exact congrArg some (hg.eq_of_link last (hin _ (by simp)) edge (hin _ (by simp)) hlink)

/-- Every edge of a link that leaves a settled element has been considered. -/
theorem Graph.count_edgesServed {g : Graph κ} {src : ElementId} {settled : List ElementId}
    (hsettled : settled.Nodup) {l : Link} (hl : l.src.element ∈ settled)
    (hleave : MayLeave src l.src.element) :
    ((g.edgesServed src settled).map Edge.link).count l = (g.edges.map Edge.link).count l := by
  have hmem : l.src.element ∈ settled.reverse := List.mem_reverse.2 hl
  have hfrom : ((g.edgesOut src l.src.element).map Edge.link).count l =
      (g.edges.map Edge.link).count l := by
    rw [edgesOut, if_pos hleave, edgesFrom, List.count_eq_countP, List.count_eq_countP,
      List.countP_map, List.countP_map, List.countP_filter]
    refine List.countP_congr fun edge _ => ?_
    simp only [Function.comp_apply, Bool.and_eq_true, beq_iff_eq, decide_eq_true_eq]
    exact ⟨And.left, fun hlink => ⟨hlink, congrArg (·.src.element) hlink⟩⟩
  rw [edgesServed, List.map_flatMap, List.count_flatMap, List.sum_map_eq_nsmul_single l.src.element]
  · rw [List.count_eq_one_of_mem (List.nodup_reverse.2 hsettled) hmem, Nat.nsmul_eq_mul,
      Nat.one_mul]
    exact hfrom
  · intro e hne _
    rw [Function.comp_apply, List.count_eq_zero]
    intro hother
    obtain ⟨edge, hedge, rfl⟩ := List.mem_map.1 hother
    exact hne (mem_edgesOut_iff.1 hedge).2.1.symm

/-! ## Searching -/

/-- Comparisons of a cost with itself: it is not above itself, and a cost with which something ties
ties with itself. -/
class LawfulPathCost (κ : Type) [PathCost κ] : Prop where
  not_exceeds_self : ∀ a : κ, ¬PathCost.exceeds a a = true
  ties_self : ∀ {a b : κ}, PathCost.ties a b = true → PathCost.ties b b = true

instance : LawfulPathCost Binary64 where
  not_exceeds_self := Binary64.not_exceeds_self
  ties_self h := Binary64.ties_self_iff.2 (Binary64.isFinite_of_ties h)

namespace Search

variable [PathCost κ] {g : Graph κ} {src e : ElementId} {s : Search κ} {done : List (Edge κ)}
  {edge : Edge κ} {cost : κ}

/-- The element has a cost that ties with itself. -/
def steady (s : Search κ) (e : ElementId) : Bool :=
  (s.costs.get? e).any fun known => PathCost.ties known known

/-- Elements were reached by each of their links as many times as it was considered, if their cost
ties with itself, and once otherwise. -/
def Counted (done : List (Edge κ)) (s : Search κ) : Prop :=
  ∀ e, ∀ l ∈ s.arrivalsAt e, (s.arrivalsAt e).count l =
    if s.steady e then (done.map Edge.link).count l else 1

omit [PathCost κ] in
theorem count_map_concat {l : Link} :
    ((done ++ [edge]).map Edge.link).count l =
      (done.map Edge.link).count l + if l = edge.link then 1 else 0 := by
  rw [List.map_append, List.count_append, List.map_singleton, List.count_singleton]
  by_cases h : l = edge.link
  · simp [h]
  · simp [h, Ne.symm h]

theorem steady_of_cost {known : κ} (h : s.costs.get? e = some known) :
    s.steady e = PathCost.ties known known := by
  rw [steady, h, Option.any_some]

/-- What is known of the end of an edge that was just considered. This decides how considering it
once more turns out. -/
inductive Answered (cost : κ) (s : Search κ) (edge : Edge κ) : Prop
  /-- The end is nearer: nothing changes. -/
  | nearer {known : κ} (hknown : s.costs.get? edge.link.dst.element = some known)
      (hexceeds : PathCost.exceeds (PathCost.add cost edge.weight) known = true)
      (hnew : edge.link ∉ s.arrivalsAt edge.link.dst.element)
  /-- The end is as near: the link is added again. -/
  | near {known : κ} (hknown : s.costs.get? edge.link.dst.element = some known)
      (hexceeds : ¬PathCost.exceeds (PathCost.add cost edge.weight) known = true)
      (hties : PathCost.ties (PathCost.add cost edge.weight) known = true)
      (hreached : edge.link ∈ s.arrivalsAt edge.link.dst.element)
  /-- The end has the cost of the edge, which does not even tie with itself: the link takes its own
  place. -/
  | unsteady
      (hknown : s.costs.get? edge.link.dst.element = some (PathCost.add cost edge.weight))
      (hties : ¬PathCost.ties (PathCost.add cost edge.weight)
        (PathCost.add cost edge.weight) = true)

/-- The link of an edge is new among the considered ones, or the edge was the last one. -/
def Awaits (cost : κ) (done : List (Edge κ)) (s : Search κ) (edge : Edge κ) : Prop :=
  edge.link ∉ done.map Edge.link ∨ Answered cost s edge

/-- No link has reached its end that was not considered. -/
theorem Sound.not_reached (hsound : Sound g src done s)
    (hnew : edge.link ∉ done.map Edge.link) :
    edge.link ∉ s.arrivalsAt edge.link.dst.element :=
  fun hl => hnew ((hsound.reachedOnce _).subset hl)

variable [LawfulPathCost κ]

theorem answered_relax (hsound : Sound g src done s) (hedge : Awaits cost done s edge) :
    Answered cost (Search.relax cost s edge) edge := by
  have hrelaxed := relaxed cost s edge
  generalize Search.relax cost s edge = s' at hrelaxed
  cases hrelaxed with
  | kept hknown hexceeds =>
    exact hedge.elim (fun hnew => .nearer hknown hexceeds (hsound.not_reached hnew)) id
  | tied hknown hexceeds hties =>
    refine .near hknown hexceeds hties ?_
    rw [arrivalsAt_insert rfl, if_pos rfl]
    exact List.mem_append_right _ List.mem_cons_self
  | replaced _ =>
    have hknown : (s.reroute edge (PathCost.add cost edge.weight)).costs.get?
        edge.link.dst.element = some (PathCost.add cost edge.weight) := by
      rw [reroute, SortedMap.get?_insert, if_pos rfl]
    by_cases hties : PathCost.ties (PathCost.add cost edge.weight)
        (PathCost.add cost edge.weight) = true
    · refine .near hknown (LawfulPathCost.not_exceeds_self _) hties ?_
      rw [arrivalsAt_insert (s := s) rfl, if_pos rfl]
      exact List.mem_cons_self
    · exact .unsteady hknown hties

/-- Considering an edge keeps count of the links by which its end was reached. -/
theorem Counted.at_end (hsound : Sound g src done s) (h : Counted done s)
    (hedge : Awaits cost done s edge) {l : Link}
    (hl : l ∈ (Search.relax cost s edge).arrivalsAt edge.link.dst.element) :
    ((Search.relax cost s edge).arrivalsAt edge.link.dst.element).count l =
      if (Search.relax cost s edge).steady edge.link.dst.element then
        ((done ++ [edge]).map Edge.link).count l else 1 := by
  rw [count_map_concat]
  have hrelaxed := relaxed cost s edge
  generalize Search.relax cost s edge = s' at hrelaxed hl ⊢
  cases hrelaxed with
  | kept hknown hexceeds =>
    have hother (hnew : edge.link ∉ s.arrivalsAt edge.link.dst.element) : l ≠ edge.link :=
      fun heq => hnew (heq ▸ hl)
    rw [h _ l hl]
    rcases hedge with hnew | hanswered
    · rw [if_neg (hother (hsound.not_reached hnew)), Nat.add_zero]
    cases hanswered with
    | nearer _ _ hnew => rw [if_neg (hother hnew), Nat.add_zero]
    | near hknown' hnear _ _ =>
      rw [Option.some.inj (hknown.symm.trans hknown')] at hexceeds
      exact absurd hexceeds hnear
    | unsteady hknown' hties =>
      rw [steady_of_cost hknown', if_neg hties, if_neg hties]
  | @tied known hknown hexceeds hties =>
    have hsteady : s.steady edge.link.dst.element = true := by
      rw [steady_of_cost hknown]
      exact LawfulPathCost.ties_self hties
    -- The link itself was added each time it was considered.
    have hself : (s.arrivalsAt edge.link.dst.element).count edge.link =
        (done.map Edge.link).count edge.link := by
      rcases hedge with hnew | hanswered
      · rw [List.count_eq_zero_of_not_mem hnew,
          List.count_eq_zero_of_not_mem (hsound.not_reached hnew)]
      cases hanswered with
      | nearer hknown' hnear _ =>
        rw [Option.some.inj (hknown'.symm.trans hknown)] at hnear
        exact absurd hnear hexceeds
      | near _ _ _ hreached => rw [h _ _ hreached, if_pos hsteady]
      | unsteady hknown' hties' =>
        rw [← Option.some.inj (hknown'.symm.trans hknown)] at hties
        exact absurd hties hties'
    rw [arrivalsAt_insert (s := s) rfl, if_pos rfl] at hl ⊢
    show _ = if s.steady edge.link.dst.element then _ else _
    rw [if_pos hsteady, List.count_append]
    by_cases hlink : l = edge.link
    · rw [hlink, hself, if_pos rfl, List.count_singleton_self]
    · have hlast : l ∉ [edge.link] := fun hmem => hlink (List.mem_singleton.1 hmem)
      rw [h _ l ((List.mem_append.1 hl).resolve_right hlast), if_pos hsteady, if_neg hlink,
        List.count_eq_zero_of_not_mem hlast]
  | replaced hknown =>
    have hcost : (s.reroute edge (PathCost.add cost edge.weight)).costs.get?
        edge.link.dst.element = some (PathCost.add cost edge.weight) := by
      rw [reroute, SortedMap.get?_insert, if_pos rfl]
    rw [arrivalsAt_insert (s := s) rfl, if_pos rfl] at hl ⊢
    obtain rfl := List.mem_singleton.1 hl
    rw [steady_of_cost hcost, List.count_singleton_self, if_pos rfl]
    split
    next hties =>
      -- A link that was considered before would not have been replaced.
      have hnew : edge.link ∉ done.map Edge.link := by
        refine hedge.resolve_right fun hanswered => ?_
        cases hanswered with
        | nearer hknown' hexceeds _ => exact (hknown _ hknown').1 hexceeds
        | near hknown' _ hties' _ => exact (hknown _ hknown').2 hties'
        | unsteady _ hties' => exact hties' hties
      rw [List.count_eq_zero_of_not_mem hnew]
    next => rfl

theorem Counted.relax (hsound : Sound g src done s) (h : Counted done s)
    (hedge : Awaits cost done s edge) :
    Counted (done ++ [edge]) (Search.relax cost s edge) := by
  intro e l hl
  by_cases he : e = edge.link.dst.element
  · subst he
    exact h.at_end hsound hedge hl
  · obtain ⟨hcosts, harrivals⟩ := relax_frame cost s edge he
    rw [harrivals] at hl ⊢
    have hlink : l ≠ edge.link := by
      rintro rfl
      exact he (hsound.reached e _ hl).1.symm
    rw [h e l hl, count_map_concat, if_neg hlink, steady, steady, hcosts, Nat.add_zero]

theorem Counted.settle (hg : g.Ordered) {entry : ElementId × κ} {rest : List (ElementId × κ)}
    (hsound : Sound g src (g.edgesServed src s.settled) s)
    (h : Counted (g.edgesServed src s.settled) s) (htakes : s.Takes entry rest) :
    Counted (g.edgesServed src (entry.1 :: s.settled))
      (Search.settle g src { s with frontier := rest } entry) := by
  have hcost := (hsound.waiting entry htakes.mem).2
  rw [settle_eq, Graph.edgesServed_cons]
  let P (before : List (Edge κ)) (s' : Search κ) : Prop :=
    Sound g src (g.edgesServed src s.settled ++ before) s' ∧
      Counted (g.edgesServed src s.settled ++ before) s' ∧
        ∀ last, before.getLast? = some last → Answered entry.2 s' last
  refine (foldl_relax_prefixes (P := P) ?_ ⟨?_, ?_, fun _ hlast => nomatch hlast⟩).2.1
  · rintro before edge after s' heq ⟨hsound', hcounted, hlast⟩
    obtain ⟨hedge, hsrc, hleave⟩ :=
      Graph.mem_edgesOut_iff.1 (heq ▸ List.mem_append_right before List.mem_cons_self)
    have hawaits : Awaits entry.2 (g.edgesServed src s.settled ++ before) s' edge := by
      by_cases hbefore : edge.link ∈ before.map Edge.link
      · exact .inr (hlast edge (hg.last_eq heq hbefore))
      · -- Edges that were considered earlier leave other elements.
        refine .inl fun hmem => ?_
        rw [List.map_append, List.mem_append] at hmem
        obtain ⟨edge', hedge', hlink⟩ := List.mem_map.1 (hmem.resolve_right hbefore)
        have hsettled := (Graph.mem_edgesServed_iff.1 hedge').2.1
        rw [hlink, hsrc] at hsettled
        exact htakes.new hsettled
    dsimp only [P]
    rw [← List.append_assoc]
    refine ⟨hsound'.relax (hsrc ▸ hcost) (hsrc ▸ hleave) hedge, hcounted.relax hsound' hawaits,
      fun last hl => ?_⟩
    rw [List.getLast?_concat] at hl
    exact Option.some.inj hl ▸ answered_relax hsound' hawaits
  · rw [List.append_nil]
    exact hsound.serve htakes
  · rw [List.append_nil]
    exact h

namespace Served

theorem counted (hg : g.Ordered) (h : Served g src s) :
    Counted (g.edgesServed src s.settled) s := by
  induction h with
  | start => exact fun e l hl => absurd hl List.not_mem_nil
  | drop _ _ _ ih => exact ih
  | serve h htakes ih =>
    have hsettled := ih.settle hg h.sound htakes
    rwa [settled_settle]

/-- At every moment an element whose cost ties with itself was reached by each of its links as many
times as the graph has it, and any other element once. -/
theorem count_arrivalsAt (hg : g.Ordered) (h : Served g src s) {l : Link}
    (hl : l ∈ s.arrivalsAt e) :
    (s.arrivalsAt e).count l = if s.steady e then (g.edges.map Edge.link).count l else 1 := by
  obtain ⟨edge, hedge, rfl⟩ := List.mem_map.1 ((h.sound.reachedOnce e).subset hl)
  obtain ⟨-, hsettled, hleave⟩ := Graph.mem_edgesServed_iff.1 hedge
  rw [h.counted hg e _ hl, Graph.count_edgesServed h.sound.settledOnce hsettled hleave]

/-- At every moment a route is read as many times as the graph has its links, where these lead to
elements whose cost ties with itself. -/
theorem count_allRoutes (hg : g.Ordered) (h : Served g src s) {dst : ElementId}
    {route : List Link} (hroute : route ∈ g.allRoutes s src dst) :
    (g.allRoutes s src dst).count route = (route.map fun l =>
      if s.steady l.dst.element then (g.edges.map Edge.link).count l else 1).prod := by
  have harrives := (h.mem_allRoutes_iff.1 hroute).2.1
  rw [Graph.allRoutes, count_chains h.consistent hroute]
  congr 1
  exact List.map_congr_left fun l hl => h.count_arrivalsAt hg (harrives l hl)

end Served

end Search

end HostRouting
