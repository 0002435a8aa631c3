import HostRouting.Proofs.Routing.Settling

/-!
# The links by which elements are reached

Where ranks below a limit decide how costs compare, the rank of an element is the least to which an
edge considered so far leads, and below the limit the element was reached by exactly those links
that lead to it at its rank (`Search.Tight`). Each is noted once, whatever the costs are like
(`Graph.nodup_arrivalsAt`).

At the end of the search this holds of all edges that routes may use
(`Graph.Exact.mem_arrivalsAt_iff`, `Graph.Exact.rankAt_le`).
-/

namespace HostRouting

variable {κ : Type} [PathCost κ] {g : Graph κ} {src e : ElementId} {rank : κ → Nat}
  {limit : Nat} {length : Link → Nat}

/-- Ranks count the lengths of links up to a limit, and below it they decide how costs compare. -/
structure Graph.Exact (g : Graph κ) (src : ElementId) (rank : κ → Nat) (limit : Nat)
    (length : Link → Nat) : Prop extends Graph.Ranked g src rank where
  zero : rank PathCost.zero = 0
  add : ∀ {cost edge}, g.Arrives src edge.link.src.element cost → edge ∈ g.edges →
    rank (PathCost.add cost edge.weight) = min (rank cost + length edge.link) limit
  exceeds_iff : ∀ {e cost known}, g.Arrives src e cost → g.Arrives src e known →
    rank cost < limit ∨ rank known < limit →
    (PathCost.exceeds cost known = true ↔ rank known < rank cost)
  ties_iff : ∀ {e cost known}, g.Arrives src e cost → g.Arrives src e known →
    rank cost < limit ∨ rank known < limit →
    (PathCost.ties cost known = true ↔ rank cost = rank known)

theorem Graph.Exact.le_limit (hexact : g.Exact src rank limit length) {cost : κ}
    (h : g.Arrives src e cost) : rank cost ≤ limit := by
  cases h with
  | start =>
    rw [hexact.zero]
    exact Nat.zero_le _
  | step hcost _ hedge =>
    rw [hexact.add hcost hedge]
    exact Nat.min_le_right _ _

namespace Search

/-! ## Edges that have been considered -/

/-- No considered edge leads to an element at less than its rank, and below the limit those that
lead to it at its rank are the ones by which it was reached. -/
structure Tight (src : ElementId) (rank : κ → Nat) (limit : Nat) (length : Link → Nat)
    (done : List (Edge κ)) (s : Search κ) : Prop where
  source : s.rankAt rank src = 0
  served : ∀ edge ∈ done, edge.link.src.element ∈ s.settled
  closed : ∀ edge ∈ done, s.rankAt rank edge.link.dst.element ≤
    min (s.rankAt rank edge.link.src.element + length edge.link) limit
  arrivals : ∀ e, s.rankAt rank e < limit → ∀ l, l ∈ s.arrivalsAt e ↔
    l ∈ done.map Edge.link ∧ l.dst.element = e ∧
      s.rankAt rank l.src.element + length l = s.rankAt rank e

variable {s : Search κ} {done : List (Edge κ)}

theorem tight_start (hexact : g.Exact src rank limit length) :
    Tight src rank limit length [] (start (κ := κ) src) where
  source := by simp [start, rankAt, hexact.zero]
  served _ h := absurd h List.not_mem_nil
  closed _ h := absurd h List.not_mem_nil
  arrivals e _ l := by simp [start, arrivalsAt]

omit [PathCost κ] in
theorem Tight.serve {entry : ElementId × κ} (h : Tight src rank limit length done s)
    (rest : List (ElementId × κ)) : Tight src rank limit length done
      { s with settled := entry.1 :: s.settled, frontier := rest } :=
  { h with served := fun edge hedge => List.mem_cons_of_mem _ (h.served edge hedge) }

/-- Considering an edge keeps the rank of other elements than its end and how they were reached. -/
theorem rank_relax_frame (rank : κ → Nat) (cost : κ) (s : Search κ) (edge : Edge κ)
    (he : e ≠ edge.link.dst.element) : (relax cost s edge).rankAt rank e = s.rankAt rank e ∧
      (relax cost s edge).arrivalsAt e = s.arrivalsAt e := by
  obtain ⟨hcosts, harrivals⟩ := relax_frame cost s edge he
  exact ⟨by rw [rankAt, hcosts, rankAt], harrivals⟩

/-- What considering an edge does to the rank of its end and, while that is below the limit, to the
links by which the end was reached: they stay when it is nearer, the edge is added when it is as
near, and takes their place when it was further away or had no cost. -/
theorem rankAt_relax {cost : κ} {edge : Edge κ} (hexact : g.Exact src rank limit length)
    (hserving : Serving g src rank edge.link.src.element cost done s) (hedge : edge ∈ g.edges)
    (hleave : MayLeave src edge.link.src.element) :
    let s' := relax cost s edge
    let next := edge.link.dst.element
    let r := rank (PathCost.add cost edge.weight)
    s'.rankAt rank next ≤ r ∧
      ((s.costs.get? next).isSome → s'.rankAt rank next ≤ s.rankAt rank next) ∧
      (s'.rankAt rank next < limit →
        (s'.rankAt rank next < r ∧ s'.rankAt rank next = s.rankAt rank next ∧
            s'.arrivalsAt next = s.arrivalsAt next) ∨
          (s'.rankAt rank next = r ∧ s'.rankAt rank next = s.rankAt rank next ∧
            s'.arrivalsAt next = s.arrivalsAt next ++ [edge.link]) ∨
          (s'.rankAt rank next = r ∧
            ((s.costs.get? next).isSome → s'.rankAt rank next < s.rankAt rank next) ∧
            s'.arrivalsAt next = [edge.link])) := by
  have hnext := hserving.arrives.step hleave hedge
  have hlimit := hexact.le_limit hnext
  dsimp only
  have hrelaxed := relaxed cost s edge
  generalize relax cost s edge = s' at hrelaxed ⊢
  cases hrelaxed with
  | kept hknown hexceeds =>
    have harrives := hserving.sound.arrives hknown
    have hle := hexact.le_limit harrives
    have hcompare := hexact.exceeds_iff hnext harrives
    rw [rankAt_of_cost hknown]
    refine ⟨?_, fun _ => Nat.le_refl _, fun hlt => .inl ⟨?_, rfl, rfl⟩⟩
    · by_cases hlt : rank (PathCost.add cost edge.weight) < limit
      · exact Nat.le_of_lt ((hcompare (.inl hlt)).1 hexceeds)
      · omega
    · exact (hcompare (.inr hlt)).1 hexceeds
  | tied hknown _ hties =>
    have harrives := hserving.sound.arrives hknown
    have hle := hexact.le_limit harrives
    have hcompare := hexact.ties_iff hnext harrives
    have hat : s.rankAt rank edge.link.dst.element = rank _ := rankAt_of_cost hknown
    refine ⟨?_, fun _ => Nat.le_refl _, fun hlt => .inr (.inl ⟨?_, rfl, ?_⟩)⟩
    · show s.rankAt rank edge.link.dst.element ≤ _
      rw [hat]
      by_cases hlt : rank (PathCost.add cost edge.weight) < limit
      · exact Nat.le_of_eq ((hcompare (.inl hlt)).1 hties).symm
      · omega
    · change s.rankAt rank edge.link.dst.element < limit at hlt
      rw [hat] at hlt
      exact hat.trans ((hcompare (.inr hlt)).1 hties).symm
    · rw [arrivalsAt_insert rfl, if_pos rfl]
  | replaced hknown =>
    have hat : (s.reroute edge (PathCost.add cost edge.weight)).rankAt rank
        edge.link.dst.element = rank (PathCost.add cost edge.weight) := by
      rw [rankAt_insert (s := s) rfl, if_pos rfl]
    refine ⟨Nat.le_of_eq hat, fun hsome => ?_,
      fun hlt => .inr (.inr ⟨hat, fun hsome => ?_, ?_⟩)⟩
    · obtain ⟨known, hcost⟩ := Option.isSome_iff_exists.1 hsome
      rw [hat, rankAt_of_cost hcost]
      exact hexact.replaces hnext (hserving.sound.arrives hcost) (hknown known hcost).1
        (hknown known hcost).2
    · obtain ⟨known, hcost⟩ := Option.isSome_iff_exists.1 hsome
      rw [hat] at hlt
      rw [hat, rankAt_of_cost hcost]
      have harrives := hserving.sound.arrives hcost
      have hexceeds := (hexact.exceeds_iff hnext harrives (.inl hlt)).not.1 (hknown known hcost).1
      have hties := (hexact.ties_iff hnext harrives (.inl hlt)).not.1 (hknown known hcost).2
      omega
    · rw [arrivalsAt_insert (s := s) rfl, if_pos rfl]

theorem Tight.relax {cost : κ} {edge : Edge κ} (hexact : g.Exact src rank limit length)
    (hserving : Serving g src rank e cost done s) (hedge : edge ∈ g.edgesOut src e)
    (h : Tight src rank limit length done s) :
    Tight src rank limit length (done ++ [edge]) (Search.relax cost s edge) := by
  obtain ⟨hmem, rfl, hleave⟩ := Graph.mem_edgesOut_iff.1 hedge
  have hkeep := (hserving.relax hexact.toRanked hedge).2
  have hother {e : ElementId} (he : e ≠ edge.link.dst.element) :=
    rank_relax_frame rank cost s edge he
  obtain ⟨hle, hold, hbelow⟩ := rankAt_relax hexact hserving hmem hleave
  rw [hexact.add hserving.arrives hmem, ← hserving.rankAt_eq] at hle hbelow
  have hsettled := settled_relax cost s edge
  have hsound := hserving.sound
  generalize Search.relax cost s edge = s' at *
  have hfrom := hkeep _ hserving.mem
  have hdone : ∀ l ∈ done.map Edge.link, s'.rankAt rank l.src.element =
      s.rankAt rank l.src.element := by
    intro l hl
    obtain ⟨edge', hedge', rfl⟩ := List.mem_map.1 hl
    exact hkeep _ (h.served edge' hedge')
  have hdrop {e : ElementId} (he : (s.costs.get? e).isSome) :
      s'.rankAt rank e ≤ s.rankAt rank e := by
    by_cases hto : e = edge.link.dst.element
    · rw [hto]
      exact hold (hto ▸ he)
    · exact Nat.le_of_eq (hother hto).1
  constructor
  case source =>
    have hzero := hdrop hsound.source
    rw [h.source] at hzero
    exact Nat.le_zero.1 hzero
  case served =>
    intro edge' hedge'
    rw [hsettled]
    rcases List.mem_append.1 hedge' with hedge' | hedge'
    · exact h.served edge' hedge'
    · rw [List.mem_singleton.1 hedge']
      exact hserving.mem
  case closed =>
    intro edge' hedge'
    rcases List.mem_append.1 hedge' with hedge' | hedge'
    · rw [hkeep _ (h.served edge' hedge')]
      exact Nat.le_trans (hdrop (hsound.doneKnown edge' hedge')) (h.closed edge' hedge')
    · rw [List.mem_singleton.1 hedge', hfrom]
      exact hle
  case arrivals =>
    intro e he l
    rw [List.map_append, List.map_singleton, List.mem_append, List.mem_singleton]
    -- The links at the rank of the end come from before, or it is the link of the edge.
    have hsplit : ((l ∈ done.map Edge.link ∨ l = edge.link) ∧ l.dst.element = e ∧
        s'.rankAt rank l.src.element + length l = s'.rankAt rank e) ↔
        (l ∈ done.map Edge.link ∧ l.dst.element = e ∧
            s.rankAt rank l.src.element + length l = s'.rankAt rank e) ∨
          (l = edge.link ∧ edge.link.dst.element = e ∧
            s.rankAt rank edge.link.src.element + length edge.link = s'.rankAt rank e) := by
      grind
    rw [hsplit]
    by_cases hto : e = edge.link.dst.element
    · subst hto
      rcases hbelow he with ⟨hlt, hrank, hlinks⟩ | ⟨heq, hrank, hlinks⟩ | ⟨heq, hlt, hlinks⟩
      · rw [hrank] at he hlt
        rw [hlinks, hrank, h.arrivals _ he l]
        refine ⟨.inl, fun hl => hl.resolve_right fun hto => ?_⟩
        obtain ⟨-, -, hat⟩ := hto
        omega
      · rw [hrank] at he heq
        rw [hlinks, hrank, List.mem_append, List.mem_singleton, h.arrivals _ he l]
        exact or_congr_right ⟨fun hl => ⟨hl, rfl, by omega⟩, And.left⟩
      · rw [hlinks, List.mem_singleton]
        constructor
        · intro hl
          exact .inr ⟨hl, rfl, by omega⟩
        · rintro (⟨hl, hdst, hat⟩ | ⟨hl, -, -⟩)
          · -- An edge considered before would have given the end this rank already.
            obtain ⟨edge', hedge', rfl⟩ := List.mem_map.1 hl
            have hknown := hlt (hdst ▸ hsound.doneKnown edge' hedge')
            have hclosed := h.closed edge' hedge'
            rw [hdst, hat] at hclosed
            omega
          · exact hl
    · have hrank := (hother hto).1
      rw [hrank] at he
      rw [(hother hto).2, hrank, h.arrivals e he l]
      grind

end Search

/-! ## At the end of the search -/

namespace Graph

/-- The edges considered in the end are those that leave elements with a cost. -/
theorem mem_edgesServed_search_iff {edge : Edge κ} :
    edge ∈ g.edgesServed src (g.search src).settled ↔ edge ∈ g.edges ∧
      MayLeave src edge.link.src.element ∧
        ((g.search src).costs.get? edge.link.src.element).isSome := by
  have hsettled : edge.link.src.element ∈ (g.search src).settled ↔
      ((g.search src).costs.get? edge.link.src.element).isSome := by
    refine ⟨(g.served_search src).sound.settledKnown _, fun h => ?_⟩
    obtain ⟨cost, hcost⟩ := Option.isSome_iff_exists.1 h
    exact mem_settled_of_cost hcost
  rw [mem_edgesServed_iff, hsettled, and_comm (a := Option.isSome _ = true)]

namespace Exact

theorem tight (hexact : g.Exact src rank limit length) :
    Search.Tight src rank limit length (g.edgesServed src (g.search src).settled)
      (g.search src) :=
  search_induction hexact.toRanked (Search.tight_start hexact) (fun _ _ _ h => { h with })
    (fun _ _ _ rest _ _ h => h.serve rest)
    fun _ _ _ _ _ hserving hedge h => h.relax hexact hserving hedge

/-- The rank of an element is at most that to which an edge leads. -/
theorem rankAt_le (hexact : g.Exact src rank limit length) {edge : Edge κ} (hedge : edge ∈ g.edges)
    (hleave : MayLeave src edge.link.src.element)
    (hknown : ((g.search src).costs.get? edge.link.src.element).isSome) :
    (g.search src).rankAt rank edge.link.dst.element ≤
      min ((g.search src).rankAt rank edge.link.src.element + length edge.link) limit :=
  hexact.tight.closed edge (mem_edgesServed_search_iff.2 ⟨hedge, hleave, hknown⟩)

/-- Below the limit an element was reached by the links that lead to it at its rank. -/
theorem mem_arrivalsAt_iff (hexact : g.Exact src rank limit length)
    (he : (g.search src).rankAt rank e < limit) {l : Link} :
    l ∈ (g.search src).arrivalsAt e ↔ (l ∈ g.edges.map Edge.link ∧ MayLeave src l.src.element ∧
        ((g.search src).costs.get? l.src.element).isSome) ∧ l.dst.element = e ∧
      (g.search src).rankAt rank l.src.element + length l = (g.search src).rankAt rank e := by
  rw [hexact.tight.arrivals e he l]
  refine and_congr_left fun _ => ?_
  rw [List.mem_map, List.mem_map]
  constructor
  · rintro ⟨edge, hedge, rfl⟩
    obtain ⟨hedge, hleave⟩ := mem_edgesServed_search_iff.1 hedge
    exact ⟨⟨edge, hedge, rfl⟩, hleave⟩
  · rintro ⟨⟨edge, hedge, rfl⟩, hleave⟩
    exact ⟨edge, mem_edgesServed_search_iff.2 ⟨hedge, hleave⟩, rfl⟩

end Exact

omit [PathCost κ] in
theorem nodup_edgesServed (hlinks : (g.edges.map Edge.link).Nodup) {settled : List ElementId}
    (hsettled : settled.Nodup) : ((g.edgesServed src settled).map Edge.link).Nodup := by
  rw [edgesServed, List.map_flatMap, List.nodup_flatMap]
  constructor
  · intro e _
    refine List.Nodup.sublist (List.Sublist.map _ ?_) hlinks
    unfold edgesOut edgesFrom
    split
    · exact List.filter_sublist
    · exact List.nil_sublist _
  · refine (List.nodup_reverse.2 hsettled).imp fun {e e'} hne l hl hl' => ?_
    obtain ⟨edge, hedge, rfl⟩ := List.mem_map.1 hl
    obtain ⟨edge', hedge', hlink⟩ := List.mem_map.1 hl'
    obtain ⟨-, hsrc, -⟩ := mem_edgesOut_iff.1 hedge
    obtain ⟨-, hsrc', -⟩ := mem_edgesOut_iff.1 hedge'
    exact hne (by rw [← hsrc, ← hsrc', hlink])

/-- No element was reached by one link twice, whatever the costs are like. -/
theorem nodup_arrivalsAt (hlinks : (g.edges.map Edge.link).Nodup) (e : ElementId) :
    ((g.search src).arrivalsAt e).Nodup := by
  have hsound := (g.served_search src).sound
  exact (nodup_edgesServed hlinks hsound.settledOnce).sublist (hsound.reachedOnce e)

end Graph

end HostRouting
