import HostRouting.Proofs.Routing.Progress

/-!
# The order in which elements are settled

Costs are compared through a rank, a natural number that steps along edges do not decrease and that
replacing a cost does not increase (`Graph.Ranked`). Then elements are settled in the order of
their ranks, and what is settled keeps its rank:

1. the frontier is a heap by rank, it holds the cost of each element that is not settled and no
   smaller one, and nothing in it ranks below a settled element (`Search.Ordered`);
2. an edge considered from the nearest element keeps this and all settled ranks
   (`Search.Serving.relax`);
3. so what one such edge preserves holds at the end of the search (`Graph.search_induction`).
-/

namespace HostRouting

variable {κ : Type} [PathCost κ] {g : Graph κ} {src e : ElementId} {rank : κ → Nat}

/-- The rank fits the operations of the search, for costs of walks. -/
structure Graph.Ranked (g : Graph κ) (src : ElementId) (rank : κ → Nat) : Prop where
  le_of_order : ∀ {e e' a b}, g.Arrives src e a → g.Arrives src e' b →
    PathCost.order a b ≠ .gt → rank a ≤ rank b
  ge_of_order : ∀ {e e' a b}, g.Arrives src e a → g.Arrives src e' b →
    PathCost.order a b ≠ .lt → rank b ≤ rank a
  grows : ∀ {cost edge}, g.Arrives src edge.link.src.element cost → edge ∈ g.edges →
    rank cost ≤ rank (PathCost.add cost edge.weight)
  replaces : ∀ {e cost known}, g.Arrives src e cost → g.Arrives src e known →
    ¬PathCost.exceeds cost known = true → ¬PathCost.ties cost known = true →
    rank cost ≤ rank known

namespace Search

/-! ## Ranks of elements -/

/-- The rank of an element's cost, zero for an element without one. -/
def rankAt (rank : κ → Nat) (s : Search κ) (e : ElementId) : Nat :=
  ((s.costs.get? e).map rank).getD 0

omit [PathCost κ] in
theorem rankAt_of_cost {s : Search κ} {cost : κ} (h : s.costs.get? e = some cost) :
    s.rankAt rank e = rank cost := by
  simp [rankAt, h]

omit [PathCost κ] in
theorem rankAt_insert {s s' : Search κ} {next : ElementId} {cost : κ}
    (h : s'.costs = s.costs.insert next cost) (e : ElementId) :
    s'.rankAt rank e = if e = next then rank cost else s.rankAt rank e := by
  unfold rankAt
  rw [h, SortedMap.get?_insert]
  split <;> rfl

/-- Which of two entries is nearer fits their ranks. -/
theorem fits_isNearer (hrank : g.Ranked src rank) {entries : List (ElementId × κ)}
    (hentries : ∀ p ∈ entries, g.Arrives src p.1 p.2) :
    Heap.Fits isNearer (fun p => rank p.2) entries := by
  intro p hp q hq
  constructor
  · intro hnearer
    refine hrank.le_of_order (hentries p hp) (hentries q hq) fun hgt => ?_
    simp [isNearer, hgt] at hnearer
  · intro hnot
    refine hrank.ge_of_order (hentries p hp) (hentries q hq) fun hlt => ?_
    simp [isNearer, hlt] at hnot

/-! ## Order -/

/-- The frontier is a heap, and no entry of it ranks below the cost of its element or below a
settled element. -/
structure Ordered (rank : κ → Nat) (s : Search κ) : Prop where
  heap : Heap.IsHeap (fun p => rank p.2) s.frontier
  atLeast : ∀ p ∈ s.frontier, s.rankAt rank p.1 ≤ rank p.2
  nearer : ∀ e ∈ s.settled, ∀ p ∈ s.frontier, s.rankAt rank e ≤ rank p.2

/-- An element has been settled at the given cost, no settled element ranks above it, and some of
its edges have been considered. -/
structure Serving (g : Graph κ) (src : ElementId) (rank : κ → Nat) (e : ElementId) (cost : κ)
    (done : List (Edge κ)) (s : Search κ) : Prop where
  sound : Sound g src done s
  ordered : Ordered rank s
  arrives : g.Arrives src e cost
  mem : e ∈ s.settled
  rankAt_eq : s.rankAt rank e = rank cost
  last : ∀ e ∈ s.settled, s.rankAt rank e ≤ rank cost

theorem Serving.relax {s : Search κ} {done : List (Edge κ)} {cost : κ} {edge : Edge κ}
    (hrank : g.Ranked src rank) (h : Serving g src rank e cost done s)
    (hedge : edge ∈ g.edgesOut src e) :
    Serving g src rank e cost (done ++ [edge]) (Search.relax cost s edge) ∧
      ∀ e ∈ s.settled, (Search.relax cost s edge).rankAt rank e = s.rankAt rank e := by
  obtain ⟨hmem, rfl, hleave⟩ := Graph.mem_edgesOut_iff.1 hedge
  have hsound := h.sound.relax h.arrives hleave hmem
  have hgrows := hrank.grows h.arrives hmem
  -- It is enough that settled ranks are kept and that the frontier stays in order.
  suffices hnew : Ordered rank (Search.relax cost s edge) ∧
      ∀ e ∈ s.settled, (Search.relax cost s edge).rankAt rank e = s.rankAt rank e by
    refine ⟨⟨hsound, hnew.1, h.arrives, ?_, ?_, ?_⟩, hnew.2⟩
    · rw [settled_relax]
      exact h.mem
    · rw [hnew.2 _ h.mem]
      exact h.rankAt_eq
    · intro e he
      rw [settled_relax] at he
      rw [hnew.2 e he]
      exact h.last e he
  have hrelaxed := relaxed cost s edge
  generalize Search.relax cost s edge = s' at hrelaxed
  cases hrelaxed with
  | kept _ _ => exact ⟨h.ordered, fun _ _ => rfl⟩
  | tied _ _ _ =>
    exact ⟨⟨h.ordered.heap, h.ordered.atLeast, h.ordered.nearer⟩, fun _ _ => rfl⟩
  | replaced hknown =>
    have hat : ∀ e, (s.reroute edge (PathCost.add cost edge.weight)).rankAt rank e =
        if e = edge.link.dst.element then rank (PathCost.add cost edge.weight)
        else s.rankAt rank e := fun e => rankAt_insert rfl e
    have hle : ∀ {e}, (s.costs.get? e).isSome →
        (s.reroute edge (PathCost.add cost edge.weight)).rankAt rank e ≤ s.rankAt rank e := by
      intro e he
      rw [hat]
      split
      next heq =>
        obtain ⟨known, hcost⟩ := Option.isSome_iff_exists.1 (heq ▸ he)
        rw [heq, rankAt_of_cost hcost]
        exact hrank.replaces (h.arrives.step hleave hmem) (h.sound.arrives hcost)
          (hknown known hcost).1 (hknown known hcost).2
      next => exact Nat.le_refl _
    have hsettled : ∀ e ∈ s.settled,
        (s.reroute edge (PathCost.add cost edge.weight)).rankAt rank e = s.rankAt rank e := by
      intro e he
      refine Nat.le_antisymm (hle (h.sound.settledKnown e he)) ?_
      rw [hat]
      split
      · exact Nat.le_trans (h.last e he) hgrows
      · exact Nat.le_refl _
    refine ⟨⟨h.ordered.heap.push (fits_isNearer hrank ?_), fun p hp => ?_, fun e he p hp => ?_⟩,
      hsettled⟩
    · intro p hp
      rcases List.mem_cons.1 hp with rfl | hp
      · exact h.arrives.step hleave hmem
      · exact (h.sound.waiting p hp).2
    · rcases Heap.mem_push_iff.1 hp with rfl | hp
      · exact Nat.le_of_eq ((hat _).trans (if_pos rfl))
      · exact Nat.le_trans (hle (h.sound.waiting p hp).1) (h.ordered.atLeast p hp)
    · rw [hsettled e he]
      rcases Heap.mem_push_iff.1 hp with rfl | hp
      · exact Nat.le_trans (h.last e he) hgrows
      · exact h.ordered.nearer e he p hp

section

variable {s : Search κ} {done : List (Edge κ)} {entry : ElementId × κ}
variable {rest : List (ElementId × κ)}

theorem Ordered.pass (hrank : g.Ranked src rank) (hsound : Sound g src done s)
    (h : Ordered rank s) (hpop : Heap.pop? isNearer s.frontier = some (entry, rest)) :
    Ordered rank { s with frontier := rest } := by
  have hsub : ∀ p ∈ rest, p ∈ s.frontier := fun p hp => (Heap.mem_of_pop? hpop).2 (.inr hp)
  refine ⟨h.heap.pop? (fits_isNearer hrank fun p hp => (hsound.waiting p hp).2) hpop, ?_, ?_⟩
  · exact fun p hp => h.atLeast p (hsub p hp)
  · exact fun e he p hp => h.nearer e he p (hsub p hp)

/-- The search turns to the nearest entry, which has the cost of its element. -/
theorem Ordered.serve (hrank : g.Ranked src rank) (hsound : Sound g src done s)
    (h : Ordered rank s) (hpop : Heap.pop? isNearer s.frontier = some (entry, rest))
    (hnew : entry.1 ∉ s.settled) :
    Serving g src rank entry.1 entry.2 done
      { s with settled := entry.1 :: s.settled, frontier := rest } := by
  have htakes := takes_of_pop? hpop hnew
  obtain ⟨hknown, harrives⟩ := hsound.waiting entry htakes.mem
  have hnearest : ∀ p ∈ s.frontier, rank entry.2 ≤ rank p.2 := fun p hp =>
    h.heap.rank_pop?_le hpop hp
  have hat : s.rankAt rank entry.1 = rank entry.2 := by
    obtain ⟨k, hk⟩ := Option.isSome_iff_exists.1 hknown
    have hle := hnearest _ (hsound.queued hk hnew)
    have hge := h.atLeast entry htakes.mem
    rw [rankAt_of_cost hk] at hge ⊢
    exact Nat.le_antisymm hge hle
  have hlast : ∀ e ∈ entry.1 :: s.settled, s.rankAt rank e ≤ rank entry.2 := by
    intro e he
    rcases List.mem_cons.1 he with rfl | he
    · exact Nat.le_of_eq hat
    · exact h.nearer e he entry htakes.mem
  have hpass := h.pass hrank hsound hpop
  refine ⟨hsound.serve htakes, ⟨hpass.heap, hpass.atLeast, ?_⟩, harrives, List.mem_cons_self, hat,
    hlast⟩
  exact fun e he p hp => Nat.le_trans (hlast e he) (hnearest p (htakes.sub p hp))

end

end Search

/-! ## The whole search -/

/-- What holds at the start, whatever is left of the frontier, when an element is settled and after
each edge considered from a nearest element, holds at the end of the search, with the edges of all
settled elements. -/
theorem Graph.search_induction (hrank : g.Ranked src rank)
    {Q : List (Edge κ) → Search κ → Prop} (hstart : Q [] (Search.start src))
    (hpass : ∀ done s rest, Q done s → Q done { s with frontier := rest })
    (hserve : ∀ done s entry rest, Search.Sound g src done s → s.Takes entry rest → Q done s →
      Q done { s with settled := entry.1 :: s.settled, frontier := rest })
    (hrelax : ∀ e cost done s edge, Search.Serving g src rank e cost done s →
      edge ∈ g.edgesOut src e → Q done s → Q (done ++ [edge]) (Search.relax cost s edge)) :
    Q (g.edgesServed src (g.search src).settled) (g.search src) := by
  have hstart' : Search.Ordered rank (Search.start (κ := κ) src) := by
    refine ⟨?_, fun p hp => ?_, fun e he => absurd he List.not_mem_nil⟩
    · exact fun k hk => Heap.leAt_of_length_le hk
    · rw [List.mem_singleton.1 hp]
      simp [Search.start, Search.rankAt]
  let P (s : Search κ) := Search.Sound g src (g.edgesServed src s.settled) s ∧
    Search.Ordered rank s ∧ Q (g.edgesServed src s.settled) s
  have hpass' : ∀ s entry rest, P s → Heap.pop? Search.isNearer s.frontier = some (entry, rest) →
      entry.1 ∈ s.settled → P { s with frontier := rest } := by
    rintro s entry rest ⟨hsound, hordered, hQ⟩ hpop hmem
    obtain ⟨hsub, hkept⟩ := Search.kept_of_pop? hpop hmem
    exact ⟨hsound.drop hsub hkept, hordered.pass hrank hsound hpop, hpass _ s rest hQ⟩
  have hround : ∀ s entry rest, P s → Heap.pop? Search.isNearer s.frontier = some (entry, rest) →
      entry.1 ∉ s.settled → P (Search.settle g src { s with frontier := rest } entry) := by
    rintro s entry rest ⟨hsound, hordered, hQ⟩ hpop hnew
    let R (done : List (Edge κ)) (s' : Search κ) :=
      Search.Serving g src rank entry.1 entry.2 done s' ∧ Q done s'
    have hfirst : R (g.edgesServed src s.settled)
        { s with settled := entry.1 :: s.settled, frontier := rest } :=
      ⟨hordered.serve hrank hsound hpop hnew,
        hserve _ s entry rest hsound (Search.takes_of_pop? hpop hnew) hQ⟩
    have hnext : ∀ done s', ∀ edge ∈ g.edgesOut src entry.1, R done s' →
        R (done ++ [edge]) (Search.relax entry.2 s' edge) := fun done s' edge hedge h =>
      ⟨(h.1.relax hrank hedge).1, hrelax _ _ _ _ _ h.1 hedge h.2⟩
    have hlast := Search.foldl_relax_induction hnext hfirst
    rw [← edgesServed_cons] at hlast
    dsimp only [P]
    rw [Search.settled_settle, Search.settle_eq]
    exact ⟨hlast.1.sound, hlast.1.ordered, hlast.2⟩
  exact (Search.run_induction hpass' hround ⟨Search.sound_start, hstart', hstart⟩ _).2.2

end HostRouting
