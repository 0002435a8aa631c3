import HostRouting.Proofs.Heap
import HostRouting.Proofs.Routing.Enumeration

/-!
# The progress of a search

What holds of a search at every moment, whatever the costs are like and in whatever order the
elements of the frontier are served.

1. Considering an edge keeps what is known of its end, adds an arrival, or replaces what is known
   (`Search.Relaxed`).
2. So the cost of an element is always that of a walk, elements with a cost are settled or wait in
   the frontier, and they were reached by edges that routes may use (`Search.Sound`,
   `Search.Served.sound`).
3. An edge is considered once and adds one entry to the frontier at most, so the search ends with
   an empty frontier (`Graph.frontier_search`), and exactly the elements to which a passage leads
   have a cost (`Graph.isSome_cost_iff_passage`).
-/

namespace HostRouting

theorem SortedMap.get?_insert {ν κ : Type} [Ord κ] [Std.TransOrd κ] [Std.LawfulEqOrd κ]
    [DecidableEq κ] (m : SortedMap κ ν) (k j : κ) (v : ν) :
    (m.insert k v).get? j = if j = k then some v else m.get? j := by
  split
  next h => rw [h, get?_insert_self]
  next h => exact get?_insert_of_ne m h v

variable {κ : Type} [PathCost κ] {g : Graph κ} {src e : ElementId}

/-! ## Costs of walks -/

/-- The cost is that of a walk from the source over edges that leave the source or devices. -/
inductive Graph.Arrives (g : Graph κ) (src : ElementId) : ElementId → κ → Prop
  | start : Arrives g src src PathCost.zero
  | step {cost : κ} {edge : Edge κ} (h : Arrives g src edge.link.src.element cost)
      (hleave : MayLeave src edge.link.src.element) (hedge : edge ∈ g.edges) :
      Arrives g src edge.link.dst.element (PathCost.add cost edge.weight)

namespace Graph

/-- The edges by which routes may leave an element. -/
def edgesOut (g : Graph κ) (src e : ElementId) : List (Edge κ) :=
  if MayLeave src e then g.edgesFrom e else []

/-- The edges by which routes may leave the settled elements, those of the element settled first
in front. -/
def edgesServed (g : Graph κ) (src : ElementId) (settled : List ElementId) : List (Edge κ) :=
  settled.reverse.flatMap (g.edgesOut src)

omit [PathCost κ] in
theorem mem_edgesOut_iff {edge : Edge κ} :
    edge ∈ g.edgesOut src e ↔ edge ∈ g.edges ∧ edge.link.src.element = e ∧ MayLeave src e := by
  unfold edgesOut edgesFrom
  split <;> simp [*]

omit [PathCost κ] in
theorem mem_edgesServed_iff {edge : Edge κ} {settled : List ElementId} :
    edge ∈ g.edgesServed src settled ↔
      edge ∈ g.edges ∧ edge.link.src.element ∈ settled ∧ MayLeave src edge.link.src.element := by
  simp only [edgesServed, List.mem_flatMap, List.mem_reverse, mem_edgesOut_iff]
  grind

omit [PathCost κ] in
theorem edgesServed_cons (settled : List ElementId) :
    g.edgesServed src (e :: settled) = g.edgesServed src settled ++ g.edgesOut src e := by
  simp [edgesServed]

omit [PathCost κ] in
/-- No edge leaves two of the settled elements. -/
theorem length_edgesServed_le (g : Graph κ) (src : ElementId) {settled : List ElementId}
    (h : settled.Nodup) : (g.edgesServed src settled).length ≤ g.edges.length := by
  have hfrom : ((settled.map fun e => (g.edgesFrom e).length).sum) ≤ g.edges.length := by
    unfold edgesFrom
    induction g.edges with
    | nil => simp
    | cons edge edges ih =>
      have hone : settled.count edge.link.src.element ≤ 1 := List.nodup_iff_count_le_one.1 h _
      have hsum : (settled.map fun e =>
          ((edge :: edges).filter (·.link.src.element = e)).length).sum =
          settled.count edge.link.src.element +
            (settled.map fun e => (edges.filter (·.link.src.element = e)).length).sum := by
        clear h hone ih
        induction settled with
        | nil => rfl
        | cons e settled ih =>
          rw [List.map_cons, List.sum_cons, ih, List.map_cons, List.sum_cons, List.filter_cons,
            List.count_cons]
          by_cases he : edge.link.src.element = e
          · simp [he]
            omega
          · simp [he, Ne.symm he]
            omega
      rw [hsum, List.length_cons]
      omega
  have hout : ∀ e, (g.edgesOut src e).length ≤ (g.edgesFrom e).length := by
    intro e
    unfold edgesOut
    split
    · exact Nat.le_refl _
    · exact Nat.zero_le _
  refine Nat.le_trans ?_ hfrom
  rw [edgesServed, List.length_flatMap, (settled.reverse_perm.map _).sum_nat]
  clear h hfrom
  induction settled with
  | nil => exact Nat.le_refl _
  | cons e settled ih => exact Nat.add_le_add (hout e) ih

/-- A walk goes on from where one that has a cost has come to. -/
theorem Arrives.walk {dst : ElementId} {links : List Link} (hwalk : IsWalk e links dst)
    (hlinks : ∀ l ∈ links, l ∈ g.edges.map Edge.link ∧ MayLeave src l.src.element)
    (h : ∃ cost, g.Arrives src e cost) : ∃ cost, g.Arrives src dst cost := by
  induction links generalizing e with
  | nil => exact (show e = dst from hwalk) ▸ h
  | cons l links ih =>
    obtain ⟨hl, hleave⟩ := hlinks l List.mem_cons_self
    obtain ⟨edge, hedge, rfl⟩ := List.mem_map.1 hl
    obtain ⟨cost, hcost⟩ := h
    obtain ⟨rfl, hwalk⟩ := hwalk
    exact ih hwalk (fun l hl => hlinks l (List.mem_cons_of_mem _ hl))
      ⟨_, hcost.step hleave hedge⟩

/-- A walk that has a cost may come back to the source. What follows the last time is a passage,
and it has what holds of no links at any cost and goes over from a walk to the next link. -/
theorem Arrives.exists_passage {P : List Link → κ → Prop} {cost : κ} (h : g.Arrives src e cost)
    (hnil : ∀ {cost}, g.Arrives src src cost → P [] cost)
    (hsnoc : ∀ {links cost edge}, g.Arrives src edge.link.src.element cost → edge ∈ g.edges →
      P links cost → P (links ++ [edge.link]) (PathCost.add cost edge.weight)) :
    ∃ links, IsPassage (· ∈ g.edges.map Edge.link) src e links ∧ P links cost := by
  induction h with
  | start => exact ⟨[], ⟨rfl, by simp, by simp⟩, hnil .start⟩
  | @step cost edge hcost hleave hedge ih =>
    have hlink : edge.link ∈ g.edges.map Edge.link := List.mem_map.2 ⟨edge, hedge, rfl⟩
    by_cases hsrc : edge.link.src.element = src
    · refine ⟨[edge.link], ⟨⟨hsrc, rfl⟩, ?_, by simp⟩, ?_⟩
      · exact fun l hl => List.mem_singleton.1 hl ▸ hlink
      · have hone := hsnoc hcost hedge (hnil (hsrc ▸ hcost))
        exact hone
    · obtain ⟨links, hpassage, hP⟩ := ih
      have hnonempty : links ≠ [] := by
        rintro rfl
        exact hsrc (Eq.symm hpassage.walk)
      refine ⟨links ++ [edge.link], ⟨hpassage.walk.concat rfl, fun l hl => ?_, fun l hl => ?_⟩,
        hsnoc hcost hedge hP⟩
      · rcases List.mem_append.1 hl with hl | hl
        · exact hpassage.permits l hl
        · exact List.mem_singleton.1 hl ▸ hlink
      · rw [List.tail_append_of_ne_nil hnonempty] at hl
        rcases List.mem_append.1 hl with hl | hl
        · exact hpassage.transit l hl
        · rw [List.mem_singleton.1 hl]
          exact hleave.resolve_right hsrc

end Graph

namespace Search

/-! ## One edge -/

/-- The search in which an edge, with the given cost of its end, is the only way to its end. -/
def reroute (s : Search κ) (edge : Edge κ) (cost : κ) : Search κ :=
  { s with
    costs := s.costs.insert edge.link.dst.element cost
    arrivals := s.arrivals.insert edge.link.dst.element [edge.link]
    frontier := Heap.push isNearer s.frontier (edge.link.dst.element, cost) }

/-- What considering an edge does. -/
inductive Relaxed (cost : κ) (s : Search κ) (edge : Edge κ) : Search κ → Prop
  | kept {known : κ} (hknown : s.costs.get? edge.link.dst.element = some known)
      (hexceeds : PathCost.exceeds (PathCost.add cost edge.weight) known = true) :
      Relaxed cost s edge s
  | tied {known : κ} (hknown : s.costs.get? edge.link.dst.element = some known)
      (hexceeds : ¬PathCost.exceeds (PathCost.add cost edge.weight) known = true)
      (hties : PathCost.ties (PathCost.add cost edge.weight) known = true) :
      Relaxed cost s edge
        { s with arrivals := s.arrivals.insert edge.link.dst.element
                  (s.arrivalsAt edge.link.dst.element ++ [edge.link]) }
  | replaced
      (hknown : ∀ known, s.costs.get? edge.link.dst.element = some known →
        ¬PathCost.exceeds (PathCost.add cost edge.weight) known = true ∧
          ¬PathCost.ties (PathCost.add cost edge.weight) known = true) :
      Relaxed cost s edge (s.reroute edge (PathCost.add cost edge.weight))

theorem relaxed (cost : κ) (s : Search κ) (edge : Edge κ) :
    Relaxed cost s edge (relax cost s edge) := by
  unfold relax
  dsimp only
  cases hcost : s.costs.get? edge.link.dst.element with
  | none => exact .replaced (by simp [hcost])
  | some known =>
    dsimp only
    split
    next hexceeds => exact .kept hcost hexceeds
    next hexceeds =>
      split
      next hties => exact .tied hcost hexceeds hties
      next hties =>
        refine .replaced fun k hk => ?_
        obtain rfl : known = k := Option.some.inj (hcost.symm.trans hk)
        exact ⟨hexceeds, hties⟩

@[simp] theorem settled_relax (cost : κ) (s : Search κ) (edge : Edge κ) :
    (relax cost s edge).settled = s.settled := by
  have h := relaxed cost s edge
  generalize relax cost s edge = s' at h
  cases h <;> rfl

omit [PathCost κ] in
theorem arrivalsAt_insert {s s' : Search κ} {next : ElementId} {links : List Link}
    (h : s'.arrivals = s.arrivals.insert next links) (e : ElementId) :
    s'.arrivalsAt e = if e = next then links else s.arrivalsAt e := by
  unfold arrivalsAt
  rw [h, SortedMap.get?_insert]
  split <;> rfl

section

variable {cost : κ} {s : Search κ} {edge : Edge κ}

/-- Costs stay known, and the end of the edge has one. -/
theorem isSome_cost_relax (he : (s.costs.get? e).isSome ∨ e = edge.link.dst.element) :
    ((relax cost s edge).costs.get? e).isSome := by
  have h := relaxed cost s edge
  generalize relax cost s edge = s' at h
  cases h with
  | kept hknown _ => exact he.elim id fun he => by rw [he, hknown]; rfl
  | tied hknown _ _ => exact he.elim id fun he => by rw [he, hknown]; rfl
  | replaced _ =>
    rw [reroute, SortedMap.get?_insert]
    split
    next => rfl
    next hne => exact he.resolve_right hne

/-- A new cost is that of the end, and it waits in the frontier. -/
theorem cost_relax {k : κ} (h : (relax cost s edge).costs.get? e = some k) :
    s.costs.get? e = some k ∨ (e, k) ∈ (relax cost s edge).frontier ∧
      e = edge.link.dst.element ∧ k = PathCost.add cost edge.weight := by
  have hrelaxed := relaxed cost s edge
  generalize relax cost s edge = s' at hrelaxed h ⊢
  cases hrelaxed with
  | kept _ _ => exact .inl h
  | tied _ _ _ => exact .inl h
  | replaced _ =>
    rw [reroute, SortedMap.get?_insert] at h
    split at h
    next he =>
      obtain rfl := Option.some.inj h
      rw [he]
      exact .inr ⟨Heap.mem_push_iff.2 (.inl rfl), rfl, rfl⟩
    next => exact .inl h

theorem frontier_relax (cost : κ) (s : Search κ) (edge : Edge κ) :
    (relax cost s edge).frontier = s.frontier ∨ (relax cost s edge).frontier =
      Heap.push isNearer s.frontier
        (edge.link.dst.element, PathCost.add cost edge.weight) := by
  have h := relaxed cost s edge
  generalize relax cost s edge = s' at h
  cases h with
  | kept _ _ => exact .inl rfl
  | tied _ _ _ => exact .inl rfl
  | replaced _ => exact .inr rfl

/-- Considering an edge changes nothing for other elements than its end. -/
theorem relax_frame (cost : κ) (s : Search κ) (edge : Edge κ) (he : e ≠ edge.link.dst.element) :
    (relax cost s edge).costs.get? e = s.costs.get? e ∧
      (relax cost s edge).arrivalsAt e = s.arrivalsAt e := by
  have h := relaxed cost s edge
  generalize relax cost s edge = s' at h
  cases h with
  | kept _ _ => exact ⟨rfl, rfl⟩
  | tied _ _ _ => exact ⟨rfl, by rw [arrivalsAt_insert rfl, if_neg he]⟩
  | replaced _ =>
    rw [arrivalsAt_insert (s := s) rfl, reroute, SortedMap.get?_insert, if_neg he, if_neg he]
    exact ⟨rfl, rfl⟩

/-- At most the link of the edge is added to those by which its end was reached. -/
theorem arrivalsAt_relax (cost : κ) (s : Search κ) (edge : Edge κ) (e : ElementId) :
    ((relax cost s edge).arrivalsAt e).Sublist
      (s.arrivalsAt e ++ if e = edge.link.dst.element then [edge.link] else []) := by
  have h := relaxed cost s edge
  generalize relax cost s edge = s' at h
  cases h with
  | kept _ _ => exact List.sublist_append_left _ _
  | tied _ _ _ =>
    rw [arrivalsAt_insert rfl]
    split
    next he => rw [he]
    next => exact List.sublist_append_left _ _
  | replaced _ =>
    rw [arrivalsAt_insert (s := s) rfl]
    split
    next => exact List.sublist_append_right _ _
    next => exact List.sublist_append_left _ _

end

/-! ## A list of edges -/

/-- What one edge after another preserves, where each edge is known by those before and after it. -/
theorem foldl_relax_prefixes {P : List (Edge κ) → Search κ → Prop} {cost : κ}
    {edges : List (Edge κ)} {s : Search κ}
    (hstep : ∀ before edge after s, edges = before ++ edge :: after → P before s →
      P (before ++ [edge]) (relax cost s edge))
    (h : P [] s) : P edges (edges.foldl (relax cost) s) := by
  have hrest : ∀ (rest before : List (Edge κ)) (s : Search κ), edges = before ++ rest →
      P before s → P edges (rest.foldl (relax cost) s) := by
    intro rest
    induction rest with
    | nil =>
      intro before s heq h
      rw [heq, List.append_nil]
      exact h
    | cons edge rest ih =>
      intro before s heq h
      exact ih (before ++ [edge]) _ (by rw [heq, List.append_cons])
        (hstep before edge rest s heq h)
  exact hrest edges [] s rfl h

/-- What one edge after another preserves. -/
theorem foldl_relax_induction {P : List (Edge κ) → Search κ → Prop} {cost : κ}
    {edges done : List (Edge κ)} {s : Search κ}
    (hstep : ∀ done s, ∀ edge ∈ edges, P done s → P (done ++ [edge]) (relax cost s edge))
    (h : P done s) : P (done ++ edges) (edges.foldl (relax cost) s) := by
  refine foldl_relax_prefixes (P := fun before s => P (done ++ before) s) ?_
    (by rwa [List.append_nil])
  intro before edge after s heq h
  rw [← List.append_assoc]
  exact hstep _ _ edge (heq ▸ List.mem_append_right _ List.mem_cons_self) h

theorem settle_eq (s : Search κ) (entry : ElementId × κ) :
    settle g src s entry = (g.edgesOut src entry.1).foldl (relax entry.2)
      { s with settled := entry.1 :: s.settled } := by
  unfold settle Graph.edgesOut
  by_cases h : MayLeave src entry.1
  · rw [if_pos h]
    exact if_pos h
  · rw [if_neg h]
    exact if_neg h

@[simp] theorem settled_settle (s : Search κ) (entry : ElementId × κ) :
    (settle g src s entry).settled = entry.1 :: s.settled := by
  rw [settle_eq]
  refine List.foldlRecOn (motive := fun s' : Search κ => s'.settled = entry.1 :: s.settled)
    _ _ rfl fun s' h edge _ => ?_
  rw [settled_relax, h]

/-! ## What holds at every moment -/

/-- The state of a search that has considered the given edges. -/
structure Sound (g : Graph κ) (src : ElementId) (done : List (Edge κ)) (s : Search κ) : Prop where
  source : (s.costs.get? src).isSome
  arrives : ∀ {e k}, s.costs.get? e = some k → g.Arrives src e k
  waiting : ∀ p ∈ s.frontier, (s.costs.get? p.1).isSome ∧ g.Arrives src p.1 p.2
  queued : ∀ {e k}, s.costs.get? e = some k → e ∉ s.settled → (e, k) ∈ s.frontier
  settledOnce : s.settled.Nodup
  settledKnown : ∀ e ∈ s.settled, (s.costs.get? e).isSome
  doneKnown : ∀ edge ∈ done, (s.costs.get? edge.link.dst.element).isSome
  reached : ∀ e, ∀ l ∈ s.arrivalsAt e,
    l.dst.element = e ∧ MayLeave src l.src.element ∧ l ∈ g.edges.map Edge.link
  reachedKnown : ∀ e, s.arrivalsAt e ≠ [] → (s.costs.get? e).isSome
  reachedOnce : ∀ e, (s.arrivalsAt e).Sublist (done.map Edge.link)

theorem sound_start : Sound g src [] (start src) where
  source := by simp [start]
  arrives := by
    intro e k h
    rw [start, SortedMap.get?_insert] at h
    split at h
    next he => rw [he, ← Option.some.inj h]; exact .start
    next => cases h
  waiting := by
    intro p hp
    rw [List.mem_singleton.1 hp]
    exact ⟨by simp [start], .start⟩
  queued := by
    intro e k h _
    rw [start, SortedMap.get?_insert] at h
    split at h
    next he => rw [he, ← Option.some.inj h]; exact List.mem_singleton_self _
    next => cases h
  settledOnce := List.nodup_nil
  settledKnown _ he := absurd he List.not_mem_nil
  doneKnown _ he := absurd he List.not_mem_nil
  reached _ _ hl := absurd hl List.not_mem_nil
  reachedKnown _ hl := absurd rfl hl
  reachedOnce _ := List.Sublist.refl []

section

variable {s : Search κ} {done : List (Edge κ)}

theorem Sound.relax {edge : Edge κ} {cost : κ} (h : Sound g src done s)
    (hcost : g.Arrives src edge.link.src.element cost)
    (hleave : MayLeave src edge.link.src.element) (hedge : edge ∈ g.edges) :
    Sound g src (done ++ [edge]) (Search.relax cost s edge) := by
  have harrives := hcost.step hleave hedge
  constructor
  case source => exact isSome_cost_relax (.inl h.source)
  case arrives =>
    intro e k hk
    rcases cost_relax hk with hk | ⟨-, rfl, rfl⟩
    · exact h.arrives hk
    · exact harrives
  case waiting =>
    intro p hp
    have hcases : p ∈ s.frontier ∨ p = (edge.link.dst.element, PathCost.add cost edge.weight) := by
      rcases frontier_relax cost s edge with heq | heq
      · exact .inl (heq ▸ hp)
      · rw [heq] at hp
        exact (Heap.mem_push_iff.1 hp).symm
    rcases hcases with hp | rfl
    · exact ⟨isSome_cost_relax (.inl (h.waiting p hp).1), (h.waiting p hp).2⟩
    · exact ⟨isSome_cost_relax (.inr rfl), harrives⟩
  case queued =>
    intro e k hk he
    rcases cost_relax hk with hk | ⟨hmem, -⟩
    · have hold := h.queued hk (by rwa [settled_relax] at he)
      rcases frontier_relax cost s edge with heq | heq
      · exact heq ▸ hold
      · rw [heq]
        exact Heap.mem_push_iff.2 (.inr hold)
    · exact hmem
  case settledOnce =>
    rw [settled_relax]
    exact h.settledOnce
  case settledKnown =>
    intro e he
    rw [settled_relax] at he
    exact isSome_cost_relax (.inl (h.settledKnown e he))
  case doneKnown =>
    intro edge' hedge'
    rcases List.mem_append.1 hedge' with hedge' | hedge'
    · exact isSome_cost_relax (.inl (h.doneKnown edge' hedge'))
    · exact isSome_cost_relax (.inr (by rw [List.mem_singleton.1 hedge']))
  case reached =>
    intro e l hl
    rcases List.mem_append.1 ((arrivalsAt_relax cost s edge e).subset hl) with hl | hl
    · exact h.reached e l hl
    · split at hl
      next he =>
        rw [List.mem_singleton.1 hl]
        exact ⟨he.symm, hleave, List.mem_map.2 ⟨edge, hedge, rfl⟩⟩
      next => exact absurd hl List.not_mem_nil
  case reachedKnown =>
    intro e hl
    by_cases he : e = edge.link.dst.element
    · exact isSome_cost_relax (.inr he)
    · refine isSome_cost_relax (.inl (h.reachedKnown e fun hnil => hl ?_))
      have hsub := arrivalsAt_relax cost s edge e
      rw [hnil, if_neg he] at hsub
      exact List.eq_nil_of_sublist_nil hsub
  case reachedOnce =>
    intro e
    rw [List.map_append]
    refine (arrivalsAt_relax cost s edge e).trans ((h.reachedOnce e).append ?_)
    split
    · exact List.Sublist.refl _
    · exact List.nil_sublist _

/-- An entry of an element that is not settled is taken off the frontier. Entries of settled
elements may be dropped with it, and no others. -/
structure Takes (s : Search κ) (entry : ElementId × κ) (rest : List (ElementId × κ)) : Prop where
  mem : entry ∈ s.frontier
  new : entry.1 ∉ s.settled
  sub : ∀ p ∈ rest, p ∈ s.frontier
  kept : ∀ p ∈ s.frontier, p.1 ∉ s.settled → p.1 ≠ entry.1 → p ∈ rest

variable {entry : ElementId × κ} {rest : List (ElementId × κ)}

/-- Without an entry of a settled element the frontier lacks nothing. -/
theorem kept_of_pop? (h : Heap.pop? isNearer s.frontier = some (entry, rest))
    (hmem : entry.1 ∈ s.settled) : (∀ p ∈ rest, p ∈ s.frontier) ∧
      ∀ p ∈ s.frontier, p.1 ∉ s.settled → p ∈ rest :=
  ⟨fun _ hp => (Heap.mem_of_pop? h).2 (.inr hp), fun _ hp hnew =>
    ((Heap.mem_of_pop? h).1 hp).resolve_left fun heq => hnew (heq ▸ hmem)⟩

theorem takes_of_pop? (h : Heap.pop? isNearer s.frontier = some (entry, rest))
    (hnew : entry.1 ∉ s.settled) : s.Takes entry rest where
  mem := (Heap.mem_of_pop? h).2 (.inl rfl)
  new := hnew
  sub _ hp := (Heap.mem_of_pop? h).2 (.inr hp)
  kept _ hp _ hne := ((Heap.mem_of_pop? h).1 hp).resolve_left fun heq => hne (congrArg Prod.fst heq)

/-- The element of an entry that is taken off the frontier may be settled. -/
theorem Sound.serve (h : Sound g src done s) (htakes : s.Takes entry rest) :
    Sound g src done { s with settled := entry.1 :: s.settled, frontier := rest } := by
  refine { h with waiting := ?_, queued := ?_, settledOnce := ?_, settledKnown := ?_ }
  · exact fun p hp => h.waiting p (htakes.sub p hp)
  · intro e k hk he
    obtain ⟨hne, hold⟩ := not_or.1 (mt List.mem_cons.2 he)
    exact htakes.kept _ (h.queued hk hold) hold hne
  · exact List.nodup_cons.2 ⟨htakes.new, h.settledOnce⟩
  · intro e he
    rcases List.mem_cons.1 he with rfl | he
    · exact (h.waiting entry htakes.mem).1
    · exact h.settledKnown e he

theorem Sound.settle (h : Sound g src (g.edgesServed src s.settled) s)
    (htakes : s.Takes entry rest) :
    Sound g src (g.edgesServed src (entry.1 :: s.settled))
      (Search.settle g src { s with frontier := rest } entry) := by
  have hcost := (h.waiting entry htakes.mem).2
  rw [settle_eq, Graph.edgesServed_cons]
  refine foldl_relax_induction (P := Sound g src) ?_ (h.serve htakes)
  intro done s edge hedge hs
  obtain ⟨hedge, hsrc, hleave⟩ := Graph.mem_edgesOut_iff.1 hedge
  exact hs.relax (hsrc ▸ hcost) (hsrc ▸ hleave) hedge

/-- Entries of settled elements may be dropped. -/
theorem Sound.drop (h : Sound g src done s) (hsub : ∀ p ∈ rest, p ∈ s.frontier)
    (hkept : ∀ p ∈ s.frontier, p.1 ∉ s.settled → p ∈ rest) :
    Sound g src done { s with frontier := rest } :=
  { h with
    waiting := fun p hp => h.waiting p (hsub p hp)
    queued := fun hk he => hkept _ (h.queued hk he) he }

end

/-! ## Rounds -/

/-- The states that a search can come to when the frontier is served in any order; entries of
settled elements may be dropped at any time. -/
inductive Served (g : Graph κ) (src : ElementId) : Search κ → Prop
  | start : Served g src (start src)
  | drop {s : Search κ} {rest : List (ElementId × κ)} (h : Served g src s)
      (hsub : ∀ p ∈ rest, p ∈ s.frontier)
      (hkept : ∀ p ∈ s.frontier, p.1 ∉ s.settled → p ∈ rest) :
      Served g src { s with frontier := rest }
  | serve {s : Search κ} {entry : ElementId × κ} {rest : List (ElementId × κ)}
      (h : Served g src s) (htakes : s.Takes entry rest) :
      Served g src (settle g src { s with frontier := rest } entry)

theorem Served.sound {s : Search κ} (h : Served g src s) :
    Sound g src (g.edgesServed src s.settled) s := by
  induction h with
  | start => exact sound_start
  | drop _ hsub hkept ih => exact ih.drop hsub hkept
  | serve _ htakes ih =>
    rw [settled_settle]
    exact ih.settle htakes

/-- What one round after another preserves: the entry that is taken off the heap is passed over or
its element is settled. -/
theorem run_induction {P : Search κ → Prop}
    (hpass : ∀ s entry rest, P s → Heap.pop? isNearer s.frontier = some (entry, rest) →
      entry.1 ∈ s.settled → P { s with frontier := rest })
    (hsettle : ∀ s entry rest, P s → Heap.pop? isNearer s.frontier = some (entry, rest) →
      entry.1 ∉ s.settled → P (settle g src { s with frontier := rest } entry))
    {s : Search κ} (h : P s) (n : Nat) : P (run g src n s) := by
  induction n generalizing s with
  | zero => exact h
  | succ n ih =>
    unfold run
    split
    · exact h
    next entry rest hpop =>
      apply ih
      unfold visit
      dsimp only
      split
      next hmem => exact hpass s entry rest h hpop (by simpa using hmem)
      next hnew => exact hsettle s entry rest h hpop (by simpa using hnew)

/-! ## The end of the search -/

/-- An edge that is considered adds one entry at most. -/
theorem length_frontier_settle_le (g : Graph κ) (src : ElementId) (s : Search κ)
    (entry : ElementId × κ) : (settle g src s entry).frontier.length ≤
      s.frontier.length + (g.edgesOut src entry.1).length := by
  have hfold : ∀ (edges : List (Edge κ)) (s : Search κ),
      (edges.foldl (relax entry.2) s).frontier.length ≤ s.frontier.length + edges.length := by
    intro edges
    induction edges with
    | nil => exact fun _ => Nat.le_refl _
    | cons edge edges ih =>
      intro s
      have hone : (relax entry.2 s edge).frontier.length ≤ s.frontier.length + 1 := by
        rcases frontier_relax entry.2 s edge with heq | heq
        · rw [heq]
          exact Nat.le_succ _
        · exact Nat.le_of_eq ((congrArg List.length heq).trans Heap.length_push)
      have hrest := ih (relax entry.2 s edge)
      rw [List.foldl_cons, List.length_cons]
      omega
  rw [settle_eq]
  exact hfold _ _

/-- The entries of the frontier and the edges that are still to be considered bound the number of
rounds. -/
theorem frontier_run_eq_nil {s : Search κ} (hsettled : s.settled.Nodup) {n : Nat}
    (hn : s.frontier.length + g.edges.length ≤ n + (g.edgesServed src s.settled).length) :
    (run g src n s).frontier = [] := by
  induction n generalizing s with
  | zero =>
    have hserved := g.length_edgesServed_le src hsettled
    have hnone : s.frontier.length = 0 := by omega
    exact List.eq_nil_of_length_eq_zero hnone
  | succ n ih =>
    unfold run
    split
    next hnone => exact Heap.pop?_eq_none_iff.1 hnone
    next entry rest hpop =>
      have hlength := Heap.length_of_pop? hpop
      unfold visit
      dsimp only
      split
      · refine ih hsettled ?_
        dsimp only
        omega
      next hnew =>
        have hnew : entry.1 ∉ s.settled := by simpa using hnew
        have hle := length_frontier_settle_le g src { s with frontier := rest } entry
        dsimp only at hle
        refine ih ?_ ?_
        · rw [settled_settle]
          exact List.nodup_cons.2 ⟨hnew, hsettled⟩
        · rw [settled_settle, Graph.edgesServed_cons, List.length_append]
          dsimp only
          omega

end Search

namespace Graph

theorem served_search (g : Graph κ) (src : ElementId) : Search.Served g src (g.search src) :=
  Search.run_induction
    (fun _ _ _ h hpop hmem =>
      h.drop (Search.kept_of_pop? hpop hmem).1 (Search.kept_of_pop? hpop hmem).2)
    (fun _ _ _ h hpop hnew => h.serve (Search.takes_of_pop? hpop hnew)) .start _

theorem frontier_search (g : Graph κ) (src : ElementId) : (g.search src).frontier = [] :=
  Search.frontier_run_eq_nil List.nodup_nil (Nat.le_of_eq (Nat.add_comm 1 _))

theorem mem_settled_of_cost {cost : κ} (h : (g.search src).costs.get? e = some cost) :
    e ∈ (g.search src).settled := by
  by_contra he
  have hqueued := (g.served_search src).sound.queued h he
  rw [frontier_search] at hqueued
  exact List.not_mem_nil hqueued

/-- The search gives a cost to exactly the elements to which a walk leads. -/
theorem isSome_cost_iff :
    ((g.search src).costs.get? e).isSome ↔ ∃ cost, g.Arrives src e cost := by
  have hsound := (g.served_search src).sound
  constructor
  · intro h
    obtain ⟨cost, hcost⟩ := Option.isSome_iff_exists.1 h
    exact ⟨cost, hsound.arrives hcost⟩
  · rintro ⟨cost, h⟩
    induction h with
    | start => exact hsound.source
    | step _ hleave hedge ih =>
      obtain ⟨k, hk⟩ := Option.isSome_iff_exists.1 ih
      exact hsound.doneKnown _ (mem_edgesServed_iff.2 ⟨hedge, mem_settled_of_cost hk, hleave⟩)

/-- The search gives an element a cost exactly when a passage leads to it. -/
theorem isSome_cost_iff_passage {dst : ElementId} :
    ((g.search src).costs.get? dst).isSome ↔
      ∃ links, IsPassage (· ∈ g.edges.map Edge.link) src dst links := by
  rw [isSome_cost_iff]
  constructor
  · rintro ⟨cost, h⟩
    obtain ⟨links, hpassage, -⟩ := h.exists_passage (P := fun _ _ => True)
      (fun _ => trivial) fun _ _ _ => trivial
    exact ⟨links, hpassage⟩
  · rintro ⟨links, hpassage⟩
    exact Arrives.walk hpassage.walk
      (fun l hl => ⟨hpassage.permits l hl, hpassage.mayLeave l hl⟩) ⟨_, .start⟩

end Graph

end HostRouting
