import HostRouting.Proofs.Routing.Costs
import HostRouting.Routing.Selection

/-!
# Weights of constraints

Negative costs rule a link out, and costs are numbers, so the weights that a list of constraints
gives are not negative (`Context.nonneg_of_weigher`).

Main fact: `Context.decidedBy_weigher`. The first cost that is not positive decides the weight of a
link, and the last one when all are positive.
-/

namespace HostRouting

namespace Context

variable {ctx : Context} {l : Link}

/-! ## The running cost -/

theorem runningCost_of_le_zero {cost : Binary64} (h : cost ≤ 0) (cs : List Constraint) :
    ctx.runningCost l cost cs = cost := by
  cases cs with
  | nil => rfl
  | cons c cs => exact if_pos h

/-- Constraints with positive costs leave the decision to what follows. -/
theorem runningCost_append_cons {before : List Constraint}
    (h : ∀ c ∈ before, 0 < c.cost l ctx) {cost : Binary64} (hcost : 0 < cost) (c : Constraint)
    (after : List Constraint) :
    ctx.runningCost l cost (before ++ c :: after) = ctx.runningCost l (c.cost l ctx) after := by
  induction before generalizing cost with
  | nil => exact if_neg (Binary64.not_le_zero_of_pos hcost)
  | cons first before ih =>
    obtain ⟨hfirst, hbefore⟩ := List.forall_mem_cons.1 h
    rw [List.cons_append, runningCost, if_neg (Binary64.not_le_zero_of_pos hcost)]
    exact ih hbefore hfirst

theorem runningCost_ne_nan (cs : List Constraint) {cost : Binary64} (h : cost ≠ .nan) :
    ctx.runningCost l cost cs ≠ .nan := by
  induction cs generalizing cost with
  | nil => exact h
  | cons c cs ih =>
    rw [runningCost]
    split
    · exact h
    · exact ih (c.cost_ne_nan l ctx)

/-! ## Weights -/

/-- The weights that constraints give are numbers, and none is negative. -/
theorem nonneg_of_weigher {constraints : List Constraint} {w : Binary64}
    (h : ctx.weigher constraints l = .scalar w) : 0 ≤ w := by
  have hhop : hopWeight ≠ .nan := by decide +kernel
  unfold weigher at h
  dsimp only at h
  split at h
  · exact nomatch h
  next hneg =>
    rw [← Weight.scalar.inj h]
    exact Binary64.nonneg_of_not_lt (runningCost_ne_nan _ hhop) hneg

/-- The cost that decides: all before it are positive, and either nothing follows or it is not
positive itself. -/
theorem weigher_of_costs {constraints : List Constraint} {before after : List Binary64}
    {c : Binary64}
    (hcosts : (constraints.filter (·.isCostBearing)).map (·.cost (ctx.resolve l) ctx) =
      before ++ c :: after)
    (hbefore : ∀ d ∈ before, 0 < d) (hc : after = [] ∨ ¬0 < c) :
    c ≠ .nan ∧ ctx.weigher constraints l = if c < 0 then .nonViable else .scalar c := by
  -- The constraints split as their costs do.
  obtain ⟨cs, rest, hcs, rfl, hrest⟩ := List.map_eq_append_iff.1 hcosts
  obtain ⟨decider, later, rfl, rfl, rfl⟩ := List.map_eq_cons_iff.1 hrest
  have hnan := decider.cost_ne_nan (ctx.resolve l) ctx
  have hhop : 0 < hopWeight := by decide +kernel
  have hrunning : ctx.runningCost (ctx.resolve l) hopWeight
      (constraints.filter (·.isCostBearing)) = decider.cost (ctx.resolve l) ctx := by
    rw [hcs, runningCost_append_cons (List.forall_mem_map.1 hbefore) hhop]
    rcases hc with hlast | hc
    · rw [List.map_eq_nil_iff.1 hlast]
      rfl
    · exact runningCost_of_le_zero (Binary64.le_zero_of_not_pos hnan hc) later
  refine ⟨hnan, ?_⟩
  unfold weigher
  rw [hrunning]

/-- The weight of a link by the costs of crossing it. -/
structure DecidedBy (costs : List Binary64) (w : Weight) : Prop where
  /-- Without costs a link is one hop. -/
  hop : costs = [] → w = .scalar 1
  /-- The first cost that is not positive decides, whatever follows. -/
  first : ∀ before c after, costs = before ++ c :: after → (∀ d ∈ before, 0 < d) → ¬0 < c →
    (c < 0 ∧ w = .nonViable) ∨ ((c == 0) = true ∧ w = .scalar c)
  /-- The last of positive costs decides. -/
  last : ∀ before c, costs = before ++ [c] → (∀ d ∈ costs, 0 < d) → w = .scalar c
  nonneg : ∀ x, w = .scalar x → 0 ≤ x ∧ x ≠ .nan

theorem decidedBy_costs (ctx : Context) (constraints : List Constraint) (l : Link) :
    DecidedBy ((constraints.filter (·.isCostBearing)).map (·.cost (ctx.resolve l) ctx))
      (ctx.weigher constraints l) := by
  refine ⟨fun hnone => ?_, fun before c after hcosts hbefore hc => ?_,
    fun before c hcosts hall => ?_, fun x hx => ?_⟩
  · have hhop : ¬hopWeight < 0 := by decide +kernel
    unfold weigher
    rw [List.map_eq_nil_iff.1 hnone]
    exact if_neg hhop
  · obtain ⟨hnan, hweight⟩ := weigher_of_costs hcosts hbefore (.inr hc)
    rw [hweight]
    rcases Binary64.le_zero_of_not_pos hnan hc with hneg | hzero
    · exact .inl ⟨hneg, if_pos hneg⟩
    · have hbeq := Binary64.beq_iff.2 hzero
      exact .inr ⟨hbeq, if_neg (Binary64.not_lt_of_beq hbeq)⟩
  · rw [hcosts] at hall
    obtain ⟨hbefore, hc⟩ := List.forall_mem_append.1 hall
    have hpos : 0 < c := hc c (List.mem_singleton_self c)
    rw [(weigher_of_costs hcosts hbefore (.inl rfl)).2]
    exact if_neg (Binary64.not_lt_of_nonneg (.inl hpos))
  · have hle := nonneg_of_weigher hx
    exact ⟨hle, Binary64.ne_nan_of_le_right hle⟩

/-- The costs that decide are those of the constraints other than the markers and the demands that
paths are viable, for the link as stored; for links that attach hosts and links that are not stored,
as given. -/
theorem decidedBy_weigher {σ ρ : Type} [LinkStore σ] [Reservations ρ] (links : σ) (resources : ρ)
    (constraints : List Constraint) (l : Link) :
    let ctx := Context.ofStores links resources
    let copy := if l.isEdge then l else (LinkStore.link? links l.src l.dst).getD l
    DecidedBy
      ((constraints.filter fun c => !(c matches .marker _ | .pathViability)).map (·.cost copy ctx))
      (ctx.weigher constraints l) := by
  have hbearing : Constraint.isCostBearing = fun c => !(c matches .marker _ | .pathViability) := by
    funext c
    cases c <;> rfl
  have h := decidedBy_costs (Context.ofStores links resources) constraints l
  rw [hbearing] at h
  exact h

end Context

end HostRouting
