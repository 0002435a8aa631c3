import HostRouting.Proofs.Binary64.Comparison
import HostRouting.Routing.Weight

/-!
# Costs of links

A link is costed once it is found valid as given: a forbidden link costs `Constraint.veto`, and
every other one its price (`Constraint.cost_eq`), which is always a number
(`Constraint.cost_ne_nan`).

Main fact: `Constraint.cost_lt_zero_iff`. As long as the link is stored as given, a forbidden link
has a negative cost, and so has a valid one exactly when it is priced by a negative number under a
key: by the number itself below an upper limit, and by its reciprocal, which the negative infinity
alone escapes, above a lower one.
-/

namespace HostRouting

/-! ## Validity of the link as given -/

/-- The context without what is known of stored links. -/
def Context.asGiven (ctx : Context) : Context := { ctx with liveLink? := fun _ _ => none }

namespace Constraint

variable {c : Constraint} {l : Link} {ctx : Context}

/-- A link that is not stored, or stored just as given, is valid when it is valid as given. -/
theorem isValid_asGiven (h : ∀ live, ctx.liveLink? l.src l.dst = some live → live = l) :
    c.isValid l ctx.asGiven = c.isValid l ctx := by
  cases c with
  | limit key threshold upper =>
    -- Only a limit looks at the link as stored.
    have hlive : (ctx.liveLink? l.src l.dst).getD l = l := by
      cases hstored : ctx.liveLink? l.src l.dst with
      | none => rfl
      | some live => exact h live hstored
    show withinLimit key threshold upper l = withinLimit key threshold upper _
    rw [hlive]
  | _ => rfl

/-! ## Prices -/

/-- The cost of a link that is not forbidden. -/
def price (c : Constraint) (l : Link) : Binary64 :=
  match c with
  | .atMost key _ => l.annotations.numeric key
  | .limit key _ upper =>
    if l.isEdge then 1
    else if upper then l.annotations.numeric key
    else (l.annotations.numeric key).reciprocal
  | .marker _ => 0
  | .bandwidth _ | .asymmetricPath | .linkType .. | .pathViability => 1

theorem cost_eq (c : Constraint) (l : Link) (ctx : Context) :
    c.cost l ctx = if c.isValid l ctx.asGiven then c.price l else veto := by
  cases c with
  | limit key threshold upper =>
    show (if !withinLimit key threshold upper l then veto else _) =
      if withinLimit key threshold upper l then _ else veto
    cases withinLimit key threshold upper l <;> rfl
  | _ => rfl

/-- A valid link is priced by a negative number: by one under the key of an upper limit, or by the
reciprocal of a finite one under the key of a lower limit. -/
def PricedBelowZero (c : Constraint) (l : Link) : Prop :=
  match c with
  | .atMost key _ => l.annotations.numeric key < 0
  | .limit key _ true => l.isEdge = false ∧ l.annotations.numeric key < 0
  | .limit key _ false => l.isEdge = false ∧ ∃ m, l.annotations.numeric key = .finite true m
  | .bandwidth _ | .asymmetricPath | .linkType .. | .marker _ | .pathViability => False

theorem not_one_lt_zero : ¬(1 : Binary64) < 0 := by decide +kernel

theorem price_lt_zero_iff (c : Constraint) (l : Link) : c.price l < 0 ↔ c.PricedBelowZero l := by
  cases c with
  | atMost key threshold => exact Iff.rfl
  | limit key threshold upper =>
    cases hedge : l.isEdge with
    | true => cases upper <;> simp [price, PricedBelowZero, hedge, not_one_lt_zero]
    | false =>
      cases upper with
      | true => simp [price, PricedBelowZero, hedge]
      | false => simp [price, PricedBelowZero, hedge, Binary64.reciprocal_lt_zero_iff]
  | marker _ =>
    have hzero : ¬(0 : Binary64) < 0 := Binary64.not_lt_of_nonneg Binary64.zero_nonneg
    exact iff_of_false hzero id
  | bandwidth _ | asymmetricPath | linkType _ _ | pathViability =>
    exact iff_of_false not_one_lt_zero id

/-- A text that is not a number meets no limit, so the price of a valid link is a number. -/
theorem price_ne_nan (h : c.isValid l ctx.asGiven = true) : c.price l ≠ .nan := by
  have hone : (1 : Binary64) ≠ .nan := by decide +kernel
  cases c with
  | atMost key threshold => exact Binary64.ne_nan_of_le_left (of_decide_eq_true h)
  | limit key threshold upper =>
    have hwithin : withinLimit key threshold upper l = true := h
    unfold withinLimit at hwithin
    unfold price
    dsimp only
    split
    · exact hone
    next hedge =>
      rw [if_neg hedge] at hwithin
      cases upper with
      | true => exact Binary64.ne_nan_of_le_left (of_decide_eq_true hwithin)
      | false =>
        exact Binary64.reciprocal_ne_nan (Binary64.ne_nan_of_le_right (of_decide_eq_true hwithin))
  | marker _ => exact fun h => nomatch Binary64.zero_eq_finite.symm.trans h
  | bandwidth _ | asymmetricPath | linkType _ _ | pathViability => exact hone

/-! ## Costs -/

theorem veto_lt_zero : veto < 0 := by decide +kernel

theorem cost_ne_nan (c : Constraint) (l : Link) (ctx : Context) : c.cost l ctx ≠ .nan := by
  rw [cost_eq]
  split
  next h => exact price_ne_nan h
  next => exact fun h => nomatch h ▸ veto_lt_zero

/-- A forbidden link costs `veto`, and a valid one no negative number unless it is priced below
zero. -/
theorem cost_lt_zero_iff (c : Constraint) (l : Link) (ctx : Context)
    (hlive : ∀ live, ctx.liveLink? l.src l.dst = some live → live = l) :
    (c.isValid l ctx = false → c.cost l ctx = veto) ∧
      (c.cost l ctx < 0 ↔ c.isValid l ctx = false ∨ c.PricedBelowZero l) ∧
      (c.isValid l ctx = true → (0 ≤ c.cost l ctx ↔ ¬c.PricedBelowZero l)) := by
  have hcost := c.cost_eq l ctx
  rw [isValid_asGiven hlive] at hcost
  cases hvalid : c.isValid l ctx with
  | false =>
    have hveto : c.cost l ctx = veto := by rw [hcost, hvalid]; rfl
    rw [hveto]
    exact ⟨fun _ => rfl, iff_of_true veto_lt_zero (.inl rfl), fun h => nomatch h⟩
  | true =>
    have hprice : c.cost l ctx = c.price l := by rw [hcost, hvalid]; rfl
    have hnan : c.price l ≠ .nan := hprice ▸ c.cost_ne_nan l ctx
    rw [hprice]
    refine ⟨nofun, ?_, fun _ => ?_⟩
    · rw [price_lt_zero_iff]
      exact ⟨.inr, fun h => h.resolve_left nofun⟩
    · rw [← price_lt_zero_iff]
      exact ⟨Binary64.not_lt_of_nonneg, Binary64.nonneg_of_not_lt hnan⟩

namespace Sample

/-- A link with the given latency. -/
def delayed (latency : String) : Link :=
  { Link.between ⟨.device ⟨"s1"⟩, 1⟩ ⟨.device ⟨"s2"⟩, 1⟩ .direct with
    annotations := .ofList [("latency", latency)] }

/-- A context where everything is available and one link stands for all that are stored. -/
def storing (live? : Option Link) : Context := ⟨fun _ => true, fun _ _ => live?⟩

end Sample

theorem cost_lt_zero_iff_sample :
    (∀ live, (Sample.storing (Sample.delayed "12")).liveLink? (Sample.delayed "12").src
        (Sample.delayed "12").dst = some live → live = Sample.delayed "12") ∧
      0 ≤ (Constraint.limit "latency" 20 true).cost (Sample.delayed "12")
        (Sample.storing (Sample.delayed "12")) := by
  have hlive : ∀ live, (Sample.storing (Sample.delayed "12")).liveLink? (Sample.delayed "12").src
      (Sample.delayed "12").dst = some live → live = Sample.delayed "12" :=
    fun live h => (Option.some.inj h).symm
  have hvalid : (Constraint.limit "latency" 20 true).isValid (Sample.delayed "12")
      (Sample.storing (Sample.delayed "12")) = true := by decide +kernel
  have hprice : ¬(Constraint.limit "latency" 20 true).PricedBelowZero (Sample.delayed "12") := by
    rintro ⟨-, hneg⟩
    exact absurd hneg (by decide +kernel)
  obtain ⟨-, -, hnonneg⟩ := cost_lt_zero_iff (.limit "latency" 20 true) (Sample.delayed "12")
    (Sample.storing (Sample.delayed "12")) hlive
  exact ⟨hlive, (hnonneg hvalid).2 hprice⟩

/-- A negative latency below an upper limit is charged as it is, and the negative zero above a lower
one by its reciprocal: both links are valid. -/
theorem valid_with_negative_cost :
    (Constraint.atMost "latency" 20).isValid (Sample.delayed "-5") (Sample.storing none) = true ∧
      (Constraint.atMost "latency" 20).cost (Sample.delayed "-5") (Sample.storing none) = -5 ∧
      (-5 : Binary64) < 0 ∧
      (Constraint.limit "latency" 0 false).isValid (Sample.delayed "-0") (Sample.storing none) =
        true ∧
      (Constraint.limit "latency" 0 false).cost (Sample.delayed "-0") (Sample.storing none) =
        .infinity true := by
  decide +kernel

end Constraint

end HostRouting
