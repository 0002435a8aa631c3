import HostRouting.Routing.Selection

/-!
# Selected paths

Main facts: `selectPath_eq_ok` (the fingerprint picks from the candidates that satisfy every
constraint) and `satisfies_of_selectPath`.
-/

namespace HostRouting

variable {σ ρ : Type} [LinkStore σ] [Reservations ρ]

/-- The candidates that satisfy every constraint of an intent. -/
def validPaths (service : PathService σ) (links : σ) (hosts : HostDirectory) (resources : ρ)
    (i : FlowIntent) (src dst : ElementId) : List Path :=
  let ctx := Context.ofStores links resources
  (service.paths links hosts (ctx.weigher i.connectivity.constraints) src dst).filter
    (satisfies ctx i.connectivity.constraints)

theorem satisfies_iff {ctx : Context} {constraints : List Constraint} {p : Path} :
    satisfies ctx constraints p = true ↔
      ∀ k ∈ constraints, ∀ l ∈ p.links, k.isValid l ctx = true := by
  simp [satisfies, Constraint.validates, List.all_eq_true]

section

variable {α : Type} {print : Int32} {src dst : ElementId} {items : List α}

theorem mem_of_pick {a : α} (h : pick print items = some a) : a ∈ items := List.mem_of_getElem? h

theorem pickOr_eq_ok {a : α} :
    pickOr print src dst items = .ok a ↔ pick print items = some a := by
  unfold pickOr
  cases pick print items <;> simp

theorem pickOr_eq_error {e : Error} :
    pickOr print src dst items = .error e ↔ e = .pathNotFound src dst ∧ pick print items = none := by
  unfold pickOr
  cases pick print items <;> simp [eq_comm]

end

variable {service : PathService σ} {links : σ} {hosts : HostDirectory} {resources : ρ}
variable {i : FlowIntent} {src dst : ElementId} {p : Path}

/-- The fingerprint picks the selected path among those that satisfy every constraint. -/
theorem selectPath_eq_ok :
    selectPath service links hosts resources i src dst = .ok p ↔
      pick (fingerprint hosts i) (validPaths service links hosts resources i src dst) =
        some p := pickOr_eq_ok

/-- A selected path satisfies every constraint. -/
theorem satisfies_of_selectPath
    (h : selectPath service links hosts resources i src dst = .ok p) :
    satisfies (Context.ofStores links resources) i.connectivity.constraints p = true :=
  (List.mem_filter.1 (mem_of_pick (selectPath_eq_ok.1 h))).2

end HostRouting
