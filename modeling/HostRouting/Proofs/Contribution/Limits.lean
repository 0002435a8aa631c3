import HostRouting.Compiler.Contribution

/-!
# Which limit decides

Of the constraints that limit the number under a key the last one decides about it, and a key that
none of them limits is left alone.

Main facts: `lastLimit?_eq_some_iff` and `lastLimit?_eq_none_iff`.
-/

namespace HostRouting

namespace Constraint

/-- What the constraint says about a key: a threshold and whether it is an upper limit. -/
def limitOn? (k : Constraint) (key : String) : Option (Binary64 × Bool) :=
  (k.annotationLimit?.filter (·.1 = key)).map (·.2)

/-- The constraint limits the number under the key. -/
def Limits (k : Constraint) (key : String) : Prop :=
  ∃ limit, k.annotationLimit? = some (key, limit)

variable {k : Constraint} {key : String}

theorem limitOn?_eq_some_iff {limit : Binary64 × Bool} :
    k.limitOn? key = some limit ↔ k.annotationLimit? = some (key, limit) := by
  unfold limitOn?
  rcases k.annotationLimit? with - | ⟨key', limit'⟩
  · simp
  · by_cases hkey : key' = key <;> simp [Option.filter, hkey]

theorem limitOn?_eq_none_iff : k.limitOn? key = none ↔ ¬k.Limits key := by
  rw [Option.eq_none_iff_forall_ne_some]
  simp [limitOn?_eq_some_iff, Limits]

end Constraint

/-- The last constraint on the key has this threshold and is an upper limit or not. -/
def LastLimit (constraints : List Constraint) (key : String) (threshold : Binary64)
    (upper : Bool) : Prop :=
  ∃ before k after, constraints = before ++ k :: after ∧
    k.annotationLimit? = some (key, threshold, upper) ∧ ∀ k' ∈ after, ¬k'.Limits key

variable {constraints rest : List Constraint} {k : Constraint} {key : String}

/-- A constraint decides when none after it does. -/
theorem lastLimit?_cons :
    lastLimit? (k :: rest) key = (lastLimit? rest key).or (k.limitOn? key) := by
  unfold lastLimit? Constraint.limitOn?
  rcases hlimit : k.annotationLimit? with - | ⟨key', limit⟩
  · simp [hlimit]
  · by_cases hkey : key' = key
    · rw [List.filterMap_cons_some hlimit, List.filter_cons_of_pos (by simpa using hkey),
        List.getLast?_cons]
      cases ((rest.filterMap Constraint.annotationLimit?).filter (·.1 = key)).getLast? <;>
        simp [Option.filter, hkey]
    · rw [List.filterMap_cons_some hlimit, List.filter_cons_of_neg (by simpa using hkey)]
      simp [Option.filter, hkey]

theorem lastLimit?_eq_none_iff :
    lastLimit? constraints key = none ↔ ∀ k ∈ constraints, ¬k.Limits key := by
  induction constraints with
  | nil => exact iff_of_true rfl (by simp)
  | cons k rest ih =>
    rw [lastLimit?_cons, Option.or_eq_none_iff, ih, Constraint.limitOn?_eq_none_iff,
      List.forall_mem_cons]
    exact and_comm

theorem lastLimit?_ne_none_iff :
    lastLimit? constraints key ≠ none ↔ ∃ k ∈ constraints, k.Limits key := by
  rw [ne_eq, lastLimit?_eq_none_iff]
  simp

theorem lastLimit_cons {threshold : Binary64} {upper : Bool} :
    LastLimit (k :: rest) key threshold upper ↔ LastLimit rest key threshold upper ∨
      (∀ k' ∈ rest, ¬k'.Limits key) ∧ k.annotationLimit? = some (key, threshold, upper) := by
  constructor
  · rintro ⟨before, k', after, hsplit, hlimit, hafter⟩
    cases before with
    | nil =>
      obtain ⟨rfl, rfl⟩ := List.cons.inj hsplit
      exact .inr ⟨hafter, hlimit⟩
    | cons _ before =>
      exact .inl ⟨before, k', after, (List.cons.inj hsplit).2, hlimit, hafter⟩
  · rintro (⟨before, k', after, rfl, hlimit, hafter⟩ | ⟨hafter, hlimit⟩)
    · exact ⟨k :: before, k', after, rfl, hlimit, hafter⟩
    · exact ⟨[], k, rest, rfl, hlimit, hafter⟩

theorem lastLimit?_eq_some_iff {threshold : Binary64} {upper : Bool} :
    lastLimit? constraints key = some (threshold, upper) ↔
      LastLimit constraints key threshold upper := by
  induction constraints with
  | nil => exact iff_of_false (by simp [lastLimit?]) fun ⟨before, k, after, h, _⟩ => by simp at h
  | cons k rest ih =>
    rw [lastLimit?_cons, Option.or_eq_some_iff, lastLimit_cons, ih, lastLimit?_eq_none_iff,
      Constraint.limitOn?_eq_some_iff]

end HostRouting
