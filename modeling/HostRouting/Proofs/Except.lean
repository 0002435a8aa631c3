/-!
# Computations that may fail

When steps that may fail have a result, and which error it is when they fail: of steps in turn, and
of a traversal of a list.

Main facts: `Except.bind_eq_ok_iff`, `Except.bind_eq_error_iff` and `Except.mapM_eq_error_iff`.
-/

namespace HostRouting

theorem Except.bind_eq_ok_iff {ε α β : Type} {x : Except ε α} {f : α → Except ε β} {b : β} :
    x >>= f = .ok b ↔ ∃ a, x = .ok a ∧ f a = .ok b := by
  cases x <;> simp [bind, Except.bind]

theorem Except.map_eq_ok_iff {ε α β : Type} {x : Except ε α} {f : α → β} {b : β} :
    x.map f = .ok b ↔ ∃ a, x = .ok a ∧ f a = b := by
  cases x <;> simp [Except.map]

theorem Except.bind_eq_error_iff {ε α β : Type} {x : Except ε α} {f : α → Except ε β} {e : ε} :
    x >>= f = .error e ↔ x = .error e ∨ ∃ a, x = .ok a ∧ f a = .error e := by
  cases x <;> simp [bind, Except.bind]

theorem Except.map_eq_error_iff {ε α β : Type} {x : Except ε α} {f : α → β} {e : ε} :
    x.map f = .error e ↔ x = .error e := by
  cases x <;> simp [Except.map]

theorem Except.isOk_iff_forall_ne_error {ε α : Type} {x : Except ε α} :
    (∃ a, x = .ok a) ↔ ∀ e, x ≠ .error e := by
  cases x <;> simp

/-! ## Traversals -/

/-- A traversal gives a result when it does for every member. -/
theorem Except.mapM_isOk_iff {ε α β : Type} {f : α → Except ε β} {l : List α} :
    (∃ ys, l.mapM f = .ok ys) ↔ ∀ a ∈ l, ∃ y, f a = .ok y := by
  induction l with
  | nil => simp [pure, Except.pure]
  | cons a rest ih =>
    rw [List.forall_mem_cons, ← ih, List.mapM_cons]
    rcases f a with e | y
    · simp [bind, Except.bind]
    · rcases rest.mapM f with e | ys <;> simp [bind, Except.bind, pure, Except.pure]

/-- A traversal fails with the error of the first member that fails. -/
theorem Except.mapM_eq_error_iff {ε α β : Type} {f : α → Except ε β} {l : List α} {e : ε} :
    l.mapM f = .error e ↔ ∃ before a after, l = before ++ a :: after ∧ f a = .error e ∧
      ∀ b ∈ before, ∃ y, f b = .ok y := by
  induction l with
  | nil => simp [pure, Except.pure]
  | cons a rest ih =>
    rw [List.mapM_cons, Except.bind_eq_error_iff]
    constructor
    · rintro (ha | ⟨y, hy, h⟩)
      · exact ⟨[], a, rest, rfl, ha, by simp⟩
      · rcases Except.bind_eq_error_iff.1 h with h | ⟨ys, -, h⟩
        · obtain ⟨before, a', after, rfl, ha, hbefore⟩ := ih.1 h
          exact ⟨a :: before, a', after, rfl, ha, List.forall_mem_cons.2 ⟨⟨y, hy⟩, hbefore⟩⟩
        · exact nomatch h
    · rintro ⟨before, a', after, hsplit, ha, hbefore⟩
      cases before with
      | nil =>
        obtain ⟨rfl, rfl⟩ := List.cons.inj hsplit
        exact .inl ha
      | cons b before =>
        obtain ⟨rfl, rfl⟩ := List.cons.inj hsplit
        obtain ⟨⟨y, hy⟩, hbefore⟩ := List.forall_mem_cons.1 hbefore
        refine .inr ⟨y, hy, Except.bind_eq_error_iff.2 (.inl ?_)⟩
        exact ih.2 ⟨before, a', after, rfl, ha, hbefore⟩

end HostRouting
