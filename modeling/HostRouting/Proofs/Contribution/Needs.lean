import HostRouting.Proofs.Contribution.Annotations

/-!
# What a contribution has to write for one link

A contribution looks at its links one after the other: the writes it plans are those that the links
need, in the order of the links, and it plans none when some link cannot be adjusted. What it plans
it either does or reports.

Main facts: `pendingWrites_isOk_iff`, `pendingWrites_eq_ok` and `performWrites_total`.
-/

namespace HostRouting

section

variable {σ : Type} [LinkStore σ]

/-- The write that a link needs, if any. -/
def neededWrite (store : σ) (constraints : List Constraint) (d : Direction) (l : Link) :
    Except Error (Option PendingWrite) :=
  if l.isEdge then .ok none
  else
    match LinkStore.link? store l.src l.dst with
    | none => .ok none
    | some live => do
      let desired ← adjusted constraints d live.annotations
      .ok (if desired = live.annotations then none else some ⟨live, desired⟩)

/-- The same, none as well for a link that cannot be adjusted. -/
def neededWrite? (store : σ) (constraints : List Constraint) (d : Direction) (l : Link) :
    Option PendingWrite :=
  match neededWrite store constraints d l with
  | .ok write => write
  | .error _ => none

variable {store : σ} {constraints : List Constraint} {d : Direction} {links : List Link}

theorem pendingWrites_cons (store : σ) (constraints : List Constraint) (d : Direction) (l : Link)
    (rest : List Link) :
    pendingWrites store constraints d (l :: rest) = (do
      let write ← neededWrite store constraints d l
      let others ← pendingWrites store constraints d rest
      .ok (write.toList ++ others)) := by
  rw [pendingWrites]
  unfold neededWrite
  generalize pendingWrites store constraints d rest = others
  split
  next => cases others <;> rfl
  next =>
    cases LinkStore.link? store l.src l.dst with
    | none => cases others <;> rfl
    | some live =>
      dsimp only
      rcases adjusted constraints d live.annotations with e | desired
      · rfl
      · rcases others with e | others
        · rfl
        · by_cases h : desired = live.annotations
          · simp [bind, Except.bind, h]
          · simp [bind, Except.bind, h]

theorem pendingWrites_eq_mapM (store : σ) (constraints : List Constraint) (d : Direction)
    (links : List Link) :
    pendingWrites store constraints d links =
      (links.mapM (neededWrite store constraints d)).map List.reduceOption := by
  induction links with
  | nil => rfl
  | cons l rest ih =>
    rw [pendingWrites_cons, ih, List.mapM_cons]
    rcases neededWrite store constraints d l with e | write
    · rfl
    · rcases rest.mapM (neededWrite store constraints d) with e | writes
      · rfl
      · cases write <;> rfl

theorem pendingWrites_isOk_iff :
    (∃ writes, pendingWrites store constraints d links = .ok writes) ↔
      ∀ l ∈ links, ∃ write, neededWrite store constraints d l = .ok write := by
  rw [pendingWrites_eq_mapM, ← Except.mapM_isOk_iff]
  cases links.mapM (neededWrite store constraints d) <;> simp [Except.map]

/-- When no link is refused, the writes are those that the links need. -/
theorem pendingWrites_eq_ok {writes : List PendingWrite}
    (h : pendingWrites store constraints d links = .ok writes) :
    writes = links.filterMap (neededWrite? store constraints d) := by
  induction links generalizing writes with
  | nil => exact (Except.ok.inj h).symm
  | cons l rest ih =>
    rw [pendingWrites_cons] at h
    obtain ⟨write, hwrite, h⟩ := Except.bind_eq_ok_iff.1 h
    obtain ⟨others, hothers, h⟩ := Except.bind_eq_ok_iff.1 h
    have hneeded : neededWrite? store constraints d l = write := by
      rw [neededWrite?, hwrite]
    rw [← Except.ok.inj h, ih hothers, List.filterMap_cons, hneeded]
    cases write <;> rfl

/-- Every write is either done or reported. -/
theorem performWrites_total (writer : ProviderId) (attempts : Nat) (writes : List PendingWrite)
    (store : σ) :
    (performWrites writer attempts writes store).1.updated +
      (performWrites writer attempts writes store).1.stale.length = writes.length := by
  induction writes generalizing store with
  | nil => rfl
  | cons w rest ih =>
    have hrest := ih (writeUntilRead writer w attempts store).2
    rw [performWrites, List.length_cons, ← hrest]
    dsimp only
    split
    next => exact Nat.add_right_comm _ _ _
    next => rfl

end

end HostRouting
