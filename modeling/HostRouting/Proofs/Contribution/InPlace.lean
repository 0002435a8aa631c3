import HostRouting.Proofs.Contribution.Needs

/-!
# A contribution on a store that changes in place

`applyContribution` gives a new store or an error. Here the same contribution is a program that
reads the store, writes to it and may fail: what was written before a failure stays written. The two
do the same, and a contribution that fails has written nothing, because all links are looked at
before the first of them is written (`run_contributeInPlace`).

A store can keep a record of the writes that are asked of it (`Recorded`), so what holds for every
store also holds for the writes.
-/

namespace HostRouting

/-! ## Recorded writes -/

/-- A write that is asked of a store. -/
structure WriteCall where
  writer : ProviderId
  description : LinkDescription
deriving DecidableEq

/-- A store with the writes that have been asked of it, in order. -/
structure Recorded (σ : Type) where
  store : σ
  calls : List WriteCall

/-- A store of which nothing has been asked yet. -/
def Recorded.start {σ : Type} (store : σ) : Recorded σ := ⟨store, []⟩

instance {σ : Type} [LinkStore σ] : LinkStore (Recorded σ) where
  link? s := LinkStore.link? s.store
  links s := LinkStore.links s.store
  createOrUpdate s writer d :=
    let result := LinkStore.createOrUpdate s.store writer d
    (⟨result.1, s.calls ++ [⟨writer, d⟩]⟩, result.2)
  remove s src dst :=
    let result := LinkStore.remove s.store src dst
    (⟨result.1, s.calls⟩, result.2)

/-! ## The program -/

/-- Programs on a store that changes in place. A failure takes nothing back. -/
abbrev InPlace (σ : Type) := ExceptT Error (StateM σ)

namespace InPlace

variable {σ α β : Type}

theorem run_get (store : σ) : (get : InPlace σ σ).run.run store = (.ok store, store) := rfl

theorem run_modify (f : σ → σ) (store : σ) :
    (modify f : InPlace σ PUnit).run.run store = (.ok ⟨⟩, f store) := rfl

/-- A computation that does not touch the store leaves it as it is. -/
theorem run_lift (x : Except Error α) (store : σ) :
    (liftM x : InPlace σ α).run.run store = (x, store) := by
  cases x <;> rfl

/-- The second program runs on what the first leaves, unless the first has failed. -/
theorem run_bind (x : InPlace σ α) (f : α → InPlace σ β) (store : σ) :
    (x >>= f).run.run store =
      match x.run.run store with
      | (.ok a, store') => (f a).run.run store'
      | (.error e, store') => (.error e, store') := by
  rw [ExceptT.run_bind, StateT.run_bind]
  rcases x.run.run store with ⟨_ | _, _⟩ <;> rfl

end InPlace

/-- The report with what became of one more write. -/
def ContributionReport.noting (report : ContributionReport) (live : Link) (written : Bool) :
    ContributionReport :=
  if written then { report with updated := report.updated + 1 }
  else { report with stale := report.stale ++ [live] }

section

variable {σ : Type} [LinkStore σ]

/-- Looks at a link and notes the write that it needs, if any. -/
def noteInPlace (constraints : List Constraint) (d : Direction) (found : List PendingWrite)
    (l : Link) : InPlace σ (List PendingWrite) := do
  if l.isEdge then return found
  match LinkStore.link? (← get) l.src l.dst with
  | none => return found
  | some live =>
    let desired ← adjusted constraints d live.annotations
    if desired = live.annotations then return found
    return found ++ [⟨live, desired⟩]

/-- Writes until the store reads back what is desired, and says whether it did. -/
def writeInPlace (writer : ProviderId) (w : PendingWrite) : Nat → InPlace σ Bool
  | 0 => return false
  | n + 1 => do
    modify fun store => (LinkStore.createOrUpdate store writer (w.live.describe w.desired)).1
    match LinkStore.link? (← get) w.live.src w.live.dst with
    | none => return false
    | some current =>
      if current.annotations = w.desired then return true
      writeInPlace writer w n

/-- Writes a link and notes what became of it. -/
def settleInPlace (writer : ProviderId) (attempts : Nat) (report : ContributionReport)
    (w : PendingWrite) : InPlace σ ContributionReport := do
  let written ← writeInPlace writer w attempts
  return report.noting w.live written

/-- Adjusts links: all of them are looked at one after the other, and then those that were noted are
written one after the other. -/
def contributeInPlace (writer : ProviderId) (attempts : Nat) (constraints : List Constraint)
    (links : List Link) (d : Direction) : InPlace σ ContributionReport := do
  let found ← links.foldlM (noteInPlace constraints d) []
  found.foldlM (settleInPlace writer attempts) ⟨0, []⟩

/-- A store of which nothing has been asked reads as the store itself. -/
theorem pendingWrites_start (store : σ) (constraints : List Constraint) (d : Direction)
    (links : List Link) :
    pendingWrites (Recorded.start store) constraints d links =
      pendingWrites store constraints d links := by
  induction links with
  | nil => rfl
  | cons l rest ih =>
    rw [pendingWrites_cons, pendingWrites_cons, ih]
    rfl

/-! ## Both do the same -/

theorem run_noteInPlace (constraints : List Constraint) (d : Direction)
    (found : List PendingWrite) (l : Link) (store : σ) :
    (noteInPlace constraints d found l).run.run store =
      ((neededWrite store constraints d l).map (found ++ ·.toList), store) := by
  have hnone : (pure found : InPlace σ (List PendingWrite)).run.run store =
      ((Except.ok none).map (found ++ Option.toList ·), store) := by
    rw [Except.map, Option.toList_none, List.append_nil]
    rfl
  unfold noteInPlace neededWrite
  cases l.isEdge with
  | true => exact hnone
  | false =>
    rw [if_neg Bool.false_ne_true, if_neg Bool.false_ne_true, InPlace.run_bind, InPlace.run_get]
    dsimp only
    cases LinkStore.link? store l.src l.dst with
    | none => exact hnone
    | some live =>
      dsimp only
      rw [InPlace.run_bind, InPlace.run_lift]
      rcases adjusted constraints d live.annotations with e | desired
      · rfl
      · by_cases hsame : desired = live.annotations
        · simpa [hsame, bind, Except.bind] using hnone
        · simp [hsame, bind, Except.bind, Except.map]
          rfl

theorem run_noteAll (constraints : List Constraint) (d : Direction) (found : List PendingWrite)
    (links : List Link) (store : σ) :
    (links.foldlM (noteInPlace constraints d) found).run.run store =
      ((pendingWrites store constraints d links).map (found ++ ·), store) := by
  induction links generalizing found with
  | nil =>
    rw [List.foldlM_nil, pendingWrites, Except.map, List.append_nil]
    rfl
  | cons l rest ih =>
    rw [List.foldlM_cons, InPlace.run_bind, run_noteInPlace, pendingWrites_cons]
    rcases neededWrite store constraints d l with e | write
    · rfl
    · show StateT.run (ExceptT.run (List.foldlM _ (found ++ write.toList) rest)) store = _
      rw [ih]
      rcases pendingWrites store constraints d rest with e | others
      · rfl
      · rw [Except.map, List.append_assoc]
        rfl

theorem run_writeInPlace (writer : ProviderId) (w : PendingWrite) (attempts : Nat) (store : σ) :
    (writeInPlace writer w attempts).run.run store =
      (.ok (writeUntilRead writer w attempts store).1,
        (writeUntilRead writer w attempts store).2) := by
  induction attempts generalizing store with
  | zero => rfl
  | succ n ih =>
    rw [writeInPlace, writeUntilRead, InPlace.run_bind, InPlace.run_modify]
    dsimp only
    rw [InPlace.run_bind, InPlace.run_get]
    dsimp only
    generalize (LinkStore.createOrUpdate store writer (w.live.describe w.desired)).1 = written
    cases LinkStore.link? written w.live.src w.live.dst with
    | none => rfl
    | some current =>
      by_cases hread : current.annotations = w.desired
      · dsimp only
        rw [if_pos hread, if_pos hread]
        rfl
      · dsimp only
        rw [if_neg hread, if_neg hread]
        exact ih written

theorem run_settleInPlace (writer : ProviderId) (attempts : Nat) (report : ContributionReport)
    (w : PendingWrite) (store : σ) :
    (settleInPlace writer attempts report w).run.run store =
      (.ok (report.noting w.live (writeUntilRead writer w attempts store).1),
        (writeUntilRead writer w attempts store).2) := by
  rw [settleInPlace, InPlace.run_bind, run_writeInPlace]
  rfl

theorem run_settleAll (writer : ProviderId) (attempts : Nat) (writes : List PendingWrite)
    (report : ContributionReport) (store : σ) :
    (writes.foldlM (settleInPlace writer attempts) report).run.run store =
      (.ok ⟨report.updated + (performWrites writer attempts writes store).1.updated,
          report.stale ++ (performWrites writer attempts writes store).1.stale⟩,
        (performWrites writer attempts writes store).2) := by
  induction writes generalizing report store with
  | nil =>
    rw [List.foldlM_nil, performWrites, List.append_nil]
    rfl
  | cons w rest ih =>
    rw [List.foldlM_cons, InPlace.run_bind, run_settleInPlace, performWrites]
    dsimp only
    rw [ih]
    cases (writeUntilRead writer w attempts store).1 with
    | true => simp [ContributionReport.noting, Nat.add_assoc, Nat.add_comm 1]
    | false => simp [ContributionReport.noting]

/-- The program does what a contribution does; when it fails it has written nothing. -/
theorem run_contributeInPlace (writer : ProviderId) (attempts : Nat)
    (constraints : List Constraint) (links : List Link) (d : Direction) (store : σ) :
    (contributeInPlace writer attempts constraints links d).run.run store =
      match applyContribution writer attempts store constraints links d with
      | .ok (report, after) => (.ok report, after)
      | .error e => (.error e, store) := by
  rw [contributeInPlace, InPlace.run_bind, run_noteAll, applyContribution]
  rcases pendingWrites store constraints d links with e | writes
  · rfl
  · show StateT.run (ExceptT.run (writes.foldlM (settleInPlace writer attempts) ⟨0, []⟩)) store = _
    rw [run_settleAll, Nat.zero_add]
    rfl

end

end HostRouting
