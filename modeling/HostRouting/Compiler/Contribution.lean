import HostRouting.Constraint
import HostRouting.LinkStore.Basic

/-!
# Contributions to annotations

An intent leaves a trace on the links it uses: under each key that its constraints limit, an upper
limit adds its threshold to the number and a lower limit subtracts it, down to zero at the least.
Removing the trace does the opposite. Of several constraints on one key the last decides.

All links are checked before the first is written. A write is tried until the store reads back what
was written; a link for which it never does is reported as stale.

Main definitions: `adjusted` and `applyContribution`.
-/

namespace HostRouting

/-- Whether a contribution is added to links or removed from them. -/
inductive Direction where
  | add
  | remove
deriving DecidableEq

/-! ## New annotations -/

/-- Whether the number grows: an upper limit that is added, or a lower limit that is removed. -/
def Direction.grows (d : Direction) (upper : Bool) : Bool :=
  match d with
  | .add => upper
  | .remove => !upper

/-- The last limit on a key: its threshold and whether it is an upper limit. -/
def lastLimit? (constraints : List Constraint) (key : String) : Option (Binary64 × Bool) :=
  (((constraints.filterMap Constraint.annotationLimit?).filter (·.1 = key)).getLast?).map (·.2)

/-- The number after a contribution. -/
def adjustedNumber (d : Direction) (threshold : Binary64) (upper : Bool) (number : Binary64) :
    Binary64 :=
  if d.grows upper then number + threshold else (number - threshold).atLeastZero

/-- The text under a key after a contribution. -/
def adjustedText (constraints : List Constraint) (d : Direction) (key value : String) :
    Except Error String :=
  match lastLimit? constraints key with
  | none => .ok value
  | some (threshold, upper) =>
    match numberOfText? value with
    | none => .error (.annotationNotNumeric key value)
    | some number => .ok (adjustedNumber d threshold upper number).text

def adjustedEntries (constraints : List Constraint) (d : Direction) :
    List (String × String) → Except Error (List (String × String))
  | [] => .ok []
  | (key, value) :: rest => do
    let value ← adjustedText constraints d key value
    let rest ← adjustedEntries constraints d rest
    .ok ((key, value) :: rest)

/-- The annotations after a contribution; the first key in order that is no number is the error. -/
def adjusted (constraints : List Constraint) (d : Direction) (current : Annotations) :
    Except Error Annotations :=
  (adjustedEntries constraints d current.entries).map SortedMap.ofList

/-! ## Writing -/

/-- A link as stored and the annotations it is to have. -/
structure PendingWrite where
  live : Link
  desired : Annotations

/-- What became of the writes. -/
structure ContributionReport where
  /-- How many links read back as they were written. -/
  updated : Nat
  /-- The links that never did, as they were before. -/
  stale : List Link
deriving DecidableEq

section

variable {σ : Type} [LinkStore σ]

/-- The writes that a contribution needs: those of the stored links among the given ones that do
not attach hosts and whose annotations change. -/
def pendingWrites (store : σ) (constraints : List Constraint) (d : Direction) :
    List Link → Except Error (List PendingWrite)
  | [] => .ok []
  | l :: rest => do
    if l.isEdge then pendingWrites store constraints d rest
    else
      match LinkStore.link? store l.src l.dst with
      | none => pendingWrites store constraints d rest
      | some live =>
        let desired ← adjusted constraints d live.annotations
        let others ← pendingWrites store constraints d rest
        .ok (if desired = live.annotations then others else ⟨live, desired⟩ :: others)

/-- Writes until the store reads back what is desired, at most the given number of times, and says
whether it did. -/
def writeUntilRead (writer : ProviderId) (w : PendingWrite) : Nat → σ → Bool × σ
  | 0, store => (false, store)
  | n + 1, store =>
    let store := (LinkStore.createOrUpdate store writer (w.live.describe w.desired)).1
    match LinkStore.link? store w.live.src w.live.dst with
    | none => (false, store)
    | some current =>
      if current.annotations = w.desired then (true, store) else writeUntilRead writer w n store

def performWrites (writer : ProviderId) (attempts : Nat) :
    List PendingWrite → σ → ContributionReport × σ
  | [], store => (⟨0, []⟩, store)
  | w :: rest, store =>
    let (written, store) := writeUntilRead writer w attempts store
    let (report, store) := performWrites writer attempts rest store
    if written then ({ report with updated := report.updated + 1 }, store)
    else ({ report with stale := w.live :: report.stale }, store)

/-- Adds a contribution to links, or removes it. After an error nothing is written. -/
def applyContribution (writer : ProviderId) (attempts : Nat) (store : σ)
    (constraints : List Constraint) (links : List Link) (d : Direction) :
    Except Error (ContributionReport × σ) := do
  let writes ← pendingWrites store constraints d links
  .ok (performWrites writer attempts writes store)

end

end HostRouting
