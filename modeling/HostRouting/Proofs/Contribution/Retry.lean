import HostRouting.LinkStore.Faulty
import HostRouting.Proofs.Contribution.Validation
import Mathlib.Logic.Function.Iterate

/-!
# Writes to a store that need not obey

A store may store something else than it is asked, or nothing, or lose the link, and differently
each time. A link is then written again, up to a bound.

1. The writes to one link are a run. It stops at the first write after which the link reads back as
   desired or is gone, and otherwise at the bound (`WriteRun.Bounded`, `exists_writeRun`).
2. The runs of a contribution follow one another, one for each link that needs a write, and the
   report is read off their ends (`exists_writeRuns`).

Main fact: `applyContribution_retries`.
-/

namespace HostRouting

section

variable {σ : Type} [LinkStore σ]

/-! ## One write -/

namespace PendingWrite

/-- What the write asks of the store. -/
def call (writer : ProviderId) (w : PendingWrite) : WriteCall :=
  ⟨writer, w.live.describe w.desired⟩

/-- The store after the write is asked of it. -/
def asked (writer : ProviderId) (w : PendingWrite) (store : σ) : σ :=
  (LinkStore.createOrUpdate store writer (w.live.describe w.desired)).1

/-- The annotations that the store reads back, if it has the link. -/
def read (w : PendingWrite) (store : σ) : Option Annotations :=
  (LinkStore.link? store w.live.src w.live.dst).map Link.annotations

/-- There is nothing more to be done: the link reads back as desired or is gone. -/
def Settled (w : PendingWrite) (store : σ) : Prop :=
  w.read store = some w.desired ∨ w.read store = none

variable {writer : ProviderId} {w : PendingWrite} {store : σ} {n : Nat}

theorem writeUntilRead_of_settled (h : w.Settled (w.asked writer store)) :
    writeUntilRead writer w (n + 1) store =
      (decide (w.read (w.asked writer store) = some w.desired), w.asked writer store) := by
  rw [writeUntilRead]
  unfold Settled read asked at *
  cases hlink : LinkStore.link? (LinkStore.createOrUpdate store writer
      (w.live.describe w.desired)).1 w.live.src w.live.dst with
  | none => simp
  | some current =>
    have hread : current.annotations = w.desired := by simpa [hlink] using h
    simp [hread]

theorem writeUntilRead_of_unsettled (h : ¬w.Settled (w.asked writer store)) :
    writeUntilRead writer w (n + 1) store =
      writeUntilRead writer w n (w.asked writer store) := by
  rw [writeUntilRead]
  unfold Settled read asked at *
  cases hlink : LinkStore.link? (LinkStore.createOrUpdate store writer
      (w.live.describe w.desired)).1 w.live.src w.live.dst with
  | none => simp [hlink] at h
  | some current =>
    have hread : current.annotations ≠ w.desired := by simpa [hlink] using h
    simp [hread]

end PendingWrite

/-! ## Runs -/

/-- Writes to one link, one after the other. -/
structure WriteRun (σ : Type) where
  write : PendingWrite
  /-- The store before the first of them. -/
  before : σ
  /-- How many there are. -/
  count : Nat

namespace WriteRun

/-- The store after the first writes. -/
def storeAt (writer : ProviderId) (r : WriteRun σ) (n : Nat) : σ :=
  (r.write.asked writer)^[n] r.before

/-- The store after all writes. -/
def last (writer : ProviderId) (r : WriteRun σ) : σ := r.storeAt writer r.count

/-- The link has been written and reads back as desired. -/
def isReadBack (writer : ProviderId) (r : WriteRun σ) : Bool :=
  0 < r.count && r.write.read (r.last writer) = some r.write.desired

/-- All that the run asks of the store. -/
def calls (writer : ProviderId) (r : WriteRun σ) : List WriteCall :=
  List.replicate r.count (r.write.call writer)

/-- The run goes on until there is nothing more to be done or the bound is reached. -/
structure Bounded (writer : ProviderId) (attempts : Nat) (r : WriteRun σ) : Prop where
  count_le : r.count ≤ attempts
  unsettled : ∀ n, 0 < n → n < r.count → ¬r.write.Settled (r.storeAt writer n)
  settled : r.count < attempts → 0 < r.count ∧ r.write.Settled (r.last writer)

variable {writer : ProviderId} {attempts : Nat} {r : WriteRun σ} {store : σ}

/-- The run with a write before it. -/
def begun (r : WriteRun σ) (store : σ) : WriteRun σ := ⟨r.write, store, r.count + 1⟩

theorem storeAt_begun (h : r.before = r.write.asked writer store) (n : Nat) :
    (r.begun store).storeAt writer (n + 1) = r.storeAt writer n := by
  unfold storeAt begun
  rw [Function.iterate_succ_apply, h]

theorem last_begun (h : r.before = r.write.asked writer store) :
    (r.begun store).last writer = r.last writer := storeAt_begun h r.count

theorem Bounded.begun (hr : r.Bounded writer attempts) (h : r.before = r.write.asked writer store)
    (hfirst : ¬r.write.Settled r.before) : (r.begun store).Bounded writer (attempts + 1) := by
  refine ⟨Nat.succ_le_succ hr.count_le, fun n hpos hn => ?_, fun hlt => ?_⟩
  · obtain ⟨m, rfl⟩ : ∃ m, n = m + 1 := ⟨n - 1, by omega⟩
    rw [storeAt_begun h]
    rcases Nat.eq_zero_or_pos m with rfl | hm
    · exact hfirst
    · exact hr.unsettled m hm (Nat.lt_of_succ_lt_succ hn)
  · rw [last_begun h]
    exact ⟨Nat.succ_pos _, (hr.settled (Nat.lt_of_succ_lt_succ hlt)).2⟩

theorem isReadBack_begun (h : r.before = r.write.asked writer store)
    (hfirst : ¬r.write.Settled r.before) :
    (r.begun store).isReadBack writer = r.isReadBack writer := by
  unfold isReadBack
  rw [last_begun h]
  rcases Nat.eq_zero_or_pos r.count with hcount | hcount
  · have hread : r.write.read (r.last writer) ≠ some r.write.desired := by
      unfold last
      rw [hcount]
      exact fun heq => hfirst (.inl heq)
    simp [hcount, begun, hread]
  · rw [decide_eq_true hcount, decide_eq_true (show 0 < (r.begun store).count from Nat.succ_pos _)]
    rfl

end WriteRun

variable {writer : ProviderId}

/-- The writes until a link reads back as desired are a bounded run. -/
theorem exists_writeRun (writer : ProviderId) (attempts : Nat) (w : PendingWrite) (store : σ) :
    ∃ r : WriteRun σ, r.write = w ∧ r.before = store ∧ r.Bounded writer attempts ∧
      writeUntilRead writer w attempts store = (r.isReadBack writer, r.last writer) ∧
      ∀ calls, writeUntilRead writer w attempts (⟨store, calls⟩ : Recorded σ) =
        (r.isReadBack writer, ⟨r.last writer, calls ++ r.calls writer⟩) := by
  induction attempts generalizing store with
  | zero =>
    refine ⟨⟨w, store, 0⟩, rfl, rfl, ⟨Nat.le_refl 0, ?_, ?_⟩, rfl, fun calls => ?_⟩
    · exact fun n _ hn => absurd hn (Nat.not_lt_zero n)
    · exact fun h => absurd h (Nat.not_lt_zero 0)
    · exact Prod.ext rfl (congrArg (Recorded.mk store) (List.append_nil calls).symm)
  | succ n ih =>
    -- A store that is recorded reads as the store itself.
    have hrecorded : ∀ calls, w.Settled (w.asked writer (⟨store, calls⟩ : Recorded σ)) ↔
        w.Settled (w.asked writer store) := fun _ => Iff.rfl
    by_cases hsettled : w.Settled (w.asked writer store)
    · refine ⟨⟨w, store, 1⟩, rfl, rfl, ⟨Nat.succ_le_succ n.zero_le, ?_, ?_⟩, ?_, fun calls => ?_⟩
      · exact fun m hpos hm => absurd hm (Nat.not_lt.2 hpos)
      · exact fun _ => ⟨Nat.one_pos, hsettled⟩
      · rw [PendingWrite.writeUntilRead_of_settled hsettled]
        exact Prod.ext (Bool.true_and _).symm rfl
      · rw [PendingWrite.writeUntilRead_of_settled ((hrecorded calls).2 hsettled)]
        exact Prod.ext (Bool.true_and _).symm rfl
    · obtain ⟨r, rfl, hbefore, hbounded, hrun, hcalls⟩ := ih (w.asked writer store)
      have hfirst : ¬r.write.Settled r.before := hbefore ▸ hsettled
      refine ⟨r.begun store, rfl, rfl, hbounded.begun hbefore hfirst, ?_, fun calls => ?_⟩
      · rw [PendingWrite.writeUntilRead_of_unsettled hsettled, hrun,
          WriteRun.isReadBack_begun hbefore hfirst, WriteRun.last_begun hbefore]
      · rw [PendingWrite.writeUntilRead_of_unsettled (mt (hrecorded calls).1 hsettled)]
        have := hcalls (calls ++ [r.write.call writer])
        rw [List.append_assoc] at this
        rw [WriteRun.isReadBack_begun hbefore hfirst, WriteRun.last_begun hbefore]
        exact this

/-! ## A whole contribution -/

/-- Each run begins where the one before it has ended. -/
def FollowOn (writer : ProviderId) : List (WriteRun σ) → σ → σ → Prop
  | [], store, last => store = last
  | r :: rest, store, last => r.before = store ∧ FollowOn writer rest (r.last writer) last

/-- Bounded runs, one for each of the writes and in their order, lead from one store to another, and
this is the report on them. -/
structure Retried (writer : ProviderId) (attempts : Nat) (writes : List PendingWrite)
    (store last : σ) (report : ContributionReport) (runs : List (WriteRun σ)) : Prop where
  writes : runs.map (·.write) = writes
  bounded : ∀ r ∈ runs, r.Bounded writer attempts
  inTurn : FollowOn writer runs store last
  updated : report.updated = runs.countP (·.isReadBack writer)
  stale : report.stale = (runs.filter (!·.isReadBack writer)).map (·.write.live)

theorem Retried.cons {attempts : Nat} {r : WriteRun σ} {runs : List (WriteRun σ)}
    {writes : List PendingWrite} {last : σ} {report : ContributionReport}
    (h : Retried writer attempts writes (r.last writer) last report runs)
    (hr : r.Bounded writer attempts) :
    Retried writer attempts (r.write :: writes) r.before last
      (if r.isReadBack writer then { report with updated := report.updated + 1 }
        else { report with stale := r.write.live :: report.stale }) (r :: runs) := by
  refine ⟨congrArg _ h.writes, List.forall_mem_cons.2 ⟨hr, h.bounded⟩, ⟨rfl, h.inTurn⟩, ?_, ?_⟩
  · rw [List.countP_cons, ← h.updated]
    split <;> rfl
  · rw [List.filter_cons]
    cases r.isReadBack writer with
    | true => exact h.stale
    | false => exact congrArg _ h.stale

/-- The writes of a contribution are bounded runs in turn. -/
theorem exists_writeRuns (writer : ProviderId) (attempts : Nat) (writes : List PendingWrite)
    (store : σ) :
    ∃ runs last report, Retried writer attempts writes store last report runs ∧
      performWrites writer attempts writes store = (report, last) ∧
      ∀ calls, performWrites writer attempts writes (⟨store, calls⟩ : Recorded σ) =
        (report, ⟨last, calls ++ runs.flatMap (·.calls writer)⟩) := by
  induction writes generalizing store with
  | nil =>
    refine ⟨[], store, ⟨0, []⟩, ⟨rfl, by simp, rfl, rfl, rfl⟩, rfl, fun calls => ?_⟩
    rw [List.flatMap_nil, List.append_nil]
    rfl
  | cons w rest ih =>
    obtain ⟨r, rfl, rfl, hbounded, hrun, hcalls⟩ := exists_writeRun writer attempts w store
    obtain ⟨runs, last, report, hretried, hruns, hrecorded⟩ := ih (r.last writer)
    refine ⟨r :: runs, last, _, hretried.cons hbounded, ?_, fun calls => ?_⟩
    · rw [performWrites, hrun]
      dsimp only
      rw [hruns]
      split <;> rfl
    · rw [performWrites, hcalls]
      dsimp only
      rw [hrecorded, List.flatMap_cons, List.append_assoc]
      split <;> rfl

/-- Whatever a store does with the writes asked of it, a contribution to links without a text in the
way gives a report. It writes the links that need it, each in a run that is bounded (a link given
twice in two runs), and asks for nothing else; the links that the runs did not leave as desired are
reported as stale. -/
theorem applyContribution_retries (writer : ProviderId) (attempts : Nat) (store : σ)
    {constraints : List Constraint} {links : List Link} (d : Direction)
    (h : ∀ l ∈ links, ∀ key value, ¬NotNumeric store constraints l key value) :
    ∃ runs last report,
      Retried writer attempts (links.filterMap (neededWrite? store constraints d)) store last report
        runs ∧
      applyContribution writer attempts store constraints links d = .ok (report, last) ∧
      applyContribution writer attempts (Recorded.start store) constraints links d =
        .ok (report, ⟨last, runs.flatMap (·.calls writer)⟩) ∧
      report.updated + report.stale.length =
        (links.filterMap (neededWrite? store constraints d)).length := by
  obtain ⟨writes, hwrites⟩ := pendingWrites_isOk_iff.2 fun l hl =>
    neededWrite_isOk_iff (d := d).2 (h l hl)
  obtain rfl := pendingWrites_eq_ok hwrites
  obtain ⟨runs, last, report, hretried, hruns, hrecorded⟩ :=
    exists_writeRuns writer attempts _ store
  refine ⟨runs, last, report, hretried, ?_, ?_, ?_⟩
  · rw [applyContribution, hwrites, ← hruns]
    rfl
  · rw [applyContribution, pendingWrites_start, hwrites]
    exact congrArg Except.ok (hrecorded [])
  · rw [← performWrites_total writer attempts _ store, hruns]

end

namespace Sample

/-- A link between two devices with a latency. -/
def timed (src dst latency : String) : Link :=
  { Link.between ⟨.device ⟨src⟩, 1⟩ ⟨.device ⟨dst⟩, 2⟩ .direct with
    annotations := .ofList [("latency", latency), ("note", "fibre")] }

/-- Two links in a row. -/
def line : LinkTable :=
  (LinkTable.empty.insert (timed "s1" "s2" "10")).insert (timed "s2" "s3" "7.5")

/-- The links, one that is not stored, and the attachment of a host. -/
def crossed : List Link :=
  [timed "s1" "s2" "0", Link.between ⟨.host ⟨"h1"⟩, 0⟩ ⟨.device ⟨"s1"⟩, 3⟩ .edge,
    timed "s2" "s4" "0", timed "s2" "s3" "0"]

/-- Two upper limits on the latency. -/
def latencyLimits : List Constraint := [.limit "latency" 3 true, .atMost "latency" 20]

/-- The next three writes store another latency. -/
def unsteady : FaultyLinks :=
  { FaultyLinks.ofTable line with fault := some (.overwrite "latency" "1", 3) }

end Sample

/-- Both writes to the first link fail, and the first of those to the second. -/
theorem applyContribution_retries_sample :
    (∀ l ∈ Sample.crossed, ∀ key value,
      ¬NotNumeric Sample.unsteady Sample.latencyLimits l key value) ∧
    ∃ runs last, Retried .core 2
        (Sample.crossed.filterMap (neededWrite? Sample.unsteady Sample.latencyLimits .add))
        Sample.unsteady last ⟨1, [Sample.timed "s1" "s2" "10"]⟩ runs ∧
      applyContribution .core 2 (Recorded.start Sample.unsteady) Sample.latencyLimits
        Sample.crossed .add = .ok (⟨1, [Sample.timed "s1" "s2" "10"]⟩,
          ⟨last, runs.flatMap (·.calls .core)⟩) := by
  have hresult : ((applyContribution .core 2 Sample.unsteady Sample.latencyLimits Sample.crossed
      .add).map Prod.fst).toOption = some ⟨1, [Sample.timed "s1" "s2" "10"]⟩ := by decide +kernel
  have hclear : ∀ l ∈ Sample.crossed, ∀ key value,
      ¬NotNumeric Sample.unsteady Sample.latencyLimits l key value := by
    refine applyContribution_isOk_iff.1 (?_ : ∃ result, applyContribution .core 2 Sample.unsteady
      Sample.latencyLimits Sample.crossed .add = .ok result)
    cases happly : applyContribution .core 2 Sample.unsteady Sample.latencyLimits Sample.crossed
      .add with
    | ok result => exact ⟨result, rfl⟩
    | error e =>
      rw [happly] at hresult
      exact nomatch hresult
  obtain ⟨runs, last, report, hretried, happly, hrecorded, -⟩ :=
    applyContribution_retries .core 2 Sample.unsteady .add hclear
  rw [happly] at hresult
  obtain rfl : report = _ := Option.some.inj hresult
  exact ⟨hclear, runs, last, hretried, hrecorded⟩

end HostRouting
