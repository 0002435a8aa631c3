import HostRouting.LinkStore.Table
import HostRouting.Proofs.Contribution.Needs

/-!
# What one contribution does to a table of links

1. Exactly the stored links that the given ones touch are planned to be written
   (`pendingWrites_spec`).
2. A table reads back what is written, so every write is done after one attempt, and a link that is
   planned twice is written once (`performWrites_spec`).

Main facts: `applyContribution_spec` and `applyContribution_isOk`.
-/

namespace HostRouting

/-! ## Planned writes -/

/-- Some link among the given ones, not an attachment of a host, has these ends. -/
def Touches (links : List Link) (e : Endpoints) : Prop :=
  ∃ l ∈ links, l.isEdge = false ∧ l.endpoints = e

instance (links : List Link) (e : Endpoints) : Decidable (Touches links e) :=
  inferInstanceAs (Decidable (∃ l ∈ links, _))

theorem touches_cons {l : Link} {links : List Link} {e : Endpoints} :
    Touches (l :: links) e ↔ (l.isEdge = false ∧ l.endpoints = e) ∨ Touches links e := by
  unfold Touches
  simp

/-- The stored link with the ends of a planned write is the one it was planned for. -/
structure Planned (constraints : List Constraint) (d : Direction) (table : LinkTable)
    (w : PendingWrite) : Prop where
  stored : table.link? w.live.src w.live.dst = some w.live
  desired : adjusted constraints d w.live.annotations = .ok w.desired

/-- Writes planned for one link are the same. -/
theorem Planned.unique {constraints : List Constraint} {d : Direction} {table : LinkTable}
    {v w : PendingWrite} (hv : Planned constraints d table v) (hw : Planned constraints d table w)
    (h : v.live.endpoints = w.live.endpoints) : v = w := by
  obtain ⟨hs, hd⟩ := Endpoints.mk.inj h
  have hlive : v.live = w.live := by
    have := hv.stored
    rw [hs, hd, hw.stored] at this
    exact (Option.some.inj this).symm
  have hdesired : v.desired = w.desired := by
    have := hv.desired
    rw [hlive, hw.desired] at this
    exact (Except.ok.inj this).symm
  cases v; cases w
  simp_all

/-- The plan of a contribution covers what the links touch and what is to change there. -/
structure Plan (constraints : List Constraint) (d : Direction) (table : LinkTable)
    (links : List Link) (writes : List PendingWrite) : Prop where
  planned : ∀ w ∈ writes, Planned constraints d table w
  touched : ∀ w ∈ writes, Touches links w.live.endpoints
  complete : ∀ e l, Touches links e → table.link? e.src e.dst = some l →
    ∃ a, adjusted constraints d l.annotations = .ok a ∧ (a = l.annotations ∨ ⟨l, a⟩ ∈ writes)

theorem Plan.skip {constraints : List Constraint} {d : Direction} {table : LinkTable} {l : Link}
    {links : List Link} {writes : List PendingWrite} (h : Plan constraints d table links writes)
    (hl : l.isEdge = true ∨ table.link? l.src l.dst = none) :
    Plan constraints d table (l :: links) writes := by
  refine ⟨h.planned, fun w hw => touches_cons.2 (.inr (h.touched w hw)),
    fun e live he hlive => h.complete e live ?_ hlive⟩
  rcases touches_cons.1 he with ⟨hedge, rfl⟩ | he
  · rcases hl with hl | hl
    · rw [hl] at hedge
      exact Bool.noConfusion hedge
    · have : table.link? l.src l.dst = some live := hlive
      rw [hl] at this
      exact nomatch this
  · exact he

theorem Plan.add {constraints : List Constraint} {d : Direction} {table : LinkTable}
    {l live : Link} {links : List Link} {desired : Annotations} {writes : List PendingWrite}
    (h : Plan constraints d table links writes) (hedge : l.isEdge = false)
    (hlive : table.link? l.src l.dst = some live)
    (hdesired : adjusted constraints d live.annotations = .ok desired) :
    Plan constraints d table (l :: links)
      (if desired = live.annotations then writes else ⟨live, desired⟩ :: writes) := by
  have hends : live.endpoints = l.endpoints := LinkTable.endpoints_of_link? hlive
  have hmem {w : PendingWrite}
      (hw : w ∈ if desired = live.annotations then writes else ⟨live, desired⟩ :: writes) :
      w = ⟨live, desired⟩ ∨ w ∈ writes := by
    split at hw
    · exact .inr hw
    · exact List.mem_cons.1 hw
  refine ⟨fun w hw => ?_, fun w hw => ?_, fun e stored he hstored => ?_⟩
  · rcases hmem hw with rfl | hw
    · refine ⟨?_, hdesired⟩
      obtain ⟨hs, hd⟩ := Endpoints.mk.inj hends
      show table.link? live.src live.dst = some live
      rw [hs, hd]
      exact hlive
    · exact h.planned w hw
  · rcases hmem hw with rfl | hw
    · exact touches_cons.2 (.inl ⟨hedge, hends.symm⟩)
    · exact touches_cons.2 (.inr (h.touched w hw))
  · rcases touches_cons.1 he with ⟨-, rfl⟩ | he
    · obtain rfl : live = stored := Option.some.inj (hlive.symm.trans hstored)
      refine ⟨desired, hdesired, ?_⟩
      by_cases hsame : desired = live.annotations
      · exact .inl hsame
      · rw [if_neg hsame]
        exact .inr List.mem_cons_self
    · obtain ⟨a, ha, hcase⟩ := h.complete e stored he hstored
      refine ⟨a, ha, hcase.imp_right fun hm => ?_⟩
      split
      · exact hm
      · exact List.mem_cons_of_mem _ hm

theorem pendingWrites_spec {constraints : List Constraint} {d : Direction} {table : LinkTable}
    {links : List Link} {writes : List PendingWrite}
    (h : pendingWrites table constraints d links = .ok writes) :
    Plan constraints d table links writes := by
  induction links generalizing writes with
  | nil =>
    rw [← Except.ok.inj h]
    exact ⟨by simp, by simp, by simp [Touches]⟩
  | cons l rest ih =>
    rw [pendingWrites] at h
    split at h
    next hedge => exact (ih h).skip (.inl hedge)
    next hedge =>
      split at h
      next hnone => exact (ih h).skip (.inr hnone)
      next live hlive =>
        obtain ⟨desired, hdesired, h⟩ := Except.bind_eq_ok_iff.1 h
        obtain ⟨others, hothers, h⟩ := Except.bind_eq_ok_iff.1 h
        rw [← Except.ok.inj h]
        exact (ih hothers).add (by simpa using hedge) hlive hdesired

/-- A contribution is refused only for a touched link that cannot be adjusted. -/
theorem pendingWrites_isOk {constraints : List Constraint} {d : Direction} {table : LinkTable}
    {links : List Link}
    (h : ∀ e l, Touches links e → table.link? e.src e.dst = some l →
      ∃ a, adjusted constraints d l.annotations = .ok a) :
    ∃ writes, pendingWrites table constraints d links = .ok writes := by
  refine pendingWrites_isOk_iff.2 fun l hl => ?_
  unfold neededWrite
  split
  next => exact ⟨none, rfl⟩
  next hedge =>
    split
    next => exact ⟨none, rfl⟩
    next live hlive =>
      obtain ⟨desired, hdesired⟩ := h l.endpoints live ⟨l, hl, by simpa using hedge, rfl⟩ hlive
      rw [hdesired]
      exact ⟨_, rfl⟩

/-! ## Writing -/

/-- A stored link after annotations are written to it. Nothing is written when they are the same. -/
def Link.annotated (writer : ProviderId) (l : Link) (a : Annotations) : Link :=
  if a = l.annotations then l else { l with annotations := a, provider := writer }

section

variable {writer : ProviderId} {l : Link} {a : Annotations}

@[simp] theorem Link.annotated_annotations : (l.annotated writer a).annotations = a := by
  unfold Link.annotated
  split
  next h => exact h.symm
  next => rfl

@[simp] theorem Link.annotated_endpoints : (l.annotated writer a).endpoints = l.endpoints := by
  unfold Link.annotated
  split <;> rfl

@[simp] theorem Link.annotated_type : (l.annotated writer a).type = l.type := by
  unfold Link.annotated
  split <;> rfl

@[simp] theorem Link.annotated_state : (l.annotated writer a).state = l.state := by
  unfold Link.annotated
  split <;> rfl

@[simp] theorem Link.annotated_expected : (l.annotated writer a).expected = l.expected := by
  unfold Link.annotated
  split <;> rfl

@[simp] theorem Link.annotated_self : l.annotated writer l.annotations = l := if_pos rfl

@[simp] theorem Link.annotated_annotated :
    (l.annotated writer a).annotated writer a = l.annotated writer a :=
  if_pos Link.annotated_annotations.symm

end

theorem LinkTable.link?_createOrUpdate_of_ne (table : LinkTable) (writer : ProviderId)
    {d : LinkDescription} {e : Endpoints} (he : e ≠ d.endpoints) :
    (table.createOrUpdate writer d).1.link? e.src e.dst = table.link? e.src e.dst := by
  unfold createOrUpdate
  split
  next l hl =>
    have hends : l.endpoints = d.endpoints := LinkTable.endpoints_of_link? hl
    split
    · rfl
    · refine link?_insert_of_ne table ?_
      show e ≠ l.endpoints
      rwa [hends]
  next => exact link?_insert_of_ne table he

/-- A table stores what is written to a link in it and keeps all other links. -/
theorem LinkTable.link?_createOrUpdate {table : LinkTable} {writer : ProviderId} {l cur : Link}
    {a : Annotations} (hcur : table.link? l.src l.dst = some cur) (htype : cur.type = l.type)
    (hexpected : cur.expected = l.expected) (e : Endpoints) :
    (table.createOrUpdate writer (l.describe a)).1.link? e.src e.dst =
      if e = l.endpoints then some (cur.annotated writer a) else table.link? e.src e.dst := by
  by_cases he : e = l.endpoints
  · have hends : cur.endpoints = l.endpoints := LinkTable.endpoints_of_link? hcur
    rw [if_pos he, he]
    unfold createOrUpdate
    rw [show table.byEnds.get? (l.describe a).endpoints = some cur from hcur]
    dsimp only
    by_cases hsame : a = cur.annotations
    · rw [if_pos (by simp [isAsDescribed, Link.describe, htype, hexpected, hsame]), hsame,
        Link.annotated_self]
      exact hcur
    · have hupdated : updated cur writer (l.describe a) = cur.annotated writer a := by
        unfold updated Link.annotated Link.describe
        rw [if_neg hsame, ← htype, ← hexpected]
      have hkey : (cur.annotated writer a).endpoints = cur.endpoints := Link.annotated_endpoints
      rw [if_neg (by simp [isAsDescribed, Link.describe, Ne.symm hsame]), hupdated, ← hends, ← hkey]
      exact link?_insert_self table _
  · rw [if_neg he]
    exact table.link?_createOrUpdate_of_ne writer he

/-- However often a link is written, all others are kept. -/
theorem link?_writeUntilRead_of_ne (writer : ProviderId) {w : PendingWrite} (attempts : Nat)
    (table : LinkTable) {e : Endpoints} (he : e ≠ w.live.endpoints) :
    (writeUntilRead writer w attempts table).2.link? e.src e.dst = table.link? e.src e.dst := by
  induction attempts generalizing table with
  | zero => rfl
  | succ n ih =>
    have hfirst : (table.createOrUpdate writer (w.live.describe w.desired)).1.link? e.src e.dst =
        table.link? e.src e.dst := table.link?_createOrUpdate_of_ne writer he
    unfold writeUntilRead
    dsimp only
    split
    · exact hfirst
    · split
      · exact hfirst
      · exact (ih _).trans hfirst

theorem link?_performWrites_of_ne (writer : ProviderId) (attempts : Nat)
    {writes : List PendingWrite} (table : LinkTable) {e : Endpoints}
    (he : ∀ w ∈ writes, e ≠ w.live.endpoints) :
    (performWrites writer attempts writes table).2.link? e.src e.dst = table.link? e.src e.dst := by
  induction writes generalizing table with
  | nil => rfl
  | cons w rest ih =>
    have hfirst := link?_writeUntilRead_of_ne writer attempts table (he w List.mem_cons_self)
    have hrest := ih (writeUntilRead writer w attempts table).2
      fun v hv => he v (List.mem_cons_of_mem _ hv)
    unfold performWrites
    dsimp only
    split <;> exact hrest.trans hfirst

/-- The link that a planned write leaves. -/
def PendingWrite.written (writer : ProviderId) (w : PendingWrite) : Link :=
  w.live.annotated writer w.desired

/-- The first attempt is read back. -/
theorem writeUntilRead_spec {table : LinkTable} {writer : ProviderId} {w : PendingWrite}
    {cur : Link} {attempts : Nat} (hattempts : 0 < attempts)
    (hcur : table.link? w.live.src w.live.dst = some cur)
    (hcase : cur = w.live ∨ cur = w.written writer) :
    (writeUntilRead writer w attempts table).1 = true ∧
      ∀ e : Endpoints, (writeUntilRead writer w attempts table).2.link? e.src e.dst =
        if e = w.live.endpoints then some (w.written writer) else table.link? e.src e.dst := by
  obtain ⟨n, rfl⟩ : ∃ n, attempts = n + 1 := ⟨attempts - 1, by omega⟩
  have htype : cur.type = w.live.type ∧ cur.expected = w.live.expected := by
    rcases hcase with rfl | rfl
    · exact ⟨rfl, rfl⟩
    · exact ⟨Link.annotated_type, Link.annotated_expected⟩
  have hwritten : cur.annotated writer w.desired = w.written writer := by
    rcases hcase with rfl | rfl
    · rfl
    · exact Link.annotated_annotated
  have hwrite : ∀ e : Endpoints,
      (table.createOrUpdate writer (w.live.describe w.desired)).1.link? e.src e.dst =
        if e = w.live.endpoints then some (cur.annotated writer w.desired)
        else table.link? e.src e.dst :=
    LinkTable.link?_createOrUpdate hcur htype.1 htype.2
  rw [hwritten] at hwrite
  have hread := hwrite w.live.endpoints
  rw [if_pos rfl] at hread
  have hstep : writeUntilRead writer w (n + 1) table =
      (true, (table.createOrUpdate writer (w.live.describe w.desired)).1) := by
    unfold writeUntilRead
    dsimp only [LinkStore.createOrUpdate, LinkStore.link?]
    rw [show (table.createOrUpdate writer (w.live.describe w.desired)).1.link? w.live.src
      w.live.dst = some (w.written writer) from hread]
    exact if_pos Link.annotated_annotations
  rw [hstep]
  exact ⟨rfl, hwrite⟩

/-- Every write is done, and links without one are kept. -/
theorem performWrites_spec {table : LinkTable} {writer : ProviderId} {attempts : Nat}
    {writes : List PendingWrite} (hattempts : 0 < attempts)
    (hunique : ∀ v ∈ writes, ∀ w ∈ writes, v.live.endpoints = w.live.endpoints → v = w)
    (hstored : ∀ w ∈ writes, ∃ cur, table.link? w.live.src w.live.dst = some cur ∧
      (cur = w.live ∨ cur = w.written writer)) :
    (performWrites writer attempts writes table).1.stale = [] ∧
      ∀ e : Endpoints, (performWrites writer attempts writes table).2.link? e.src e.dst =
        match writes.find? (·.live.endpoints = e) with
        | some w => some (w.written writer)
        | none => table.link? e.src e.dst := by
  induction writes generalizing table with
  | nil => exact ⟨rfl, fun e => rfl⟩
  | cons w rest ih =>
    obtain ⟨cur, hcur, hcase⟩ := hstored w List.mem_cons_self
    obtain ⟨hdone, hlink⟩ := writeUntilRead_spec hattempts hcur hcase
    have hstored' : ∀ v ∈ rest, ∃ cur,
        (writeUntilRead writer w attempts table).2.link? v.live.src v.live.dst = some cur ∧
          (cur = v.live ∨ cur = v.written writer) := by
      intro v hv
      have hread := hlink v.live.endpoints
      by_cases hends : v.live.endpoints = w.live.endpoints
      · -- A second write to one link finds it as the first left it.
        obtain rfl := hunique v (List.mem_cons_of_mem _ hv) w List.mem_cons_self hends
        rw [if_pos rfl] at hread
        exact ⟨v.written writer, hread, .inr rfl⟩
      · obtain ⟨cur, hcur, hcase⟩ := hstored v (List.mem_cons_of_mem _ hv)
        rw [if_neg hends] at hread
        exact ⟨cur, hread.trans hcur, hcase⟩
    have hrest := ih
      (fun v hv u hu => hunique v (List.mem_cons_of_mem _ hv) u (List.mem_cons_of_mem _ hu))
      hstored'
    unfold performWrites
    rw [show writeUntilRead writer w attempts table =
      (true, (writeUntilRead writer w attempts table).2) from Prod.ext hdone rfl]
    dsimp only
    rw [if_pos rfl]
    refine ⟨hrest.1, fun e => ?_⟩
    rw [hrest.2 e, List.find?_cons]
    by_cases he : w.live.endpoints = e
    · rw [decide_eq_true he]
      dsimp only
      split
      next v hv =>
        have hv' : v.live.endpoints = e := by simpa using List.find?_some hv
        rw [hunique v (List.mem_cons_of_mem _ (List.mem_of_find?_eq_some hv)) w
          List.mem_cons_self (hv'.trans he.symm)]
      next => rw [hlink e, if_pos he.symm]
    · rw [decide_eq_false he]
      dsimp only
      rw [hlink e, if_neg (Ne.symm he)]

/-! ## A whole contribution -/

/-- A contribution adjusts the stored links that are touched and keeps all others. -/
structure Pass (writer : ProviderId) (constraints : List Constraint) (d : Direction)
    (links : List Link) (before after : LinkTable) : Prop where
  untouched : ∀ e : Endpoints, ¬Touches links e → after.link? e.src e.dst = before.link? e.src e.dst
  missing : ∀ e : Endpoints, before.link? e.src e.dst = none → after.link? e.src e.dst = none
  touched : ∀ e l, Touches links e → before.link? e.src e.dst = some l →
    ∃ a, adjusted constraints d l.annotations = .ok a ∧
      after.link? e.src e.dst = some (l.annotated writer a)

/-- A contribution keeps the links that are not touched, whatever becomes of its writes. -/
theorem link?_applyContribution_of_untouched {writer : ProviderId} {attempts : Nat}
    {before after : LinkTable} {constraints : List Constraint} {links : List Link} {d : Direction}
    {report : ContributionReport}
    (h : applyContribution writer attempts before constraints links d = .ok (report, after))
    {e : Endpoints} (he : ¬Touches links e) :
    after.link? e.src e.dst = before.link? e.src e.dst := by
  obtain ⟨writes, hwrites, h⟩ := Except.bind_eq_ok_iff.1 h
  have hkept : (performWrites writer attempts writes before).2.link? e.src e.dst =
      before.link? e.src e.dst :=
    link?_performWrites_of_ne writer attempts before fun w hw hends =>
      he (hends ▸ (pendingWrites_spec hwrites).touched w hw)
  rw [Except.ok.inj h] at hkept
  exact hkept

theorem applyContribution_spec {writer : ProviderId} {attempts : Nat} {before after : LinkTable}
    {constraints : List Constraint} {links : List Link} {d : Direction}
    {report : ContributionReport} (hattempts : 0 < attempts)
    (h : applyContribution writer attempts before constraints links d = .ok (report, after)) :
    report.stale = [] ∧ Pass writer constraints d links before after := by
  obtain ⟨writes, hwrites, hresult⟩ := Except.bind_eq_ok_iff.1 h
  have hplan := pendingWrites_spec hwrites
  have hunique : ∀ v ∈ writes, ∀ w ∈ writes, v.live.endpoints = w.live.endpoints → v = w :=
    fun v hv w hw => (hplan.planned v hv).unique (hplan.planned w hw)
  have hstored : ∀ w ∈ writes, ∃ cur, before.link? w.live.src w.live.dst = some cur ∧
      (cur = w.live ∨ cur = w.written writer) :=
    fun w hw => ⟨w.live, (hplan.planned w hw).stored, .inl rfl⟩
  obtain ⟨hstale, hlink⟩ := performWrites_spec hattempts hunique hstored
  rw [Except.ok.inj hresult] at hstale hlink
  have hfind {e : Endpoints} {w : PendingWrite}
      (hw : writes.find? (·.live.endpoints = e) = some w) :
      w.live.endpoints = e ∧ w ∈ writes :=
    ⟨by simpa using List.find?_some hw, List.mem_of_find?_eq_some hw⟩
  refine ⟨hstale, ⟨fun e he => link?_applyContribution_of_untouched h he, fun e he => ?_,
    fun e l he hl => ?_⟩⟩
  · rw [hlink e]
    split
    next w hw =>
      obtain ⟨rfl, hmem⟩ := hfind hw
      have := (hplan.planned w hmem).stored
      rw [show before.link? w.live.src w.live.dst = none from he] at this
      exact nomatch this
    next => exact he
  · obtain ⟨a, ha, hcase⟩ := hplan.complete e l he hl
    refine ⟨a, ha, ?_⟩
    rw [hlink e]
    split
    next w hw =>
      obtain ⟨rfl, hmem⟩ := hfind hw
      have hplanned := hplan.planned w hmem
      obtain rfl : w.live = l := Option.some.inj (hplanned.stored.symm.trans hl)
      rw [PendingWrite.written, Except.ok.inj (hplanned.desired.symm.trans ha)]
    next hw =>
      rcases hcase with rfl | hmem
      · rw [Link.annotated_self]
        exact hl
      · have hends : l.endpoints = e := LinkTable.endpoints_of_link? hl
        exact absurd hends (by simpa using List.find?_eq_none.1 hw ⟨l, a⟩ hmem)

theorem applyContribution_isOk {writer : ProviderId} {attempts : Nat} {table : LinkTable}
    {constraints : List Constraint} {links : List Link} {d : Direction}
    (h : ∀ e l, Touches links e → table.link? e.src e.dst = some l →
      ∃ a, adjusted constraints d l.annotations = .ok a) :
    ∃ report after,
      applyContribution writer attempts table constraints links d = .ok (report, after) := by
  obtain ⟨writes, hwrites⟩ := pendingWrites_isOk h
  exact ⟨_, _, Except.bind_eq_ok_iff.2 ⟨writes, hwrites, rfl⟩⟩

end HostRouting
