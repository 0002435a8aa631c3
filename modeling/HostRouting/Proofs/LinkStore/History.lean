import HostRouting.Proofs.Contribution.Effect
import HostRouting.Proofs.Contribution.Share
import HostRouting.Proofs.Order

/-!
# Histories of a link table

The link under a pair of ends is what the history made of that pair alone (`LinkTable.link?_run`):
each operation changes at most the link with its own ends, by the rule `LinkOperation.effect`. The
listing is strictly in the order of the ends, so it tells nothing but which links there are.

Main fact: `LinkTable.run_lawful`, with the effect of one more description (`Described`).
-/

namespace HostRouting

open Std

/-! ## One description -/

namespace LinkTable

variable {t t' : LinkTable} {provider : ProviderId} {d : LinkDescription}

theorem isAsDescribed_iff {l : Link} : isAsDescribed l d = true ↔
    l.type = d.type ∧ l.expected = d.expected ∧ l.annotations = d.annotations := by
  simp [isAsDescribed, and_assoc]

theorem isAsDescribed_updated (l : Link) : isAsDescribed (updated l provider d) d = true :=
  isAsDescribed_iff.2 ⟨rfl, rfl, rfl⟩

theorem isAsDescribed_created : isAsDescribed (created provider d) d = true :=
  isAsDescribed_iff.2 ⟨rfl, rfl, rfl⟩

/-- A description adds the link, finds it as it should be, or brings it up to date. -/
theorem createOrUpdate_cases (t : LinkTable) (provider : ProviderId) (d : LinkDescription) :
    (t.link? d.src d.dst = none ∧ t.createOrUpdate provider d =
      (t.insert (created provider d), some ⟨.added, created provider d⟩)) ∨
    (∃ l, t.link? d.src d.dst = some l ∧ isAsDescribed l d = true ∧
      t.createOrUpdate provider d = (t, none)) ∨
    ∃ l, t.link? d.src d.dst = some l ∧ isAsDescribed l d = false ∧
      t.createOrUpdate provider d =
        (t.insert (updated l provider d), some ⟨.updated, updated l provider d⟩) := by
  unfold createOrUpdate
  cases hl : t.link? d.src d.dst with
  | none => exact .inl ⟨rfl, by rw [show t.byEnds.get? d.endpoints = none from hl]; rfl⟩
  | some l =>
    rw [show t.byEnds.get? d.endpoints = some l from hl]
    dsimp only
    cases hsame : isAsDescribed l d with
    | true => exact .inr (.inl ⟨l, rfl, hsame, rfl⟩)
    | false => exact .inr (.inr ⟨l, rfl, hsame, rfl⟩)

theorem createOrUpdate_of_isAsDescribed {l : Link} (hl : t.link? d.src d.dst = some l)
    (hsame : isAsDescribed l d = true) (provider : ProviderId) :
    t.createOrUpdate provider d = (t, none) := by
  unfold createOrUpdate
  rw [show t.byEnds.get? d.endpoints = some l from hl]
  exact if_pos hsame

/-- What a description does to a table and what it answers. -/
structure Described (before : LinkTable) (provider : ProviderId) (d : LinkDescription)
    (after : LinkTable) (answer : Option LinkChange) : Prop where
  /-- Nothing is answered just when nothing changes. -/
  silent : answer = none ↔ after = before
  /-- The answer is the link as it is now stored, under its kind of change. -/
  answered : ∀ change, answer = some change → after.link? d.src d.dst = some change.link ∧
    change.link.provider = provider ∧
    change.kind = if (before.link? d.src d.dst).isSome then .updated else .added
  /-- The link is stored as described; its state is kept, a new link is active. -/
  stored : ∃ l, after.link? d.src d.dst = some l ∧ l.type = d.type ∧ l.expected = d.expected ∧
    l.annotations = d.annotations ∧
    l.state = ((before.link? d.src d.dst).map Link.state).getD .active
  others : ∀ e : Endpoints, e ≠ d.endpoints →
    after.link? e.src e.dst = before.link? e.src e.dst
  /-- The same description, whoever gives it, changes nothing more. -/
  again : ∀ provider', after.createOrUpdate provider' d = (after, none)

/-- Storing another link under the described ends is a change, and the description then holds. -/
theorem described_insert {l : Link} {kind : LinkChange.Kind} (hends : l.endpoints = d.endpoints)
    (hprovider : l.provider = provider) (hl : isAsDescribed l d = true)
    (hchanged : t.link? d.src d.dst ≠ some l)
    (hkind : kind = if (t.link? d.src d.dst).isSome then .updated else .added)
    (hstate : l.state = ((t.link? d.src d.dst).map Link.state).getD .active) :
    Described t provider d (t.insert l) (some ⟨kind, l⟩) := by
  have hstored : (t.insert l).link? d.src d.dst = some l := by
    obtain ⟨hsrc, hdst⟩ := Endpoints.mk.inj hends
    rw [← hsrc, ← hdst]
    exact t.link?_insert_self l
  obtain ⟨htype, hexpected, hannotations⟩ := isAsDescribed_iff.1 hl
  refine ⟨⟨(nomatch ·), fun h => ?_⟩, ?_, ?_, ?_, ?_⟩
  · rw [h] at hstored
    exact absurd hstored hchanged
  · rintro _ ⟨⟩
    exact ⟨hstored, hprovider, hkind⟩
  · exact ⟨l, hstored, htype, hexpected, hannotations, hstate⟩
  · intro e he
    exact t.link?_insert_of_ne (hends.symm ▸ he)
  · exact createOrUpdate_of_isAsDescribed hstored hl

theorem described_createOrUpdate (t : LinkTable) (provider : ProviderId) (d : LinkDescription) :
    Described t provider d (t.createOrUpdate provider d).1 (t.createOrUpdate provider d).2 := by
  rcases t.createOrUpdate_cases provider d with ⟨hl, h⟩ | ⟨l, hl, hsame, h⟩ | ⟨l, hl, hdiffers, h⟩
  · rw [h]
    exact described_insert rfl rfl isAsDescribed_created (by simp [hl]) (by simp [hl])
      (by simp [hl, created])
  · rw [h]
    obtain ⟨htype, hexpected, hannotations⟩ := isAsDescribed_iff.1 hsame
    refine ⟨iff_of_true rfl rfl, fun _ hnone => (nomatch hnone), ?_, fun _ _ => rfl, ?_⟩
    · exact ⟨l, hl, htype, hexpected, hannotations, by simp [hl]⟩
    · exact createOrUpdate_of_isAsDescribed hl hsame
  · rw [h]
    have hends : l.endpoints = d.endpoints := endpoints_of_link? hl
    refine described_insert hends rfl (isAsDescribed_updated l) ?_ (by simp [hl])
      (by simp [hl, updated])
    rw [hl]
    intro heq
    rw [Option.some.inj heq, isAsDescribed_updated] at hdiffers
    exact nomatch hdiffers

end LinkTable

/-! ## Histories -/

/-- A way to change a table of links. -/
inductive LinkOperation where
  | insert (l : Link)
  | createOrUpdate (provider : ProviderId) (d : LinkDescription)
  | remove (src dst : ConnectPoint)
deriving DecidableEq

namespace LinkOperation

def perform (t : LinkTable) : LinkOperation → LinkTable
  | insert l => t.insert l
  | createOrUpdate provider d => (t.createOrUpdate provider d).1
  | remove src dst => (t.remove src dst).1

def endpoints : LinkOperation → Endpoints
  | insert l => l.endpoints
  | createOrUpdate _ d => d.endpoints
  | remove src dst => ⟨src, dst⟩

/-- What an operation makes of the link with its ends. -/
def effect : LinkOperation → Option Link → Option Link
  | insert l, _ => some l
  | createOrUpdate provider d, none => some (LinkTable.created provider d)
  | createOrUpdate provider d, some l =>
    some (if LinkTable.isAsDescribed l d then l else LinkTable.updated l provider d)
  | remove _ _, _ => none

/-- What an operation makes of the link with given ends. -/
def effectAt (e : Endpoints) (old : Option Link) (op : LinkOperation) : Option Link :=
  if e = op.endpoints then op.effect old else old

/-- The operation changes the link with its ends by its rule and no other. -/
theorem link?_perform (op : LinkOperation) (t : LinkTable) (e : Endpoints) :
    (perform t op).link? e.src e.dst = effectAt e (t.link? e.src e.dst) op := by
  unfold effectAt
  by_cases he : e = op.endpoints
  · rw [if_pos he, he]
    cases op with
    | insert l => exact t.link?_insert_self l
    | createOrUpdate provider d =>
      show (t.createOrUpdate provider d).1.link? d.src d.dst =
        effect _ (t.link? d.src d.dst)
      rcases t.createOrUpdate_cases provider d with
        ⟨hl, h⟩ | ⟨l, hl, hsame, h⟩ | ⟨l, hl, hdiffers, h⟩
      · rw [h, hl]
        exact t.link?_insert_self (LinkTable.created provider d)
      · rw [h, hl]
        simp [effect, hsame]
      · rw [h, hl]
        obtain ⟨hsrc, hdst⟩ := Endpoints.mk.inj (LinkTable.endpoints_of_link? hl)
        rw [← hsrc, ← hdst]
        simp only [effect, hdiffers]
        exact t.link?_insert_self (LinkTable.updated l provider d)
    | remove src dst =>
      show (t.remove src dst).1.link? src dst = none
      unfold LinkTable.remove
      split
      next => exact Catalog.get?_erase_self _ _
      next hnone => exact hnone
  · rw [if_neg he]
    cases op with
    | insert l => exact t.link?_insert_of_ne he
    | createOrUpdate provider d => exact t.link?_createOrUpdate_of_ne provider he
    | remove src dst =>
      show (t.remove src dst).1.link? e.src e.dst = _
      unfold LinkTable.remove
      split
      · exact Catalog.get?_erase_of_ne _ he
      · rfl

end LinkOperation

namespace LinkTable

/-- The table that a history leaves. -/
def run (history : List LinkOperation) : LinkTable := history.foldl LinkOperation.perform empty

/-- The link under a pair of ends depends on what happened to that pair only. -/
theorem link?_run (history : List LinkOperation) (e : Endpoints) :
    (run history).link? e.src e.dst = history.foldl (LinkOperation.effectAt e) none := by
  have hfrom : ∀ t : LinkTable, (history.foldl LinkOperation.perform t).link? e.src e.dst =
      history.foldl (LinkOperation.effectAt e) (t.link? e.src e.dst) := by
    induction history with
    | nil => exact fun _ => rfl
    | cons op rest ih =>
      intro t
      rw [List.foldl_cons, List.foldl_cons, ih, op.link?_perform]
  exact hfrom empty

theorem mem_links_iff {t : LinkTable} {l : Link} : l ∈ t.links ↔ t.link? l.src l.dst = some l :=
  Catalog.mem_toList_iff

theorem link?_eq_some_iff {t : LinkTable} {src dst : ConnectPoint} {l : Link} :
    t.link? src dst = some l ↔ l ∈ t.links ∧ l.src = src ∧ l.dst = dst := by
  constructor
  · intro h
    exact ⟨mem_links_of_link? h, Endpoints.mk.inj (endpoints_of_link? h)⟩
  · rintro ⟨h, rfl, rfl⟩
    exact mem_links_iff.1 h

/-- Tables of the same links are the same. -/
theorem ext_mem_links {t t' : LinkTable} (h : ∀ l, l ∈ t.links ↔ l ∈ t'.links) : t = t' := by
  refine ext_link? fun e => Option.ext fun l => ?_
  rw [link?_eq_some_iff, link?_eq_some_iff, h]

/-- In whatever order the links are gone through, sorting them by their ends gives the listing. -/
theorem sortedOn_endpoints {t : LinkTable} {listing : List Link} (h : listing.Perm t.links) :
    sortedOn Link.endpoints listing = t.links := by
  have hsame : (sortedOn Link.endpoints listing).Perm t.links := (perm_sortedOn _ _).trans h
  have hincreases : Increases Link.endpoints t.links :=
    t.byEnds.increasing_toList.imp fun hlt => by rw [hlt]; rfl
  refine hsame.eq_of_pairwise (fun l m hl hm hle hge => ?_) increases_sortedOn hincreases
  -- No two links have the same ends.
  have hends : l.endpoints = m.endpoints :=
    LawfulEqOrd.eq_of_compare (OrientedCmp.isLE_antisymm hle hge)
  obtain ⟨hsrc, hdst⟩ := Endpoints.mk.inj hends
  have hl := mem_links_iff.1 (hsame.mem_iff.1 hl)
  rw [hsrc, hdst, mem_links_iff.1 hm] at hl
  exact (Option.some.inj hl).symm

/-- Whatever happened to a table that was empty: a link is found just under its own ends, the
listing names what is found strictly in the order of the ends, and it is the same after every
history that leaves the same links. A description is answered just when it changes something, with
the link as it is then stored. It changes no other link, keeps the state of a link that was there,
and given once more changes nothing. -/
theorem run_lawful (history : List LinkOperation) :
    let t := run history
    (∀ src dst l, t.link? src dst = some l ↔ l ∈ t.links ∧ l.src = src ∧ l.dst = dst) ∧
      (t.links.Pairwise fun l m => compare l.endpoints m.endpoints = .lt) ∧
      (∀ e : Endpoints,
        t.link? e.src e.dst = history.foldl (LinkOperation.effectAt e) none) ∧
      (∀ history', (∀ l, l ∈ (run history').links ↔ l ∈ t.links) →
        (run history').links = t.links) ∧
      ∀ provider d,
        Described t provider d (t.createOrUpdate provider d).1 (t.createOrUpdate provider d).2 := by
  intro t
  refine ⟨fun src dst l => link?_eq_some_iff, t.byEnds.increasing_toList, link?_run history,
    fun history' h => ?_, t.described_createOrUpdate⟩
  rw [ext_mem_links h]

end LinkTable

end HostRouting
