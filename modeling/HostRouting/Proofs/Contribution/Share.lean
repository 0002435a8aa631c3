import HostRouting.Intent.Basic
import HostRouting.Proofs.Binary64.Addition
import HostRouting.Proofs.Binary64.RoundTrip
import HostRouting.Proofs.Contribution.Limits
import HostRouting.Proofs.Contribution.Pass

/-!
# Contributions as numbers

A contribution that is exact moves the number under a key by the share of the intent: its last
limit on the key, counted once however often its paths cross the link. Shares are read off the
recorded paths and the constraints themselves.

Main fact: `Pass.unitsAt?`.
-/

namespace HostRouting

/-! ## Crossed links -/

/-- The paths that are recorded. -/
def HostIntent.recorded (i : HostIntent) : List Path :=
  match i.paths with
  | none => []
  | some (there, back) => [there, back]

/-- The links of the recorded paths that attach no host. -/
def HostIntent.crossedLinks (i : HostIntent) : List Link :=
  i.recorded.flatMap fun p => p.links.filter fun l => l.type ≠ .edge

/-- A recorded path crosses the link with the given ends, which attaches no host. -/
def HostIntent.Crosses (i : HostIntent) (e : Endpoints) : Prop :=
  ∃ p ∈ i.recorded, ∃ l ∈ p.links, l.type ≠ .edge ∧ l.src = e.src ∧ l.dst = e.dst

instance (i : HostIntent) (e : Endpoints) : Decidable (i.Crosses e) :=
  inferInstanceAs (Decidable (∃ p ∈ i.recorded, ∃ l ∈ p.links, _))

theorem HostIntent.routedLinks_eq (i : HostIntent) : i.routedLinks = i.crossedLinks := by
  unfold routedLinks crossedLinks recorded Link.isEdge
  rcases i.paths with - | ⟨there, back⟩ <;> simp

theorem touches_crossedLinks {i : HostIntent} {e : Endpoints} :
    Touches i.crossedLinks e ↔ i.Crosses e := by
  unfold Touches HostIntent.crossedLinks HostIntent.Crosses
  constructor
  · rintro ⟨l, hl, -, rfl⟩
    obtain ⟨p, hp, hl⟩ := List.mem_flatMap.1 hl
    obtain ⟨hl, htype⟩ := List.mem_filter.1 hl
    exact ⟨p, hp, l, hl, by simpa using htype, rfl, rfl⟩
  · rintro ⟨p, hp, l, hl, htype, hsrc, hdst⟩
    refine ⟨l, List.mem_flatMap.2 ⟨p, hp, List.mem_filter.2 ⟨hl, by simpa using htype⟩⟩, ?_, ?_⟩
    · simpa [Link.isEdge] using htype
    · exact congr (congrArg Endpoints.mk hsrc) hdst

theorem touches_routedLinks {i : HostIntent} {e : Endpoints} :
    Touches i.routedLinks e ↔ i.Crosses e := by
  rw [i.routedLinks_eq, touches_crossedLinks]

/-! ## Exact contributions -/

/-- Neither does the sum need rounding nor is the difference cut off at zero. -/
def ExactAt (d : Direction) (threshold : Binary64) (upper : Bool) (number : Binary64) : Prop :=
  if d.grows upper then Binary64.ExactSum number threshold
  else Binary64.ExactSum number (-threshold) ∧ ¬number - threshold < 0

instance (d : Direction) (threshold : Binary64) (upper : Bool) (number : Binary64) :
    Decidable (ExactAt d threshold upper number) := by
  unfold ExactAt
  infer_instance

/-- The change that a contribution makes, from the change that adding it makes. -/
def Direction.signed (d : Direction) (units : Int) : Int :=
  match d with
  | .add => units
  | .remove => -units

@[simp] theorem Direction.signed_zero (d : Direction) : d.signed 0 = 0 := by
  cases d <;> rfl

/-- What a limit adds to a number. -/
def limitUnits (threshold : Binary64) (upper : Bool) : Int :=
  let units := threshold.units?.getD 0
  if upper then units else -units

theorem units?_adjustedNumber {d : Direction} {threshold number : Binary64} {upper : Bool}
    (h : ExactAt d threshold upper number) :
    (adjustedNumber d threshold upper number).units? =
      number.units?.map (· + d.signed (limitUnits threshold upper)) := by
  unfold ExactAt at h
  unfold adjustedNumber
  split at h
  next hgrows =>
    obtain ⟨a, b, ha, hb, hsum⟩ := Binary64.units?_add h
    rw [if_pos hgrows, hsum, ha, limitUnits, hb]
    cases d <;> cases upper <;> simp_all [Direction.grows, Direction.signed]
  next hgrows =>
    obtain ⟨a, b, ha, hb, hsum⟩ := Binary64.units?_add h.1
    rw [Binary64.units?_neg] at hb
    obtain ⟨t, ht, rfl⟩ := Option.map_eq_some_iff.1 hb
    have hsum : (number - threshold).units? = some (a + -t) := hsum
    rw [if_neg hgrows, Binary64.units?_atLeastZero hsum h.2, ha, limitUnits, ht]
    cases d <;> cases upper <;> simp_all [Direction.grows, Direction.signed]

/-- The contribution is exact at a text, if the text is to be adjusted and is a number. -/
def ExactText (constraints : List Constraint) (d : Direction) (key value : String) : Prop :=
  match lastLimit? constraints key, numberOfText? value with
  | some (threshold, upper), some number => ExactAt d threshold upper number
  | _, _ => True

instance (constraints : List Constraint) (d : Direction) (key value : String) :
    Decidable (ExactText constraints d key value) := by
  unfold ExactText
  split <;> infer_instance

/-- The contribution of an intent is exact on every link that its recorded paths cross. -/
def ExactPass (table : LinkTable) (i : HostIntent) (d : Direction) : Prop :=
  ∀ l ∈ table.links, i.Crosses l.endpoints →
    ∀ e ∈ l.annotations.entries, ExactText i.base.constraints d e.1 e.2

instance (table : LinkTable) (i : HostIntent) (d : Direction) :
    Decidable (ExactPass table i d) :=
  inferInstanceAs (Decidable (∀ l ∈ _, _))

/-! ## Shares -/

/-- What a constraint adds to the number under a key, if it limits it: an upper limit adds its
threshold, a lower one takes it off. -/
def Constraint.units? (key : String) : Constraint → Option Int
  | .atMost limited threshold => if limited = key then some (limitUnits threshold true) else none
  | .limit limited threshold upper =>
    if limited = key then some (limitUnits threshold upper) else none
  | _ => none

/-- What the last limit on a key adds to the number under it. -/
def keyUnits (constraints : List Constraint) (key : String) : Int :=
  ((constraints.filterMap (Constraint.units? key)).getLast?).getD 0

theorem Constraint.units?_eq_limitOn? (c : Constraint) (key : String) :
    c.units? key = (c.limitOn? key).map fun limit => limitUnits limit.1 limit.2 := by
  unfold units? limitOn? annotationLimit?
  cases c with
  | atMost limited threshold => by_cases h : limited = key <;> simp [Option.filter, h]
  | limit limited threshold upper => by_cases h : limited = key <;> simp [Option.filter, h]
  | _ => rfl

theorem keyUnits_eq_lastLimit? (constraints : List Constraint) (key : String) :
    keyUnits constraints key =
      ((lastLimit? constraints key).map fun limit => limitUnits limit.1 limit.2).getD 0 := by
  have hlast : (constraints.filterMap (Constraint.units? key)).getLast? =
      (lastLimit? constraints key).map fun limit => limitUnits limit.1 limit.2 := by
    induction constraints with
    | nil => rfl
    | cons c rest ih =>
      rw [lastLimit?_cons, List.filterMap_cons]
      cases hc : c.units? key with
      | none =>
        rw [c.units?_eq_limitOn?, Option.map_eq_none_iff] at hc
        rw [hc, Option.or_none]
        exact ih
      | some units =>
        rw [c.units?_eq_limitOn?] at hc
        obtain ⟨limit, hlimit, rfl⟩ := Option.map_eq_some_iff.1 hc
        rw [List.getLast?_cons, ih, hlimit]
        cases lastLimit? rest key <;> rfl
  unfold keyUnits
  rw [hlast]

/-- What an intent adds to the number under a key of the link with the given ends. -/
def HostIntent.share (i : HostIntent) (e : Endpoints) (key : String) : Int :=
  if i.Crosses e then keyUnits i.base.constraints key else 0

/-- The number under a key of a link, in units. -/
def Link.units? (l : Link) (key : String) : Option Int :=
  ((l.annotations.get? key).bind numberOfText?).bind Binary64.units?

/-- The number under a key of a stored link, in units. -/
def LinkTable.unitsAt? (t : LinkTable) (e : Endpoints) (key : String) : Option Int :=
  (t.link? e.src e.dst).bind (·.units? key)

/-- The text under a key of a stored link. -/
def LinkTable.textAt? (t : LinkTable) (e : Endpoints) (key : String) : Option String :=
  (t.link? e.src e.dst).bind (·.annotations.get? key)

theorem LinkTable.unitsAt?_eq_textAt? (t : LinkTable) (e : Endpoints) (key : String) :
    t.unitsAt? e key = ((t.textAt? e key).bind numberOfText?).bind Binary64.units? := by
  unfold unitsAt? textAt?
  cases t.link? e.src e.dst <;> rfl

theorem LinkTable.mem_links_of_link? {t : LinkTable} {src dst : ConnectPoint} {l : Link}
    (h : t.link? src dst = some l) : l ∈ t.links :=
  List.mem_map.2 ⟨_, SortedMap.get?_eq_some_iff.1 h, rfl⟩

theorem adjustedText_of_limit? {constraints : List Constraint} {d : Direction}
    {key value value' : String} (h : adjustedText constraints d key value = .ok value')
    (hexact : ExactText constraints d key value) :
    (numberOfText? value').bind Binary64.units? =
      ((numberOfText? value).bind Binary64.units?).map
        (· + d.signed (keyUnits constraints key)) := by
  unfold ExactText at hexact
  rw [keyUnits_eq_lastLimit?]
  cases hlimit : lastLimit? constraints key with
  | none =>
    rw [adjustedText_of_unlimited hlimit] at h
    rw [← Except.ok.inj h]
    simp
  | some limit =>
    obtain ⟨threshold, upper⟩ := limit
    obtain ⟨number, hnumber, rfl⟩ := (adjustedText_of_limited hlimit).1 h
    rw [hlimit, hnumber] at hexact
    rw [hnumber, numberOfText?_text]
    exact units?_adjustedNumber hexact

/-- An exact contribution moves the number of every link by the share of the intent. -/
theorem Pass.unitsAt? {writer : ProviderId} {i : HostIntent} {d : Direction}
    {before after : LinkTable} (h : Pass writer i.base.constraints d i.routedLinks before after)
    (hexact : ExactPass before i d) (e : Endpoints) (key : String) :
    after.unitsAt? e key = (before.unitsAt? e key).map (· + d.signed (i.share e key)) := by
  unfold LinkTable.unitsAt? HostIntent.share
  by_cases hcrosses : i.Crosses e
  · have ht := touches_routedLinks.2 hcrosses
    rw [if_pos hcrosses]
    cases hl : before.link? e.src e.dst with
    | none => rw [h.missing e hl, Option.bind_none, Option.map_none]
    | some l =>
      obtain ⟨a, ha, hafter⟩ := h.touched e l ht hl
      rw [hafter, Option.bind_some, Option.bind_some, Link.units?, Link.units?,
        Link.annotated_annotations]
      rcases get?_adjusted ha key with ⟨hk, hk'⟩ | ⟨value, value', hk, htext, hk'⟩
      · rw [hk, hk', Option.bind_none, Option.bind_none, Option.map_none]
      · rw [hk, hk', Option.bind_some, Option.bind_some]
        have hends : l.endpoints = e := LinkTable.endpoints_of_link? hl
        exact adjustedText_of_limit? htext (hexact l (LinkTable.mem_links_of_link? hl)
          (hends ▸ hcrosses) (key, value) (SortedMap.get?_eq_some_iff.1 hk))
  · rw [if_neg hcrosses, h.untouched e (mt touches_routedLinks.1 hcrosses), Direction.signed_zero]
    simp

/-- Texts under keys that the intent does not limit are kept. -/
theorem Pass.text_of_lastLimit?_eq_none {writer : ProviderId} {constraints : List Constraint}
    {d : Direction} {links : List Link} {before after : LinkTable}
    (h : Pass writer constraints d links before after) {key : String}
    (hkey : lastLimit? constraints key = none) (e : Endpoints) :
    after.textAt? e key = before.textAt? e key := by
  unfold LinkTable.textAt?
  by_cases ht : Touches links e
  · cases hl : before.link? e.src e.dst with
    | none => rw [h.missing e hl]
    | some l =>
      obtain ⟨a, ha, hafter⟩ := h.touched e l ht hl
      rw [hafter, Option.bind_some, Option.bind_some, Link.annotated_annotations]
      rcases get?_adjusted ha key with ⟨hk, hk'⟩ | ⟨value, value', hk, htext, hk'⟩
      · rw [hk, hk']
      · rw [hk, hk']
        rw [adjustedText_of_unlimited hkey] at htext
        rw [Except.ok.inj htext]
  · rw [h.untouched e ht]

end HostRouting
