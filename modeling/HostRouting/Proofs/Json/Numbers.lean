import HostRouting.Json.Reader
import HostRouting.Proofs.Binary64.Rounding
import HostRouting.Proofs.Json.Codec

/-!
# The numbers of JSON values

A whole number of a JSON value has 64 bits and any other number is finite. All values that texts
denote are so (`wellFormed_of_ofText?`), and a number that is read from such a value is finite
(`isFinite_of_decode`).
-/

namespace HostRouting

/-! ## Whole numbers are finite -/

theorem Binary64.isFinite_ofInt {i : Int} {k : Nat} (h : i.natAbs < 2 ^ k) (hk : k ≤ 1000) :
    (ofInt i).isFinite = true := by
  obtain ⟨n, hn, hsmall⟩ := unitsPerOne_eq_two_pow
  have hsize : (i * unitsPerOne).natAbs < 2 ^ (k + n) := by
    rw [Int.natAbs_mul, Int.natAbs_natCast, hn, Nat.pow_add]
    exact Nat.mul_lt_mul_of_pos_right h (Nat.two_pow_pos _)
  have hlog : (i * unitsPerOne).natAbs.log2 ≤ k + n + 52 := by
    by_cases hzero : (i * unitsPerOne).natAbs = 0
    · rw [hzero]
      exact Nat.zero_le _
    · have := (Nat.log2_lt hzero).2 hsize
      omega
  have hround : roundUnits (i * unitsPerOne).natAbs 1 < overflowUnits := by
    refine Nat.lt_of_le_of_lt (roundUnits_le_two_pow hsize hlog) ?_
    obtain ⟨m, hm, hlarge⟩ := overflowUnits_eq_two_pow
    rw [hm]
    exact Nat.pow_lt_pow_right (by decide) (by omega)
  rw [ofInt, ofUnits, ofQuotient, dif_pos hround]
  rfl

namespace Json

/-! ## Well-formed values -/

mutual

/-- Whether the numbers in a value are such as JSON values hold: whole ones of 64 bits, signed or
unsigned, and finite ones. -/
def wellFormed : Json → Bool
  | .integer i => decide (-((UInt64.size / 2 : Nat) : Int) ≤ i ∧ i < UInt64.size)
  | .number x => x.isFinite
  | .array items => wellFormedItems items
  | .object members => wellFormedMembers members
  | .null | .bool _ | .text _ | .unreadable => true

def wellFormedItems : List Json → Bool
  | [] => true
  | item :: rest => wellFormed item && wellFormedItems rest

def wellFormedMembers : List (String × Json) → Bool
  | [] => true
  | (_, value) :: rest => wellFormed value && wellFormedMembers rest

end

theorem wellFormed_array_iff {items : List Json} :
    (Json.array items).wellFormed = true ↔ ∀ item ∈ items, item.wellFormed = true := by
  rw [wellFormed]
  induction items with
  | nil => simp [wellFormedItems]
  | cons item rest ih => rw [wellFormedItems, Bool.and_eq_true, ih, List.forall_mem_cons]

theorem wellFormed_object_iff {members : List (String × Json)} :
    (Json.object members).wellFormed = true ↔ ∀ m ∈ members, m.2.wellFormed = true := by
  rw [wellFormed]
  induction members with
  | nil => simp [wellFormedMembers]
  | cons m rest ih => rw [wellFormedMembers, Bool.and_eq_true, ih, List.forall_mem_cons]

/-- A number that is read from a well-formed value is finite. -/
theorem isFinite_of_decode {v : Json} {x : Binary64} (hv : v.wellFormed = true)
    (h : decode v = .ok x) : x.isFinite = true := by
  cases v with
  | integer i =>
    obtain rfl : Binary64.ofInt i = x := Except.ok.inj h
    rw [wellFormed, decide_eq_true_eq] at hv
    have hsize : UInt64.size = 2 ^ 64 := rfl
    have hlt : i.natAbs < 2 ^ 65 := by omega
    exact Binary64.isFinite_ofInt hlt (by decide)
  | number y =>
    obtain rfl : y = x := Except.ok.inj h
    exact hv
  | _ => exact absurd h (by rintro ⟨⟩)

/-! ## Records -/

namespace Fields

/-- The members of a record are well-formed. -/
def WellFormed (ms : Members) : Prop :=
  ∀ name place v, ms.find? name = some (place, v) → v.wellFormed = true

theorem mem_of_findMember {name : String} {v : Json} {members : List (String × Json)}
    {place found : Nat} (h : findMember name place members = some (found, v)) :
    (name, v) ∈ members := by
  induction members generalizing place with
  | nil => exact nomatch h
  | cons m rest ih =>
    obtain ⟨n, u⟩ := m
    rw [findMember] at h
    split at h
    · rename_i hn
      obtain ⟨-, rfl⟩ := Prod.mk.inj (Option.some.inj h)
      exact hn ▸ List.mem_cons_self
    · exact List.mem_cons_of_mem _ (ih h)

theorem mem_of_findItem {name : String} {v : Json} {names : List String} {items : List Json}
    {place found : Nat} (h : findItem name place names items = some (found, v)) : v ∈ items := by
  induction items generalizing names place with
  | nil => cases names <;> exact nomatch h
  | cons item items ih =>
    cases names with
    | nil => exact nomatch h
    | cons n names =>
      rw [findItem] at h
      split at h
      · obtain ⟨-, rfl⟩ := Prod.mk.inj (Option.some.inj h)
        exact List.mem_cons_self
      · exact List.mem_cons_of_mem _ (ih h)

/-- A record that is read from a well-formed value is read from well-formed members. -/
theorem read_of_decode {α : Type} {fields : Fields α} {v : Json} {a : α}
    (hv : v.wellFormed = true) (h : fields.decode v = .ok a) :
    ∃ ms, WellFormed ms ∧ fields.read ms = .ok a := by
  cases v with
  | object members =>
    refine ⟨ofObject members, fun name place u hu => ?_, ?_⟩
    · exact wellFormed_object_iff.1 hv _ (mem_of_findMember hu)
    · replace h : fields.decodeObject members = .ok a := h
      unfold decodeObject at h
      split at h
      · exact nomatch h
      · show fields.read ⟨false, fun name => findMember name 0 members, members.length⟩ = _
        cases hread :
            fields.read ⟨false, fun name => findMember name 0 members, members.length⟩ with
        | error fault =>
          rw [hread] at h
          exact nomatch h
        | ok b =>
          rw [hread] at h
          exact congrArg _ (Except.ok.inj h)
  | array items =>
    refine ⟨⟨true, fun name => findItem name 0 fields.names items, items.length⟩,
      fun name place u hu => ?_, ?_⟩
    · exact wellFormed_array_iff.1 hv _ (mem_of_findItem hu)
    · replace h : fields.decodeArray items = .ok a := h
      unfold decodeArray at h
      split at h
      · exact nomatch h
      · rename_i hread
        split at h
        · exact nomatch h
        · rw [hread, Except.ok.inj h]
  | _ => exact nomatch h

end Fields

/-! ## Values of texts -/

theorem wellFormed_ofFinite (x : Binary64) : (ofFinite x).wellFormed = true := by
  unfold ofFinite
  split
  · assumption
  · rfl

theorem wellFormed_ofWhole (negative : Bool) (value : Nat) :
    (ofWhole negative value).wellFormed = true := by
  have hsize : UInt64.size = 2 ^ 64 := rfl
  unfold ofWhole
  split
  · split
    · rw [wellFormed, decide_eq_true_eq]
      omega
    · exact wellFormed_ofFinite _
  · split
    · rw [wellFormed, decide_eq_true_eq]
      omega
    · exact wellFormed_ofFinite _

theorem wellFormed_of_numberValue? {negative : Bool} {cs rest : List Char} {v : Json}
    (h : numberValue? negative cs = some (v, rest)) : v.wellFormed = true := by
  obtain ⟨⟨whole, rest'⟩, -, h⟩ := Option.bind_eq_some_iff.1 h
  dsimp only at h
  split at h
  · obtain ⟨⟨digits, places, rest''⟩, -, h⟩ := Option.bind_eq_some_iff.1 h
    obtain ⟨⟨power, rest'''⟩, -, h⟩ := Option.bind_eq_some_iff.1 h
    obtain ⟨rfl, -⟩ := Prod.mk.inj (Option.some.inj h)
    exact wellFormed_ofFinite _
  · obtain ⟨rfl, -⟩ := Prod.mk.inj (Option.some.inj h)
    exact wellFormed_ofWhole _ _

theorem wellFormed_ofString (s : Option String) : (ofString s).wellFormed = true := by
  cases s <;> rfl

/-- The members read so far, unless a name was unreadable, are well-formed. -/
def MembersWellFormed (members : Option (List (String × Json))) : Prop :=
  ∀ ms ∈ members, ∀ m ∈ ms, m.2.wellFormed = true

theorem wellFormed_ofMembers {members : Option (List (String × Json))}
    (h : MembersWellFormed members) : (ofMembers members).wellFormed = true := by
  cases members with
  | none => rfl
  | some ms =>
    exact wellFormed_object_iff.2 fun m hm => h ms rfl m (List.mem_reverse.1 hm)

theorem MembersWellFormed.cons {members : Option (List (String × Json))}
    (h : MembersWellFormed members) (name : Option String) {v : Json}
    (hv : v.wellFormed = true) :
    MembersWellFormed (name.bind fun name => members.map ((name, v) :: ·)) := by
  intro ms hms
  obtain ⟨name, -, hms⟩ := Option.bind_eq_some_iff.1 hms
  obtain ⟨rest, hrest, rfl⟩ := Option.map_eq_some_iff.1 hms
  exact List.forall_mem_cons.2 ⟨hv, h rest hrest⟩

/-- Whatever the readers give within a number of steps is well-formed. -/
structure ReadsWellFormed (n : Nat) : Prop where
  value : ∀ {cs v rest}, value? n cs = some (v, rest) → v.wellFormed = true
  items : ∀ {done cs items rest}, (∀ v ∈ done, v.wellFormed = true) →
    items? n done cs = some (items, rest) → ∀ v ∈ items, v.wellFormed = true
  members : ∀ {done cs ms rest}, MembersWellFormed done →
    members? n done cs = some (ms, rest) → MembersWellFormed ms

theorem readsWellFormed (n : Nat) : ReadsWellFormed n := by
  induction n with
  | zero =>
    constructor
    · intro cs v rest h
      exact absurd h (by simp [value?])
    · intro done cs items rest _ h
      exact absurd h (by simp [items?])
    · intro done cs ms rest _ h
      exact absurd h (by simp [members?])
  | succ n ih =>
    constructor
    case value =>
      intro cs v rest h
      rw [value?] at h
      split at h
      · obtain ⟨rfl, -⟩ := Prod.mk.inj (Option.some.inj h)
        rfl
      · obtain ⟨rfl, -⟩ := Prod.mk.inj (Option.some.inj h)
        rfl
      · obtain ⟨rfl, -⟩ := Prod.mk.inj (Option.some.inj h)
        rfl
      · obtain ⟨s, -, h⟩ := Option.map_eq_some_iff.1 h
        obtain ⟨rfl, -⟩ := Prod.mk.inj h
        exact wellFormed_ofString _
      · split at h
        · obtain ⟨rfl, -⟩ := Prod.mk.inj (Option.some.inj h)
          rfl
        · obtain ⟨⟨items, rest⟩, hitems, h⟩ := Option.map_eq_some_iff.1 h
          obtain ⟨rfl, -⟩ := Prod.mk.inj h
          exact wellFormed_array_iff.2 (ih.items (by simp) hitems)
      · split at h
        · obtain ⟨rfl, -⟩ := Prod.mk.inj (Option.some.inj h)
          rfl
        · obtain ⟨⟨ms, rest⟩, hms, h⟩ := Option.map_eq_some_iff.1 h
          obtain ⟨rfl, -⟩ := Prod.mk.inj h
          exact wellFormed_ofMembers (ih.members (by rintro _ ⟨⟩; simp) hms)
      · exact wellFormed_of_numberValue? h
      · exact wellFormed_of_numberValue? h
    case items =>
      intro done cs items rest hdone h
      rw [items?] at h
      split at h
      · exact absurd h (by simp)
      · rename_i item rest' hitem
        have hall : ∀ v ∈ item :: done, v.wellFormed = true :=
          List.forall_mem_cons.2 ⟨ih.value hitem, hdone⟩
        split at h
        · exact ih.items hall h
        · obtain ⟨rfl, -⟩ := Prod.mk.inj (Option.some.inj h)
          exact fun v hv => hall v (List.mem_reverse.1 hv)
        · exact absurd h (by simp)
    case members =>
      intro done cs ms rest hdone h
      rw [members?] at h
      split at h
      · split at h
        · exact absurd h (by simp)
        · split at h
          · split at h
            · exact absurd h (by simp)
            · rename_i hvalue
              have hall := fun name => hdone.cons name (ih.value hvalue)
              dsimp only at h
              split at h
              · exact ih.members (hall _) h
              · obtain ⟨rfl, -⟩ := Prod.mk.inj (Option.some.inj h)
                exact hall _
              · exact absurd h (by simp)
          · exact absurd h (by simp)
      · exact absurd h (by simp)

/-- A value that a text denotes is well-formed. -/
theorem wellFormed_of_ofText? {text : String} {v : Json} (h : ofText? text = some v) :
    v.wellFormed = true := by
  unfold ofText? at h
  dsimp only at h
  split at h
  · rename_i hvalue
    split at h
    · obtain rfl := Option.some.inj h
      exact (readsWellFormed _).value hvalue
    · exact absurd h (by simp)
  · exact absurd h (by simp)

end Json

end HostRouting
