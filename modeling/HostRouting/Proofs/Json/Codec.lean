import HostRouting.Json.Codec
import Mathlib.Data.List.Nodup

/-!
# Reading back what is written

1. Texts, words, finite numbers and lists are read back from what is written for them
   (`ReadsBack`).
2. A record is read from an object with distinct names when each of its readers finds its member
   there; the order of the members does not matter (`Fields.decode_object`).
3. Conversely, what a record reader gives comes from the members one by one (`read_seq_iff` and
   `read_member_iff`).
-/

namespace HostRouting.Json

/-! ## Plain values -/

/-- What is written for a value denotes it. -/
def ReadsBack {α : Type} [Decode α] [Encode α] (a : α) : Prop := decode (encode a) = .ok a

theorem ReadsBack.map {α β : Type} [Decode α] [Encode α] {a : α} (h : ReadsBack a) (f : α → β) :
    f <$> (decode (encode a) : Except Fault α) = .ok (f a) := congrArg (f <$> ·) h

theorem readsBack_text (s : String) : ReadsBack s := rfl

theorem readsBack_bool (b : Bool) : ReadsBack b := rfl

/-- A word is read back by the numbers below its size. -/
theorem decodeBelow_map {α : Type} {bound : Nat} {toNat : α → Nat} {ofNat : Nat → α} {a : α}
    (hlt : toNat a < bound) (hof : ofNat (toNat a) = a) :
    (decodeBelow bound (.integer (toNat a))).map ofNat = .ok a := by
  have hin : 0 ≤ (toNat a : Int) ∧ (toNat a : Int) < bound := ⟨by omega, by omega⟩
  rw [decodeBelow, if_pos hin, Int.toNat_natCast]
  exact congrArg _ hof

theorem readsBack_uint8 (n : UInt8) : ReadsBack n := decodeBelow_map n.toNat_lt UInt8.ofNat_toNat

theorem readsBack_uint16 (n : UInt16) : ReadsBack n :=
  decodeBelow_map n.toNat_lt UInt16.ofNat_toNat

theorem readsBack_uint32 (n : UInt32) : ReadsBack n :=
  decodeBelow_map n.toNat_lt UInt32.ofNat_toNat

theorem readsBack_uint64 (n : UInt64) : ReadsBack n :=
  decodeBelow_map n.toNat_lt UInt64.ofNat_toNat

theorem readsBack_number {x : Binary64} (h : x.isFinite = true) : ReadsBack x := by
  show decode (if x.isFinite then Json.number x else .null) = _
  rw [if_pos h]
  rfl

section

variable {α : Type} [Decode α]

theorem decodeItems_map {β : Type} {f : β → Json} {g : β → α} {bs : List β}
    (h : ∀ b ∈ bs, decode (f b) = .ok (g b)) :
    decodeItems (bs.map f) = .ok (bs.map g) := by
  induction bs with
  | nil => rfl
  | cons b bs ih =>
    rw [List.map_cons, decodeItems, h b List.mem_cons_self,
      ih fun c hc => h c (List.mem_cons_of_mem _ hc)]
    rfl

/-- Each item of a list that is read comes from an item of the array. -/
theorem exists_of_decodeItems {items : List Json} {as : List α} (h : decodeItems items = .ok as) :
    ∀ a ∈ as, ∃ v ∈ items, decode v = .ok a := by
  induction items generalizing as with
  | nil =>
    obtain rfl := Except.ok.inj h
    exact fun a ha => absurd ha List.not_mem_nil
  | cons v items ih =>
    rw [decodeItems] at h
    cases hv : (decode v : Except Fault α) with
    | error fault =>
      rw [hv] at h
      exact nomatch h
    | ok a =>
      cases hrest : (decodeItems items : Except Fault (List α)) with
      | error fault =>
        rw [hv, hrest] at h
        exact nomatch h
      | ok rest =>
        rw [hv, hrest] at h
        obtain rfl := Except.ok.inj h
        refine List.forall_mem_cons.2 ⟨⟨v, List.mem_cons_self, hv⟩, fun b hb => ?_⟩
        obtain ⟨u, hu, hb⟩ := ih hrest b hb
        exact ⟨u, List.mem_cons_of_mem _ hu, hb⟩

variable [Encode α]

theorem readsBack_list {as : List α} (h : ∀ a ∈ as, ReadsBack a) : ReadsBack as :=
  (decodeItems_map (g := id) h).trans (congrArg _ as.map_id)

omit [Decode α] in
@[simp] theorem encode_some (a : α) : encode (some a) = encode a := rfl

/-- A value that is not written as null is read back where it is optional. -/
theorem readsBack_some {a : α} (h : ReadsBack a) (hnull : encode a ≠ .null) :
    ReadsBack (some a) := by
  have hdecode : ∀ v : Json, v ≠ .null →
      (decode v : Except Fault (Option α)) = (decode v).map some := by
    intro v hv
    cases v <;> first | rfl | exact absurd rfl hv
  show decode (encode a) = .ok (some a)
  rw [hdecode _ hnull, h]
  rfl

end

/-! ## Tags -/

section

variable {τ α : Type} {tags : List (String × τ)} {s : String} {t : τ}

theorem decodeTagBeside_of_lookup {isEmpty : Json → Bool} (h : tags.lookup s = some t) :
    decodeTagBeside isEmpty tags (.text s) = .ok t := by
  unfold decodeTagBeside
  dsimp only
  rw [Option.bind_some, h]

theorem decodeTag_of_lookup (h : tags.lookup s = some t) : decodeTag tags (.text s) = .ok t :=
  decodeTagBeside_of_lookup h

/-- A tag with a value beside it. -/
theorem decodeTagged_value {decodeValue : τ → Option Json → Except Fault α} (v : Json)
    (h : tags.lookup s = some t) :
    decodeTagged tags decodeValue (.object [("type", .text s), ("value", v)]) =
      decodeValue t (some v) := by
  show (decodeTag tags (.text s) >>= fun tag => decodeValue tag (some v)) = _
  rw [decodeTag_of_lookup h]
  rfl

/-- A tag alone. -/
theorem decodeTagged_alone {decodeValue : τ → Option Json → Except Fault α}
    (h : tags.lookup s = some t) :
    decodeTagged tags decodeValue (.object [("type", .text s)]) = decodeValue t none := by
  show (decodeTag tags (.text s) >>= fun tag => decodeValue tag none) = _
  rw [decodeTag_of_lookup h]
  rfl

end

/-! ## Records -/

namespace Fields

variable {α β : Type} {ms : Members}

theorem read_map_iff {f : α → β} {x : Fields α} {b : β} :
    (f <$> x).read ms = .ok b ↔ ∃ a, x.read ms = .ok a ∧ f a = b := by
  dsimp only [Functor.map, Seq.seq, Pure.pure]
  cases x.read ms <;> simp

theorem read_seq_iff {f : Fields (α → β)} {x : Fields α} {b : β} :
    (f <*> x).read ms = .ok b ↔ ∃ g, f.read ms = .ok g ∧ ∃ a, x.read ms = .ok a ∧ g a = b := by
  dsimp only [Seq.seq]
  cases f.read ms <;> cases x.read ms <;> simp

theorem read_map {f : α → β} {x : Fields α} {a : α} (h : x.read ms = .ok a) :
    (f <$> x).read ms = .ok (f a) := read_map_iff.2 ⟨a, h, rfl⟩

theorem read_seq {f : Fields (α → β)} {x : Fields α} {g : α → β} {a : α}
    (hf : f.read ms = .ok g) (hx : x.read ms = .ok a) : (f <*> x).read ms = .ok (g a) :=
  read_seq_iff.2 ⟨g, hf, a, hx, rfl⟩

section

variable [Decode α] {name : String} {absent : Members → Except (Nat × Fault) α}

/-- What a member reads as is the value found under its name, or what stands for its absence. -/
theorem read_member_iff {a : α} :
    (member name absent).read ms = .ok a ↔
      (∃ place v, ms.find? name = some (place, v) ∧ Json.decode v = .ok a) ∨
        ms.find? name = none ∧ absent ms = .ok a := by
  unfold member
  dsimp only
  cases hfind : ms.find? name with
  | none => simp
  | some found =>
    obtain ⟨place, v⟩ := found
    cases hdecode : (Json.decode v : Except Fault α) <;> simp [Except.mapError, hdecode, and_assoc]

theorem read_required_iff {a : α} :
    (required name).read ms = .ok a ↔
      ∃ place v, ms.find? name = some (place, v) ∧ Json.decode v = .ok a := by
  refine read_member_iff.trans (or_iff_left ?_)
  rintro ⟨-, h⟩
  exact nomatch h

end

/-- The members of an object as a record is read from them. -/
def ofObject (members : List (String × Json)) : Members :=
  ⟨false, fun name => findMember name 0 members, members.length⟩

theorem findMember_eq_some {name : String} {v : Json} {members : List (String × Json)}
    (hmem : (name, v) ∈ members) (hnodup : (members.map Prod.fst).Nodup) (place : Nat) :
    ∃ found, findMember name place members = some (found, v) := by
  induction members generalizing place with
  | nil => exact absurd hmem List.not_mem_nil
  | cons m rest ih =>
    obtain ⟨hnot, hnodup⟩ := List.nodup_cons.1 hnodup
    rcases List.mem_cons.1 hmem with rfl | hmem
    · exact ⟨place, if_pos rfl⟩
    · have hne : m.1 ≠ name := fun h => hnot (h ▸ List.mem_map_of_mem hmem)
      obtain ⟨found, h⟩ := ih hmem hnodup (place + 1)
      exact ⟨found, (if_neg hne).trans h⟩

theorem findMember_eq_none {name : String} {members : List (String × Json)}
    (h : name ∉ members.map Prod.fst) (place : Nat) : findMember name place members = none := by
  induction members generalizing place with
  | nil => rfl
  | cons m rest ih =>
    rw [List.map_cons, List.mem_cons, not_or] at h
    exact (if_neg (Ne.symm h.1)).trans (ih h.2 _)

/-- Where the names are distinct no declared name occurs twice. -/
theorem repeated?_eq_none {members : List (String × Json)}
    (hnodup : (members.map Prod.fst).Nodup) (names : List String) :
    repeated? names members = none := by
  refine List.find?_eq_none.2 fun name _ => ?_
  have hcount : (members.map Prod.fst).count name ≤ 1 := List.nodup_iff_count_le_one.1 hnodup name
  rw [List.count, List.countP_map, List.countP_eq_length_filter] at hcount
  have hlength : (members.filter fun m => m.1 = name).length ≤ 1 := hcount
  simpa using hlength

theorem decode_object {fields : Fields α} {members : List (String × Json)} {a : α}
    (hnodup : (members.map Prod.fst).Nodup) (h : fields.read (ofObject members) = .ok a) :
    fields.decode (.object members) = .ok a := by
  show fields.decodeObject members = _
  unfold decodeObject
  rw [repeated?_eq_none hnodup]
  dsimp only
  rw [show fields.read ⟨false, fun name => findMember name 0 members, members.length⟩ = .ok a
    from h]
  rfl

/-- A member that is present is read, whether or not it may be absent. -/
theorem read_present [Decode α] {name : String} {absent : Members → Except (Nat × Fault) α}
    {members : List (String × Json)} {v : Json} {a : α} (hmem : (name, v) ∈ members)
    (hnodup : (members.map Prod.fst).Nodup) (h : Json.decode v = .ok a) :
    (member name absent).read (ofObject members) = .ok a := by
  obtain ⟨place, hfind⟩ := findMember_eq_some hmem hnodup 0
  exact read_member_iff.2 (.inl ⟨place, v, hfind, h⟩)

theorem read_absent [Decode α] {name : String} {members : List (String × Json)} {a : α}
    (h : name ∉ members.map Prod.fst) :
    (defaulted name a).read (ofObject members) = .ok a :=
  read_member_iff.2 (.inr ⟨findMember_eq_none h 0, rfl⟩)

end Fields

end HostRouting.Json
