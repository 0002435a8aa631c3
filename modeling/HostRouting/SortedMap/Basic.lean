/-!
# Maps in key order

A map is a list of entries whose keys strictly increase, so equal maps are equal lists and
listings come in key order.

Main facts: `get?_insert_self`, `get?_insert_of_ne`, `get?_erase_self` and `get?_erase_of_ne` say
what each operation does to look-ups, and `get?_eq_some_iff` that look-ups list the entries.
-/

namespace HostRouting

open Std

variable {κ ν : Type} [Ord κ]

/-- Entries with strictly increasing keys. -/
def KeysIncrease (entries : List (κ × ν)) : Prop :=
  entries.Pairwise fun a b => compare a.1 b.1 = .lt

/-- A finite map, as the list of its entries in key order. -/
structure SortedMap (κ ν : Type) [Ord κ] where
  entries : List (κ × ν)
  increasing : KeysIncrease entries

namespace SortedMap

/-! ## Operations on entries -/

def lookupEntry (k : κ) : List (κ × ν) → Option ν
  | [] => none
  | e :: rest => if compare k e.1 = .eq then some e.2 else lookupEntry k rest

/-- Puts an entry in its place; an entry with the same key is replaced. -/
def insertEntry (k : κ) (v : ν) : List (κ × ν) → List (κ × ν)
  | [] => [(k, v)]
  | e :: rest =>
    match compare k e.1 with
    | .lt => (k, v) :: e :: rest
    | .eq => (k, v) :: rest
    | .gt => e :: insertEntry k v rest

theorem mem_insertEntry {k : κ} {v : ν} {e : κ × ν} {l : List (κ × ν)}
    (h : e ∈ insertEntry k v l) : e = (k, v) ∨ e ∈ l := by
  induction l with
  | nil => simpa [insertEntry] using h
  | cons a l ih =>
    rw [insertEntry] at h
    split at h <;> simp only [List.mem_cons] at h ⊢ <;> grind

theorem increase_insertEntry [TransOrd κ] (k : κ) (v : ν) {l : List (κ × ν)}
    (h : KeysIncrease l) : KeysIncrease (insertEntry k v l) := by
  induction l with
  | nil => simp [insertEntry, KeysIncrease]
  | cons a l ih =>
    have ha := List.pairwise_cons.1 h
    rw [insertEntry]
    split
    next hk =>
      refine List.pairwise_cons.2 ⟨fun b hb => ?_, h⟩
      rcases List.mem_cons.1 hb with rfl | hb
      · exact hk
      · exact TransCmp.lt_trans hk (ha.1 b hb)
    next hk =>
      refine List.pairwise_cons.2 ⟨fun b hb => ?_, ha.2⟩
      exact (TransCmp.congr_left hk).trans (ha.1 b hb)
    next hk =>
      refine List.pairwise_cons.2 ⟨fun b hb => ?_, ih ha.2⟩
      rcases mem_insertEntry hb with rfl | hb
      · exact OrientedCmp.lt_of_gt hk
      · exact ha.1 b hb

/-! ## Operations -/

def empty : SortedMap κ ν := ⟨[], List.Pairwise.nil⟩

instance : Inhabited (SortedMap κ ν) := ⟨empty⟩

instance : EmptyCollection (SortedMap κ ν) := ⟨empty⟩

def get? (m : SortedMap κ ν) (k : κ) : Option ν := lookupEntry k m.entries

def contains (m : SortedMap κ ν) (k : κ) : Bool := (m.get? k).isSome

/-- Adds an entry, replacing the one with the same key. -/
def insert [TransOrd κ] (m : SortedMap κ ν) (k : κ) (v : ν) : SortedMap κ ν :=
  ⟨insertEntry k v m.entries, increase_insertEntry k v m.increasing⟩

/-- Drops the entry with the given key, if any. -/
def erase (m : SortedMap κ ν) (k : κ) : SortedMap κ ν :=
  ⟨m.entries.filter fun e => compare k e.1 != .eq, m.increasing.filter _⟩

/-- The map of a list of entries; of several with one key the last stays. -/
def ofList [TransOrd κ] (entries : List (κ × ν)) : SortedMap κ ν :=
  entries.foldl (fun m e => m.insert e.1 e.2) empty

def keys (m : SortedMap κ ν) : List κ := m.entries.map Prod.fst

def values (m : SortedMap κ ν) : List ν := m.entries.map Prod.snd

def size (m : SortedMap κ ν) : Nat := m.entries.length

def isEmpty (m : SortedMap κ ν) : Bool := m.entries.isEmpty

instance [DecidableEq κ] [DecidableEq ν] : DecidableEq (SortedMap κ ν) := fun a b =>
  if h : a.entries = b.entries then
    .isTrue (by cases a; cases b; cases h; rfl)
  else
    .isFalse fun hab => h (hab ▸ rfl)

/-! ## Look-ups after an operation -/

@[simp] theorem get?_empty (k : κ) : (empty : SortedMap κ ν).get? k = none := rfl

theorem lookupEntry_insertEntry_self [ReflOrd κ] (k : κ) (v : ν) (l : List (κ × ν)) :
    lookupEntry k (insertEntry k v l) = some v := by
  induction l with
  | nil => simp [insertEntry, lookupEntry, ReflCmp.compare_self]
  | cons a l ih =>
    rw [insertEntry]
    split
    next => simp [lookupEntry, ReflCmp.compare_self]
    next => simp [lookupEntry, ReflCmp.compare_self]
    next hk => simp [lookupEntry, hk, ih]

theorem lookupEntry_insertEntry_of_ne [LawfulEqOrd κ] {k j : κ} (h : j ≠ k) (v : ν)
    (l : List (κ × ν)) : lookupEntry j (insertEntry k v l) = lookupEntry j l := by
  have hjk : compare j k ≠ .eq := fun e => h (LawfulEqCmp.eq_of_compare e)
  induction l with
  | nil => simp [insertEntry, lookupEntry, hjk]
  | cons a l ih =>
    rw [insertEntry]
    split
    next => simp [lookupEntry, hjk]
    next hk =>
      have : k = a.1 := LawfulEqCmp.eq_of_compare hk
      simp [lookupEntry, hjk, ← this]
    next => simp [lookupEntry, ih]

theorem lookupEntry_filter_self (k : κ) (l : List (κ × ν)) :
    lookupEntry k (l.filter fun e => compare k e.1 != .eq) = none := by
  induction l with
  | nil => rfl
  | cons a l ih =>
    by_cases h : compare k a.1 = .eq
    · simp [h, ih]
    · simp [h, lookupEntry, ih]

theorem lookupEntry_filter_of_ne [LawfulEqOrd κ] {k j : κ} (h : j ≠ k)
    (l : List (κ × ν)) :
    lookupEntry j (l.filter fun e => compare k e.1 != .eq) = lookupEntry j l := by
  induction l with
  | nil => rfl
  | cons a l ih =>
    by_cases hk : compare k a.1 = .eq
    · have hka : k = a.1 := LawfulEqCmp.eq_of_compare hk
      have hj : compare j a.1 ≠ .eq := fun e => h ((LawfulEqCmp.eq_of_compare e).trans hka.symm)
      simp [hk, lookupEntry, hj, ih]
    · simp [hk, lookupEntry, ih]

@[simp] theorem get?_insert_self [TransOrd κ] (m : SortedMap κ ν) (k : κ) (v : ν) :
    (m.insert k v).get? k = some v := lookupEntry_insertEntry_self k v m.entries

theorem get?_insert_of_ne [TransOrd κ] [LawfulEqOrd κ] (m : SortedMap κ ν) {k j : κ} (h : j ≠ k)
    (v : ν) : (m.insert k v).get? j = m.get? j := lookupEntry_insertEntry_of_ne h v m.entries

@[simp] theorem get?_erase_self (m : SortedMap κ ν) (k : κ) : (m.erase k).get? k = none :=
  lookupEntry_filter_self k m.entries

theorem get?_erase_of_ne [LawfulEqOrd κ] (m : SortedMap κ ν) {k j : κ} (h : j ≠ k) :
    (m.erase k).get? j = m.get? j := lookupEntry_filter_of_ne h m.entries

/-! ## Entries and look-ups -/

theorem lookupEntry_eq_some_iff [TransOrd κ] [LawfulEqOrd κ] {l : List (κ × ν)}
    (hl : KeysIncrease l) {k : κ} {v : ν} : lookupEntry k l = some v ↔ (k, v) ∈ l := by
  induction l with
  | nil => simp [lookupEntry]
  | cons a l ih =>
    have ha := List.pairwise_cons.1 hl
    by_cases h : compare k a.1 = .eq
    · have hk : k = a.1 := LawfulEqCmp.eq_of_compare h
      subst hk
      have hnot : (a.1, v) ∉ l := fun hm => by
        have := ha.1 _ hm
        rw [h] at this
        exact absurd this (by decide)
      simp [lookupEntry, hnot, Prod.ext_iff, eq_comm]
    · have hne : k ≠ a.1 := fun e => h (e ▸ ReflCmp.compare_self)
      simp [lookupEntry, h, ih ha.2, Prod.ext_iff, hne]

theorem get?_eq_some_iff [TransOrd κ] [LawfulEqOrd κ] {m : SortedMap κ ν} {k : κ} {v : ν} :
    m.get? k = some v ↔ (k, v) ∈ m.entries := lookupEntry_eq_some_iff m.increasing

theorem ext_entries {m n : SortedMap κ ν} (h : m.entries = n.entries) : m = n := by
  cases m; cases n; cases h; rfl

end SortedMap

/-! ## Sets -/

/-- A finite set, listed in increasing order. -/
abbrev SortedSet (κ : Type) [Ord κ] : Type := SortedMap κ Unit

namespace SortedSet

variable [TransOrd κ]

def add (s : SortedSet κ) (a : κ) : SortedSet κ := s.insert a ()

def ofList (items : List κ) : SortedSet κ := items.foldl add SortedMap.empty

def toList (s : SortedSet κ) : List κ := s.keys

end SortedSet

end HostRouting
