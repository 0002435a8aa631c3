import HostRouting.SortedMap.Basic

/-!
# Catalogs

A catalog files values under keys of their own and lists them in the order of the keys. Adding a
value replaces the one with the same key.

Main facts: `key_of_get?` (what is found under a key has that key), `get?_insert_self`,
`get?_insert_of_ne`, `get?_erase_self` and `get?_erase_of_ne` on look-ups after an operation,
`mem_toList_iff` (the listing has what is found) and `ext_toList` (catalogs that list the same are
the same).
-/

namespace HostRouting

open Std

variable {κ ν : Type} [Ord κ]

/-- Values by a key that each of them has. -/
structure Catalog (key : ν → κ) where
  byKey : SortedMap κ ν
  keyed : ∀ e ∈ byKey.entries, key e.2 = e.1

namespace Catalog

variable {key : ν → κ}

/-! ## Operations -/

def empty : Catalog key := ⟨.empty, by simp [SortedMap.empty]⟩

def get? (c : Catalog key) (k : κ) : Option ν := c.byKey.get? k

/-- Adds a value, replacing the one with the same key. -/
def insert [TransOrd κ] (c : Catalog key) (v : ν) : Catalog key where
  byKey := c.byKey.insert (key v) v
  keyed := by
    intro e he
    rcases SortedMap.mem_insertEntry he with rfl | he
    · rfl
    · exact c.keyed e he

/-- Drops the value with the given key, if any. -/
def erase (c : Catalog key) (k : κ) : Catalog key where
  byKey := c.byKey.erase k
  keyed e he := c.keyed e (List.mem_filter.1 he).1

/-- The catalog of a list of values; of several with one key the last stays. -/
def ofList [TransOrd κ] (values : List ν) : Catalog key := values.foldl insert empty

/-- The values in the order of their keys. -/
def toList (c : Catalog key) : List ν := c.byKey.values

def size (c : Catalog key) : Nat := c.byKey.size

def isEmpty (c : Catalog key) : Bool := c.byKey.isEmpty

instance [DecidableEq κ] [DecidableEq ν] : DecidableEq (Catalog key) := fun a b =>
  if h : a.byKey = b.byKey then
    .isTrue (by cases a; cases b; cases h; rfl)
  else
    .isFalse fun hab => h (hab ▸ rfl)

/-! ## Look-ups -/

@[simp] theorem get?_empty (k : κ) : (empty : Catalog key).get? k = none := rfl

@[simp] theorem get?_insert_self [TransOrd κ] (c : Catalog key) (v : ν) :
    (c.insert v).get? (key v) = some v := SortedMap.get?_insert_self _ _ _

theorem get?_insert_of_ne [TransOrd κ] [LawfulEqOrd κ] (c : Catalog key) {v : ν} {k : κ}
    (h : k ≠ key v) : (c.insert v).get? k = c.get? k := SortedMap.get?_insert_of_ne _ h _

@[simp] theorem get?_erase_self (c : Catalog key) (k : κ) : (c.erase k).get? k = none :=
  SortedMap.get?_erase_self _ _

theorem get?_erase_of_ne [LawfulEqOrd κ] (c : Catalog key) {k j : κ} (h : j ≠ k) :
    (c.erase k).get? j = c.get? j := SortedMap.get?_erase_of_ne _ h

theorem key_of_get? [TransOrd κ] [LawfulEqOrd κ] {c : Catalog key} {k : κ} {v : ν}
    (h : c.get? k = some v) : key v = k := c.keyed _ (SortedMap.get?_eq_some_iff.1 h)

/-! ## Listing -/

theorem entries_eq_map_toList (c : Catalog key) :
    c.byKey.entries = c.toList.map fun v => (key v, v) := by
  simp only [toList, SortedMap.values, List.map_map]
  conv => lhs; rw [← List.map_id c.byKey.entries]
  refine List.map_congr_left fun e he => ?_
  exact Prod.ext (c.keyed e he).symm rfl

theorem mem_toList_iff [TransOrd κ] [LawfulEqOrd κ] {c : Catalog key} {v : ν} :
    v ∈ c.toList ↔ c.get? (key v) = some v := by
  unfold get?
  rw [SortedMap.get?_eq_some_iff, c.entries_eq_map_toList]
  simp

theorem increasing_toList (c : Catalog key) :
    c.toList.Pairwise fun v w => compare (key v) (key w) = .lt := by
  have hincreasing := c.byKey.increasing
  rw [c.entries_eq_map_toList] at hincreasing
  exact List.pairwise_map.1 hincreasing

theorem ext_toList {c d : Catalog key} (h : c.toList = d.toList) : c = d := by
  have hb : c.byKey = d.byKey := SortedMap.ext_entries (by
    rw [entries_eq_map_toList, entries_eq_map_toList, h])
  cases c; cases d; cases hb; rfl

end Catalog

end HostRouting
