import HostRouting.SortedMap.Basic

/-!
# Orders by fields

Values are ordered by their fields, the first difference deciding. The lemmas reduce equality in
such an order to equality of the fields.
-/

namespace HostRouting

open Std

theorem compareOn_eq_iff {α β : Type} [Ord β] [LawfulEqOrd β] {f : α → β} {a b : α} :
    compareOn f a b = .eq ↔ f a = f b :=
  LawfulEqOrd.compare_eq_iff_eq

theorem compareLex_eq_iff {α : Type} {c d : α → α → Ordering} {a b : α} :
    compareLex c d a b = .eq ↔ c a b = .eq ∧ d a b = .eq := by
  simp only [compareLex]
  cases c a b <;> simp [Ordering.then]

/-- Puts an item in front of the first one whose key is not below its own. -/
def insertOn {α β : Type} [Ord β] (key : α → β) (a : α) : List α → List α
  | [] => [a]
  | b :: rest =>
    if (compare (key a) (key b)).isLE then a :: b :: rest else b :: insertOn key a rest

/-- Sorts by a key; items with the same key keep their order. -/
def sortedOn {α β : Type} [Ord β] (key : α → β) (items : List α) : List α :=
  items.foldr (insertOn key) []

/-- Sorts in increasing order. -/
def sorted {α : Type} [Ord α] (items : List α) : List α := sortedOn id items

section Pairs

variable {α β : Type} [Ord α] [Ord β]

/-- Pairs are ordered by the first part, then by the second. -/
local instance pairOrd : Ord (α × β) := lexOrd

/-- Maps are ordered by their lists of entries. -/
instance : Ord (SortedMap α β) := ⟨compareOn SortedMap.entries⟩

instance [TransOrd α] [TransOrd β] : TransOrd (SortedMap α β) :=
  inferInstanceAs (TransCmp (compareOn _))

instance [LawfulEqOrd α] [LawfulEqOrd β] : LawfulEqOrd (SortedMap α β) where
  compare_self := by
    intro a
    exact compareOn_eq_iff.2 rfl
  eq_of_compare := by
    intro a b h
    exact SortedMap.ext_entries (compareOn_eq_iff.1 h)

end Pairs

end HostRouting
