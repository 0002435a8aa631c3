import HostRouting.SortedMap.Catalog

/-!
# The entries of a map after an operation

1. A list whose keys already increase makes the map with these entries (`entries_ofList`).
2. A map with a function applied to its values has the same keys (`get?_mapValues`), and maps with
   the same look-ups are the same (`ext_get?`), and so are catalogs (`Catalog.ext_get?`).
3. In a map to lists an operation on a key changes nothing but the list under it
   (`flatten_insertEntry` and `flatten_filter`).
-/

namespace HostRouting

open Std

variable {κ ν : Type} [Ord κ]

namespace SortedMap

/-! ## Maps with other values -/

variable {μ : Type}

/-- The map with a function applied to every value. -/
def mapValues (g : ν → μ) (m : SortedMap κ ν) : SortedMap κ μ where
  entries := m.entries.map fun e => (e.1, g e.2)
  increasing := by
    unfold KeysIncrease
    rw [List.pairwise_map]
    exact m.increasing

theorem get?_mapValues (g : ν → μ) (m : SortedMap κ ν) (k : κ) :
    (m.mapValues g).get? k = (m.get? k).map g := by
  have hlookup : ∀ l : List (κ × ν),
      lookupEntry k (l.map fun e => (e.1, g e.2)) = (lookupEntry k l).map g := by
    intro l
    induction l with
    | nil => rfl
    | cons e l ih =>
      rw [List.map_cons, lookupEntry, lookupEntry, ih]
      split <;> rfl
  exact hlookup m.entries

theorem values_mapValues (g : ν → μ) (m : SortedMap κ ν) :
    (m.mapValues g).values = m.values.map g := by
  simp [mapValues, values]

variable [TransOrd κ]

theorem mapValues_insert (g : ν → μ) (m : SortedMap κ ν) (k : κ) (v : ν) :
    (m.insert k v).mapValues g = (m.mapValues g).insert k (g v) := by
  refine ext_entries ?_
  show (insertEntry k v m.entries).map (fun e => (e.1, g e.2)) =
    insertEntry k (g v) (m.entries.map fun e => (e.1, g e.2))
  induction m.entries with
  | nil => rfl
  | cons e l ih =>
    rw [List.map_cons, insertEntry, insertEntry]
    cases compare k e.1 with
    | lt => rfl
    | eq => rfl
    | gt => exact congrArg _ ih

/-- Maps with the same look-ups are the same. -/
theorem ext_get? [LawfulEqOrd κ] {m n : SortedMap κ ν}
    (h : ∀ k, m.get? k = n.get? k) : m = n := by
  refine ext_entries ?_
  have hmem : ∀ e, e ∈ m.entries ↔ e ∈ n.entries := fun e => by
    rw [← get?_eq_some_iff, ← get?_eq_some_iff, h]
  have hm := m.increasing
  have hn := n.increasing
  generalize m.entries = l at hmem hm
  generalize n.entries = l' at hmem hn
  induction l generalizing l' with
  | nil =>
    cases l' with
    | nil => rfl
    | cons e l' => exact absurd ((hmem e).2 List.mem_cons_self) List.not_mem_nil
  | cons e l ih =>
    cases l' with
    | nil => exact absurd ((hmem e).1 List.mem_cons_self) List.not_mem_nil
    | cons e' l' =>
      obtain ⟨he, hl⟩ := List.pairwise_cons.1 hm
      obtain ⟨he', hl'⟩ := List.pairwise_cons.1 hn
      have hirrefl : ∀ a : κ, compare a a ≠ .lt := fun a => by
        rw [show compare a a = .eq from ReflCmp.compare_self]
        decide
      have hhead : e = e' := by
        rcases List.mem_cons.1 ((hmem e).1 List.mem_cons_self) with heq | hin
        · exact heq
        · rcases List.mem_cons.1 ((hmem e').2 List.mem_cons_self) with heq | hin'
          · exact heq.symm
          · exact absurd (TransCmp.lt_trans (he' e hin) (he e' hin')) (hirrefl _)
      subst hhead
      refine congrArg _ (ih hl l' (fun a => ?_) hl')
      constructor
      · intro ha
        rcases List.mem_cons.1 ((hmem a).1 (List.mem_cons_of_mem _ ha)) with rfl | ha'
        · exact absurd (he a ha) (hirrefl _)
        · exact ha'
      · intro ha
        rcases List.mem_cons.1 ((hmem a).2 (List.mem_cons_of_mem _ ha)) with rfl | ha'
        · exact absurd (he' a ha) (hirrefl _)
        · exact ha'

/-- Inserting an entry that is there changes nothing. -/
theorem insert_of_get?_eq_some [LawfulEqOrd κ] {m : SortedMap κ ν} {k : κ} {v : ν}
    (h : m.get? k = some v) : m.insert k v = m := by
  refine ext_get? fun j => ?_
  by_cases hj : j = k
  · rw [hj, get?_insert_self, h]
  · exact get?_insert_of_ne m hj v

/-! ## Maps made from sorted entries -/

/-- An entry whose key is above all others goes to the end. -/
theorem insertEntry_of_above {k : κ} {v : ν} {l : List (κ × ν)}
    (h : ∀ e ∈ l, compare e.1 k = .lt) : insertEntry k v l = l ++ [(k, v)] := by
  induction l with
  | nil => rfl
  | cons e l ih =>
    rw [insertEntry, OrientedCmp.gt_of_lt (h e List.mem_cons_self), List.cons_append,
      ← ih fun e he => h e (List.mem_cons_of_mem _ he)]

theorem entries_foldl_insert {l : List (κ × ν)} {m : SortedMap κ ν}
    (h : KeysIncrease (m.entries ++ l)) :
    (l.foldl (fun m e => m.insert e.1 e.2) m).entries = m.entries ++ l := by
  induction l generalizing m with
  | nil => rw [List.append_nil, List.foldl_nil]
  | cons e l ih =>
    have habove : ∀ a ∈ m.entries, compare a.1 e.1 = .lt := fun a ha =>
      (List.pairwise_append.1 h).2.2 a ha e List.mem_cons_self
    have hentries : (m.insert e.1 e.2).entries = m.entries ++ [e] := insertEntry_of_above habove
    rw [List.foldl_cons, ih, hentries, List.append_assoc, List.singleton_append]
    rw [hentries, List.append_assoc, List.singleton_append]
    exact h

theorem entries_ofList {l : List (κ × ν)} (h : KeysIncrease l) : (ofList l).entries = l :=
  entries_foldl_insert (m := empty) h

/-! ## Maps to lists -/

omit [TransOrd κ] in
theorem lookupEntry_of_below {k : κ} {l : List (κ × ν)} (h : ∀ e ∈ l, compare k e.1 = .lt) :
    lookupEntry k l = none := by
  induction l with
  | nil => rfl
  | cons e l ih =>
    rw [lookupEntry, h e List.mem_cons_self, if_neg (by decide)]
    exact ih fun e he => h e (List.mem_cons_of_mem _ he)

variable {α : Type}

/-- Inserting a list into a map to lists puts it in place of the old one in the listing of all. -/
theorem flatten_insertEntry {l : List (κ × List α)} (hl : KeysIncrease l) (k : κ) (v : List α) :
    ∃ left right, (l.map Prod.snd).flatten = left ++ (lookupEntry k l).getD [] ++ right ∧
      ((insertEntry k v l).map Prod.snd).flatten = left ++ v ++ right := by
  induction l with
  | nil => exact ⟨[], [], rfl, by simp [insertEntry]⟩
  | cons e l ih =>
    obtain ⟨habove, hl⟩ := List.pairwise_cons.1 hl
    rw [insertEntry]
    split
    next hk =>
      refine ⟨[], ((e :: l).map Prod.snd).flatten, ?_, by simp⟩
      rw [lookupEntry_of_below]
      · simp
      · intro a ha
        rcases List.mem_cons.1 ha with rfl | ha
        · exact hk
        · exact TransCmp.lt_trans hk (habove a ha)
    next hk =>
      refine ⟨[], (l.map Prod.snd).flatten, ?_, by simp⟩
      simp [lookupEntry, hk]
    next hk =>
      obtain ⟨left, right, hbefore, hafter⟩ := ih hl
      refine ⟨e.2 ++ left, right, ?_, by simp [hafter]⟩
      rw [lookupEntry, hk, if_neg (by decide), List.map_cons, List.flatten_cons, hbefore]
      simp

theorem flatten_filter {l : List (κ × List α)} (hl : KeysIncrease l) (k : κ) :
    ∃ left right, (l.map Prod.snd).flatten = left ++ (lookupEntry k l).getD [] ++ right ∧
      ((l.filter fun e => compare k e.1 != .eq).map Prod.snd).flatten = left ++ right := by
  induction l with
  | nil => exact ⟨[], [], rfl, rfl⟩
  | cons e l ih =>
    obtain ⟨habove, hl⟩ := List.pairwise_cons.1 hl
    by_cases hk : compare k e.1 = .eq
    · have hrest : (l.filter fun e => compare k e.1 != .eq) = l := by
        apply List.filter_eq_self.2
        intro a ha
        simp [TransCmp.congr_left hk, habove a ha]
      refine ⟨[], (l.map Prod.snd).flatten, ?_, ?_⟩
      · simp [lookupEntry, hk]
      · rw [List.filter_cons_of_neg (by simp [hk]), hrest, List.nil_append]
    · obtain ⟨left, right, hbefore, hafter⟩ := ih hl
      refine ⟨e.2 ++ left, right, ?_, ?_⟩
      · rw [lookupEntry, if_neg hk, List.map_cons, List.flatten_cons, hbefore]
        simp
      · rw [List.filter_cons_of_pos (by simp [hk]), List.map_cons, List.flatten_cons, hafter,
          List.append_assoc]

end SortedMap

/-! ## Catalogs -/

/-- Catalogs with the same look-ups are the same. -/
theorem Catalog.ext_get? [TransOrd κ] [LawfulEqOrd κ] {key : ν → κ} {c d : Catalog key}
    (h : ∀ k, c.get? k = d.get? k) : c = d := by
  obtain ⟨m, _⟩ := c
  obtain ⟨m', _⟩ := d
  obtain rfl : m = m' := SortedMap.ext_get? h
  rfl

end HostRouting
