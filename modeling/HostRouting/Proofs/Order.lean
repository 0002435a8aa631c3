import HostRouting.Order

/-!
# Sorting and changes of items

1. Sorting lists the same items in increasing order (`mem_sortedOn`, `increases_sortedOn`).
2. It may be done before or after items are left out (`filter_sortedOn`).
3. It does not see a change of items that keeps the order of their keys (`sortedOn_map`).
-/

namespace HostRouting

open Std

variable {α α' β β' : Type} [Ord β] [Ord β']

/-! ## Items -/

theorem mem_insertOn {key : α → β} {a b : α} {l : List α} :
    b ∈ insertOn key a l ↔ b = a ∨ b ∈ l := by
  induction l with
  | nil => simp [insertOn]
  | cons c l ih =>
    rw [insertOn]
    split
    · simp
    · simp only [List.mem_cons, ih]
      grind

theorem mem_sortedOn {key : α → β} {b : α} {l : List α} : b ∈ sortedOn key l ↔ b ∈ l := by
  induction l with
  | nil => rfl
  | cons a l ih =>
    show b ∈ insertOn key a (sortedOn key l) ↔ _
    rw [mem_insertOn, ih, List.mem_cons]

theorem perm_sortedOn (key : α → β) (l : List α) : List.Perm (sortedOn key l) l := by
  have hinsert : ∀ (a : α) (l : List α), List.Perm (insertOn key a l) (a :: l) := by
    intro a l
    induction l with
    | nil => exact List.Perm.refl _
    | cons b l ih =>
      rw [insertOn]
      split
      · exact List.Perm.refl _
      · exact (ih.cons b).trans (List.Perm.swap a b l)
  induction l with
  | nil => exact List.Perm.refl _
  | cons a l ih => exact (hinsert a _).trans (ih.cons a)

theorem length_sortedOn {key : α → β} {l : List α} : (sortedOn key l).length = l.length :=
  (perm_sortedOn key l).length_eq

/-! ## Order -/

/-- The keys of the items do not decrease. -/
def Increases (key : α → β) (l : List α) : Prop :=
  l.Pairwise fun a b => (compare (key a) (key b)).isLE = true

section

variable [TransOrd β] {key : α → β} {l : List α}

theorem Increases.insertOn (h : Increases key l) (a : α) :
    Increases key (HostRouting.insertOn key a l) := by
  induction l with
  | nil => exact List.pairwise_singleton _ a
  | cons b l ih =>
    obtain ⟨hb, hl⟩ := List.pairwise_cons.1 h
    rw [HostRouting.insertOn]
    split
    next hab =>
      refine List.pairwise_cons.2 ⟨fun c hc => ?_, h⟩
      rcases List.mem_cons.1 hc with rfl | hc
      · exact hab
      · exact TransCmp.isLE_trans hab (hb c hc)
    next hab =>
      refine List.pairwise_cons.2 ⟨fun c hc => ?_, ih hl⟩
      rcases mem_insertOn.1 hc with rfl | hc
      · rw [OrientedCmp.lt_of_not_isLE hab]
        rfl
      · exact hb c hc

theorem increases_sortedOn : Increases key (sortedOn key l) := by
  induction l with
  | nil => exact List.Pairwise.nil
  | cons a l ih => exact ih.insertOn a

/-- What repeats nothing increases strictly when it is sorted. -/
theorem pairwise_lt_sorted [LawfulEqOrd β] {l : List β} (h : l.Nodup) :
    (sorted l).Pairwise fun a b => compare a b = .lt := by
  have hnodup := (perm_sortedOn id l).nodup_iff.2 h
  refine (increases_sortedOn.and hnodup).imp fun {a b} ⟨hle, hne⟩ => ?_
  cases hcompare : compare a b with
  | lt => rfl
  | eq => exact absurd (LawfulEqOrd.eq_of_compare hcompare) hne
  | gt =>
    rw [id, id, hcompare] at hle
    exact nomatch hle

omit [TransOrd β] in
theorem insertOn_of_isLE {a : α} (h : ∀ b ∈ l, (compare (key a) (key b)).isLE = true) :
    insertOn key a l = a :: l := by
  cases l with
  | nil => rfl
  | cons b l => exact if_pos (h b List.mem_cons_self)

theorem filter_insertOn (h : Increases key l) (p : α → Bool) (a : α) :
    (insertOn key a l).filter p = if p a then insertOn key a (l.filter p) else l.filter p := by
  induction l with
  | nil => rw [insertOn, List.filter_cons]; rfl
  | cons b l ih =>
    obtain ⟨hb, hl⟩ := List.pairwise_cons.1 h
    rw [insertOn]
    split
    next hab =>
      rw [List.filter_cons]
      split
      · refine (insertOn_of_isLE fun c hc => ?_).symm
        rcases List.mem_cons.1 (List.mem_filter.1 hc).1 with rfl | hc
        · exact hab
        · exact TransCmp.isLE_trans hab (hb c hc)
      · rfl
    next hab =>
      rw [List.filter_cons, List.filter_cons, ih hl]
      cases p a <;> cases p b <;> simp [insertOn, hab]

/-- Items may be left out before or after sorting. -/
theorem filter_sortedOn (p : α → Bool) :
    (sortedOn key l).filter p = sortedOn key (l.filter p) := by
  induction l with
  | nil => rfl
  | cons a l ih =>
    show (insertOn key a (sortedOn key l)).filter p = _
    rw [filter_insertOn increases_sortedOn, ih, List.filter_cons]
    split <;> rfl

end

/-! ## Changes -/

/-- Sorting does not see a change of items that keeps the order of their keys. -/
theorem sortedOn_map {f : α → α'} {key : α → β} {key' : α' → β'} {l : List α}
    (h : ∀ a ∈ l, ∀ b ∈ l, compare (key' (f a)) (key' (f b)) = compare (key a) (key b)) :
    sortedOn key' (l.map f) = (sortedOn key l).map f := by
  have hinsert : ∀ (a : α) (l : List α),
      (∀ b ∈ l, compare (key' (f a)) (key' (f b)) = compare (key a) (key b)) →
      insertOn key' (f a) (l.map f) = (insertOn key a l).map f := by
    intro a l hl
    induction l with
    | nil => rfl
    | cons b l ih =>
      rw [List.map_cons, insertOn, insertOn, hl b List.mem_cons_self,
        ih fun c hc => hl c (List.mem_cons_of_mem _ hc)]
      split <;> rfl
  induction l with
  | nil => rfl
  | cons a l ih =>
    have htail : sortedOn key' (l.map f) = (sortedOn key l).map f :=
      ih fun b hb c hc => h b (List.mem_cons_of_mem _ hb) c (List.mem_cons_of_mem _ hc)
    show insertOn key' (f a) (sortedOn key' (l.map f)) = (insertOn key a (sortedOn key l)).map f
    rw [htail]
    refine hinsert a _ fun b hb => ?_
    exact h a List.mem_cons_self b (List.mem_cons_of_mem _ (mem_sortedOn.1 hb))

end HostRouting
