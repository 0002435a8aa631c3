import HostRouting.Heap
import Mathlib.Data.List.Basic

/-!
# Heaps and ranks

1. Pushing and popping rearrange: the items are those that were there, with the one that was pushed
   or without the one that was popped (`perm_push`, `perm_of_pop?`).
2. They see nothing of the items but what goes before what (`push_map`, `pop?_map`).
3. When the items have ranks that fit the relation, no parent ranks above its children, before and
   after each operation (`IsHeap.push`, `IsHeap.pop?`), so the item that is popped has the least
   rank (`IsHeap.rank_pop?_le`).
-/

namespace HostRouting.Heap

variable {α β : Type} {before : α → α → Bool} {heap rest : List α} {i j k n : Nat} {a top : α}

/-! ## Rearrangements -/

theorem perm_exchange (heap : List α) (i j : Nat) : (exchange heap i j).Perm heap := by
  unfold exchange
  split
  next a b ha hb =>
    obtain ⟨hi, rfl⟩ := List.getElem?_eq_some_iff.1 ha
    obtain ⟨hj, rfl⟩ := List.getElem?_eq_some_iff.1 hb
    exact List.set_set_perm hi hj
  next => exact List.Perm.refl _

@[simp] theorem length_exchange (heap : List α) (i j : Nat) :
    (exchange heap i j).length = heap.length := (perm_exchange heap i j).length_eq

theorem perm_rise (before : α → α → Bool) (n i : Nat) (heap : List α) :
    (rise before n i heap).Perm heap := by
  induction n generalizing i heap with
  | zero => exact List.Perm.refl _
  | succ n ih =>
    unfold rise
    split
    · split
      · exact (ih _ _).trans (perm_exchange heap i (parent i))
      · exact List.Perm.refl _
    · exact List.Perm.refl _

theorem perm_sink (before : α → α → Bool) (n i : Nat) (heap : List α) :
    (sink before n i heap).2.Perm heap := by
  induction n generalizing i heap with
  | zero => exact List.Perm.refl _
  | succ n ih =>
    unfold sink
    dsimp only
    split
    · exact (ih _ _).trans (perm_exchange heap i _)
    · exact perm_exchange heap i _
    · exact List.Perm.refl _

theorem perm_push (before : α → α → Bool) (heap : List α) (a : α) :
    (push before heap a).Perm (a :: heap) :=
  (perm_rise _ _ _ _).trans (List.perm_append_singleton a heap)

theorem mem_push_iff {b : α} : b ∈ push before heap a ↔ b = a ∨ b ∈ heap := by
  rw [(perm_push before heap a).mem_iff, List.mem_cons]

@[simp] theorem length_push : (push before heap a).length = heap.length + 1 :=
  (perm_push before heap a).length_eq

/-- The top is taken off, and the last item goes from its place to the top, where it sinks and
rises. -/
theorem pop?_cons_concat (before : α → α → Bool) (top : α) (init : List α) (last : α) :
    pop? before (top :: (init ++ [last])) =
      some (top, rise before (sink before (init.length + 1) 0 (last :: init)).1
        (sink before (init.length + 1) 0 (last :: init)).1
        (sink before (init.length + 1) 0 (last :: init)).2) := by
  unfold pop?
  dsimp only
  rw [List.getLast?_concat, List.dropLast_concat, List.length_append]
  rfl

theorem perm_of_pop? (h : pop? before heap = some (top, rest)) : heap.Perm (top :: rest) := by
  cases heap with
  | nil => exact nomatch h
  | cons first tail =>
    rcases List.eq_nil_or_concat tail with rfl | ⟨init, last, rfl⟩
    · obtain ⟨rfl, rfl⟩ := Prod.mk.inj (Option.some.inj h)
      exact List.Perm.refl _
    · rw [List.concat_eq_append, pop?_cons_concat] at h
      obtain ⟨rfl, rfl⟩ := Prod.mk.inj (Option.some.inj h)
      rw [List.concat_eq_append]
      refine List.Perm.cons first ((List.perm_append_singleton last init).trans ?_)
      exact ((perm_rise _ _ _ _).trans (perm_sink _ _ _ _)).symm

theorem mem_of_pop? (h : pop? before heap = some (top, rest)) {b : α} :
    b ∈ heap ↔ b = top ∨ b ∈ rest := by
  rw [(perm_of_pop? h).mem_iff, List.mem_cons]

theorem length_of_pop? (h : pop? before heap = some (top, rest)) :
    heap.length = rest.length + 1 := (perm_of_pop? h).length_eq

theorem pop?_eq_none_iff : pop? before heap = none ↔ heap = [] := by
  cases heap with
  | nil => exact iff_of_true rfl rfl
  | cons top rest =>
    refine iff_of_false ?_ (by simp)
    unfold pop?
    dsimp only
    split <;> simp

/-! ## Other items -/

section

variable {before' : β → β → Bool} {f : α → β}

theorem exchange_map (f : α → β) (heap : List α) (i j : Nat) :
    exchange (heap.map f) i j = (exchange heap i j).map f := by
  unfold exchange
  rw [List.getElem?_map, List.getElem?_map]
  cases heap[i]? <;> cases heap[j]? <;> simp [List.map_set]

/-- The function keeps what goes before what. -/
def Keeps (before : α → α → Bool) (before' : β → β → Bool) (f : α → β) (items : List α) : Prop :=
  ∀ a ∈ items, ∀ b ∈ items, before' (f a) (f b) = before a b

theorem Keeps.perm {items : List α} (h : Keeps before before' f heap) (hperm : items.Perm heap) :
    Keeps before before' f items :=
  fun a ha b hb => h a (hperm.mem_iff.1 ha) b (hperm.mem_iff.1 hb)

theorem rise_map (h : Keeps before before' f heap) (n i : Nat) :
    rise before' n i (heap.map f) = (rise before n i heap).map f := by
  induction n generalizing i heap with
  | zero => rfl
  | succ n ih =>
    unfold rise
    rw [List.getElem?_map, List.getElem?_map]
    cases ha : heap[i]? with
    | none => rfl
    | some a =>
      cases hp : heap[parent i]? with
      | none => rfl
      | some p =>
        dsimp only [Option.map_some]
        rw [h a (List.mem_of_getElem? ha) p (List.mem_of_getElem? hp), exchange_map]
        split
        · exact ih (h.perm (perm_exchange _ _ _)) _
        · rfl

theorem sink_map (h : Keeps before before' f heap) (n i : Nat) :
    sink before' n i (heap.map f) =
      ((sink before n i heap).1, (sink before n i heap).2.map f) := by
  induction n generalizing i heap with
  | zero => rfl
  | succ n ih =>
    unfold sink
    dsimp only
    rw [List.getElem?_map, List.getElem?_map]
    cases hl : heap[2 * i + 1]? with
    | none => rfl
    | some l =>
      cases hr : heap[2 * i + 1 + 1]? with
      | none => exact Prod.ext rfl (exchange_map f heap i _)
      | some r =>
        dsimp only [Option.map_some]
        rw [h l (List.mem_of_getElem? hl) r (List.mem_of_getElem? hr), exchange_map]
        exact ih (h.perm (perm_exchange _ _ _)) _

theorem push_map (h : Keeps before before' f (a :: heap)) :
    push before' (heap.map f) (f a) = (push before heap a).map f := by
  unfold push
  rw [List.length_map, ← List.map_singleton, ← List.map_append]
  exact rise_map (h.perm (List.perm_append_singleton a heap)) _ _

theorem pop?_map (h : Keeps before before' f heap) :
    pop? before' (heap.map f) = (pop? before heap).map (Prod.map f (List.map f)) := by
  cases heap with
  | nil => rfl
  | cons top tail =>
    rcases List.eq_nil_or_concat tail with rfl | ⟨init, last, rfl⟩
    · rfl
    · rw [List.concat_eq_append] at h ⊢
      have hrest : Keeps before before' f (last :: init) := fun a ha b hb =>
        h a (List.mem_cons_of_mem _ ((List.perm_append_singleton last init).mem_iff.2 ha)) b
          (List.mem_cons_of_mem _ ((List.perm_append_singleton last init).mem_iff.2 hb))
      have hsink := sink_map hrest (init.length + 1) 0
      rw [List.map_cons] at hsink
      rw [List.map_cons, List.map_append, List.map_singleton, pop?_cons_concat, pop?_cons_concat,
        List.length_map, hsink, rise_map (hrest.perm (perm_sink _ _ _ _))]
      rfl

end

/-! ## Places -/

theorem parent_lt (hi : 0 < i) : parent i < i := by
  unfold parent
  omega

theorem parent_eq_iff (hk : 0 < k) : parent k = i ↔ k = 2 * i + 1 ∨ k = 2 * i + 2 := by
  unfold parent
  omega

theorem getElem?_exchange (hi : i < heap.length) (hj : j < heap.length) (k : Nat) :
    (exchange heap i j)[k]? = if k = j then heap[i]? else if k = i then heap[j]? else heap[k]? := by
  unfold exchange
  rw [List.getElem?_eq_getElem hi, List.getElem?_eq_getElem hj]
  dsimp only
  rw [List.getElem?_set, List.getElem?_set]
  grind

/-! ## Order by ranks -/

variable {rank : α → Nat}

/-- What goes before another item does not rank above it, and what does not go before it does not
rank below. -/
def Fits (before : α → α → Bool) (rank : α → Nat) (items : List α) : Prop :=
  ∀ a ∈ items, ∀ b ∈ items,
    (before a b = true → rank a ≤ rank b) ∧ (before a b = false → rank b ≤ rank a)

theorem Fits.perm {items : List α} (h : Fits before rank heap) (hperm : items.Perm heap) :
    Fits before rank items :=
  fun a ha b hb => h a (hperm.mem_iff.1 ha) b (hperm.mem_iff.1 hb)

/-- The item at the first place does not rank above that at the second, if there are both. -/
def LeAt (rank : α → Nat) (heap : List α) (i j : Nat) : Prop :=
  ∀ a ∈ heap[i]?, ∀ b ∈ heap[j]?, rank a ≤ rank b

theorem LeAt.trans (h : LeAt rank heap i j) (h' : LeAt rank heap j k) (hj : j < heap.length) :
    LeAt rank heap i k := fun a ha b hb =>
  Nat.le_trans (h a ha _ (List.getElem?_eq_getElem hj)) (h' _ (List.getElem?_eq_getElem hj) b hb)

theorem leAt_of_length_le (hj : heap.length ≤ j) : LeAt rank heap i j := by
  intro a _ b hb
  rw [List.getElem?_eq_none hj] at hb
  exact nomatch hb

theorem leAt_self : LeAt rank heap i i := fun _ ha _ hb =>
  Nat.le_of_eq (congrArg rank (Option.some.inj (ha.symm.trans hb)))

theorem leAt_of_lookups {heap' : List α} {i' j' : Nat} (h : LeAt rank heap i j)
    (hi : heap'[i']? = heap[i]?) (hj : heap'[j']? = heap[j]?) : LeAt rank heap' i' j' := by
  unfold LeAt
  rw [hi, hj]
  exact h

/-- No parent ranks above its children. -/
def IsHeap (rank : α → Nat) (heap : List α) : Prop :=
  ∀ k, 0 < k → LeAt rank heap (parent k) k

/-- Only the item at the place may rank below its parent. -/
structure Rising (rank : α → Nat) (heap : List α) (i : Nat) : Prop where
  order : ∀ k, 0 < k → k ≠ i → LeAt rank heap (parent k) k
  around : 0 < i → ∀ k, parent k = i → LeAt rank heap (parent i) k

/-- Only the item at the place may rank below its parent, or above its children. -/
structure Sinking (rank : α → Nat) (heap : List α) (i : Nat) : Prop where
  order : ∀ k, 0 < k → k ≠ i → parent k ≠ i → LeAt rank heap (parent k) k
  around : 0 < i → ∀ k, parent k = i → LeAt rank heap (parent i) k

/-! ## Rising -/

theorem Rising.isHeap (h : Rising rank heap i) (hi : 0 < i → LeAt rank heap (parent i) i) :
    IsHeap rank heap := by
  intro k hk
  by_cases hki : k = i
  · exact hki ▸ hi (hki ▸ hk)
  · exact h.order k hk hki

theorem Rising.step (h : Rising rank heap i) (hpos : 0 < i) (hi : i < heap.length)
    (hle : LeAt rank heap i (parent i)) :
    Rising rank (exchange heap i (parent i)) (parent i) := by
  have hlt := parent_lt hpos
  have hp : parent i < heap.length := Nat.lt_trans hlt hi
  have hat := getElem?_exchange hi hp
  have hup : (exchange heap i (parent i))[parent i]? = heap[i]? := (hat _).trans (if_pos rfl)
  have hdown : (exchange heap i (parent i))[i]? = heap[parent i]? := by
    rw [hat, if_neg (Nat.ne_of_gt hlt), if_pos rfl]
  have hkept {k : Nat} (hk : k ≠ i) (hk' : k ≠ parent i) :
      (exchange heap i (parent i))[k]? = heap[k]? := by rw [hat, if_neg hk', if_neg hk]
  constructor
  · intro k hk hkp
    by_cases hki : k = i
    · subst hki
      exact leAt_of_lookups hle hup hdown
    · have horder := h.order k hk hki
      by_cases hpk : parent k = i
      · exact leAt_of_lookups (h.around hpos k hpk) (hpk ▸ hdown) (hkept hki hkp)
      by_cases hpk' : parent k = parent i
      · rw [hpk'] at horder ⊢
        exact leAt_of_lookups (hle.trans horder hp) hup (hkept hki hkp)
      · exact leAt_of_lookups horder (hkept hpk hpk') (hkept hki hkp)
  · intro hpos' k hpk
    have hlt' := parent_lt hpos'
    have hfirst := h.order (parent i) hpos' (Nat.ne_of_lt hlt)
    have hgrand := hkept (Nat.ne_of_lt (Nat.lt_trans hlt' hlt)) (Nat.ne_of_lt hlt')
    by_cases hki : k = i
    · exact leAt_of_lookups hfirst hgrand (hki ▸ hdown)
    · have hk : 0 < k := by
        rcases Nat.eq_zero_or_pos k with rfl | hk
        · rw [← hpk] at hpos'
          exact absurd hpos' (by decide)
        · exact hk
      have hkp : k ≠ parent i := hpk ▸ Nat.ne_of_gt (parent_lt hk)
      have hlast := h.order k hk hki
      rw [hpk] at hlast
      exact leAt_of_lookups (hfirst.trans hlast hp) hgrand (hkept hki hkp)

/-- When the item has risen no parent ranks above its children. -/
theorem Rising.rise (hfits : Fits before rank heap) (h : Rising rank heap i)
    (hi : i < heap.length) (hn : i ≤ n) : IsHeap rank (rise before n i heap) := by
  induction n generalizing i heap with
  | zero => exact h.isHeap fun hpos => absurd hpos (Nat.not_lt.2 hn)
  | succ n ih =>
    have hp : parent i < heap.length := by
      unfold parent
      omega
    unfold Heap.rise
    rw [List.getElem?_eq_getElem hi, List.getElem?_eq_getElem hp]
    dsimp only
    have hfit := hfits _ (List.getElem_mem hi) _ (List.getElem_mem hp)
    split
    next hbefore =>
      have hle : LeAt rank heap i (parent i) := by
        intro a ha p hp'
        rw [List.getElem?_eq_getElem hi] at ha
        rw [List.getElem?_eq_getElem hp] at hp'
        rw [← Option.some.inj ha, ← Option.some.inj hp']
        exact hfit.1 hbefore.2
      have hlt := parent_lt hbefore.1
      exact ih (hfits.perm (perm_exchange _ _ _)) (h.step hbefore.1 hi hle) (by simpa using hp)
        (by omega)
    next hnot =>
      refine h.isHeap fun hpos p hp' a ha => ?_
      rw [List.getElem?_eq_getElem hi] at ha
      rw [List.getElem?_eq_getElem hp] at hp'
      rw [← Option.some.inj ha, ← Option.some.inj hp']
      exact hfit.2 (Bool.eq_false_iff.2 fun hbefore => hnot ⟨hpos, hbefore⟩)

/-! ## Sinking -/

/-- At the bottom nothing is below the item. -/
theorem Sinking.rising (h : Sinking rank heap i) (hleaf : heap.length ≤ 2 * i + 1) :
    Rising rank heap i := by
  refine ⟨fun k hk hki => ?_, h.around⟩
  by_cases hpk : parent k = i
  · refine leAt_of_length_le ?_
    have := (parent_eq_iff hk).1 hpk
    omega
  · exact h.order k hk hki hpk

theorem Sinking.step {c : Nat} (h : Sinking rank heap i) (hi : i < heap.length)
    (hc : c < heap.length) (hpos : 0 < c) (hchild : parent c = i)
    (hleast : ∀ k, 0 < k → parent k = i → LeAt rank heap c k) :
    Sinking rank (exchange heap i c) c := by
  have hlt : i < c := hchild ▸ parent_lt hpos
  have hat := getElem?_exchange hi hc
  have hup : (exchange heap i c)[i]? = heap[c]? := by
    rw [hat, if_neg (Nat.ne_of_lt hlt), if_pos rfl]
  have hkept {k : Nat} (hk : k ≠ i) (hk' : k ≠ c) : (exchange heap i c)[k]? = heap[k]? := by
    rw [hat, if_neg hk', if_neg hk]
  constructor
  · intro k hk hkc hpk
    by_cases hki : k = i
    · subst hki
      have hlt' := parent_lt hk
      exact leAt_of_lookups (h.around hk c hchild)
        (hkept (Nat.ne_of_lt hlt') (Nat.ne_of_lt (Nat.lt_trans hlt' hlt))) hup
    · by_cases hpki : parent k = i
      · exact leAt_of_lookups (hleast k hk hpki) (hpki ▸ hup) (hkept hki hkc)
      · exact leAt_of_lookups (h.order k hk hki hpki) (hkept hpki hpk) (hkept hki hkc)
  · intro _ k hpk
    have hk : 0 < k := by
      rcases Nat.eq_zero_or_pos k with rfl | hk
      · rw [← hpk] at hpos
        exact absurd hpos (by decide)
      · exact hk
    have hck : c < k := hpk ▸ parent_lt hk
    have hki : k ≠ i := Nat.ne_of_gt (Nat.lt_trans hlt hck)
    have hci : parent k ≠ i := hpk ▸ Nat.ne_of_gt hlt
    have horder := h.order k hk hki hci
    rw [hpk] at horder
    exact leAt_of_lookups horder (hchild ▸ hup) (hkept hki (Nat.ne_of_gt hck))

/-- When the item has sunk to the bottom it may rise. -/
theorem Sinking.sink (hfits : Fits before rank heap) (h : Sinking rank heap i)
    (hi : i < heap.length) (hn : heap.length ≤ n + i) :
    (sink before n i heap).1 < heap.length ∧
      Rising rank (sink before n i heap).2 (sink before n i heap).1 := by
  induction n generalizing i heap with
  | zero => exact absurd hi (by omega)
  | succ n ih =>
    unfold Heap.sink
    dsimp only
    split
    next l r hl hr =>
      obtain ⟨hleft, rfl⟩ := List.getElem?_eq_some_iff.1 hl
      obtain ⟨hright, rfl⟩ := List.getElem?_eq_some_iff.1 hr
      have hfit := hfits _ (List.getElem_mem hleft) _ (List.getElem_mem hright)
      generalize hc : (if before heap[2 * i + 1] heap[2 * i + 1 + 1] = true then 2 * i + 1
        else 2 * i + 1 + 1) = c
      have hcases : c = 2 * i + 1 ∨ c = 2 * i + 2 := by
        rw [← hc]
        split
        · exact .inl rfl
        · exact .inr rfl
      have hpos : 0 < c := by omega
      have hlength : c < heap.length := by omega
      have hleast : ∀ k, 0 < k → parent k = i → LeAt rank heap c k := by
        intro k hk hpk x hx y hy
        obtain ⟨hxc, rfl⟩ := List.getElem?_eq_some_iff.1 hx
        obtain ⟨hyk, rfl⟩ := List.getElem?_eq_some_iff.1 hy
        have hk := (parent_eq_iff hk).1 hpk
        grind
      obtain ⟨hplace, hrising⟩ := ih (hfits.perm (perm_exchange heap i c))
        (h.step hi hlength hpos ((parent_eq_iff hpos).2 hcases) hleast) (by simpa using hlength)
        (by rw [length_exchange]; omega)
      exact ⟨by simpa using hplace, hrising⟩
    next l hl hr =>
      obtain ⟨hleft, -⟩ := List.getElem?_eq_some_iff.1 hl
      have hend := List.getElem?_eq_none_iff.1 hr
      have hchild : parent (2 * i + 1) = i := (parent_eq_iff (by omega)).2 (.inl rfl)
      refine ⟨hleft, (h.step hi hleft (by omega) hchild fun k hk hpk => ?_).rising ?_⟩
      · rcases (parent_eq_iff hk).1 hpk with rfl | rfl
        · exact leAt_self
        · exact leAt_of_length_le hend
      · rw [length_exchange]
        omega
    next hl => exact ⟨hi, h.rising (List.getElem?_eq_none_iff.1 hl)⟩

/-! ## Heaps -/

namespace IsHeap

theorem nil : IsHeap rank ([] : List α) := fun _ _ => leAt_of_length_le (Nat.zero_le _)

theorem push (h : IsHeap rank heap) (hfits : Fits before rank (a :: heap)) :
    IsHeap rank (push before heap a) := by
  have hrising : Rising rank (heap ++ [a]) heap.length := by
    refine ⟨fun k hk hkl => ?_, fun _ k hpk => ?_⟩
    · rcases Nat.lt_or_gt_of_ne hkl with hlt | hgt
      · exact leAt_of_lookups (h k hk)
          (List.getElem?_append_left (Nat.lt_trans (parent_lt hk) hlt))
          (List.getElem?_append_left hlt)
      · refine leAt_of_length_le ?_
        rw [List.length_append, List.length_singleton]
        exact hgt
    · refine leAt_of_length_le ?_
      unfold parent at hpk
      rw [List.length_append, List.length_singleton]
      omega
  exact hrising.rise (hfits.perm (List.perm_append_singleton a heap)) (by simp) (Nat.le_refl _)

theorem pop? (h : IsHeap rank heap) (hfits : Fits before rank heap)
    (hpop : pop? before heap = some (top, rest)) : IsHeap rank rest := by
  cases heap with
  | nil => exact nomatch hpop
  | cons first tail =>
    rcases List.eq_nil_or_concat tail with rfl | ⟨init, last, rfl⟩
    · obtain ⟨-, rfl⟩ := Prod.mk.inj (Option.some.inj hpop)
      exact nil
    · rw [List.concat_eq_append] at h hfits hpop
      rw [pop?_cons_concat] at hpop
      obtain ⟨-, rfl⟩ := Prod.mk.inj (Option.some.inj hpop)
      have hfits' : Fits before rank (last :: init) := fun a ha b hb =>
        hfits a (List.mem_cons_of_mem _ ((List.perm_append_singleton last init).mem_iff.2 ha)) b
          (List.mem_cons_of_mem _ ((List.perm_append_singleton last init).mem_iff.2 hb))
      have hat {k : Nat} (hk : 0 < k) (hlt : k < init.length + 1) :
          (last :: init)[k]? = (first :: (init ++ [last]))[k]? := by
        obtain ⟨k, rfl⟩ : ∃ m, k = m + 1 := ⟨k - 1, by omega⟩
        rw [List.getElem?_cons_succ, List.getElem?_cons_succ,
          List.getElem?_append_left (by omega)]
      have hsinking : Sinking rank (last :: init) 0 := by
        refine ⟨fun k hk _ hpk => ?_, fun hpos => absurd hpos (Nat.lt_irrefl 0)⟩
        by_cases hlt : k < init.length + 1
        · exact leAt_of_lookups (h k hk)
            (hat (Nat.pos_of_ne_zero hpk) (Nat.lt_trans (parent_lt hk) hlt)) (hat hk hlt)
        · exact leAt_of_length_le (by simpa using Nat.not_lt.1 hlt)
      obtain ⟨hplace, hrising⟩ := hsinking.sink (n := init.length + 1) hfits' (Nat.zero_lt_succ _)
        (by simp)
      refine hrising.rise (hfits'.perm (perm_sink _ _ _ _)) ?_ (Nat.le_refl _)
      rwa [(perm_sink _ _ _ _).length_eq]

theorem leAt_top (h : IsHeap rank heap) (k : Nat) : LeAt rank heap 0 k := by
  induction k using Nat.strongRecOn with
  | ind k ih =>
    rcases Nat.eq_zero_or_pos k with rfl | hk
    · exact leAt_self
    · by_cases hlt : k < heap.length
      · exact (ih _ (parent_lt hk)).trans (h k hk) (Nat.lt_trans (parent_lt hk) hlt)
      · exact leAt_of_length_le (Nat.not_lt.1 hlt)

theorem rank_pop?_le (h : IsHeap rank heap) (hpop : Heap.pop? before heap = some (top, rest))
    {b : α} (hb : b ∈ heap) : rank top ≤ rank b := by
  obtain ⟨k, hk⟩ := List.mem_iff_getElem?.1 hb
  refine h.leAt_top k top ?_ b hk
  cases heap with
  | nil => exact nomatch hpop
  | cons first tail =>
    unfold Heap.pop? at hpop
    dsimp only at hpop
    split at hpop <;> exact congrArg some (Prod.mk.inj (Option.some.inj hpop)).1

end IsHeap

end HostRouting.Heap
