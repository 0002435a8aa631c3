import HostRouting.Flow.Selector

/-!
# Exchanging ports

Where a selector asks for a protocol, the traffic the other way has source and destination ports of
TCP and UDP exchanged. A port asked for on one side only moves to the other side.

1. Of the criteria added to a selector the last of each type stays
   (`Selector.criterion?_foldl_add`).
2. The criterion of a type after the exchange is that of the exchanged type before
   (`Selector.criterion?_withPortsExchanged`).
-/

namespace HostRouting

/-- The type of what a criterion of the type becomes for the traffic the other way. -/
def CriterionType.exchanged : CriterionType → CriterionType
  | .tcpSrc => .tcpDst
  | .tcpDst => .tcpSrc
  | .udpSrc => .udpDst
  | .udpDst => .udpSrc
  | t => t

/-- What a criterion becomes for the traffic the other way. -/
def Criterion.exchanged : Criterion → Criterion
  | .tcpSrc p => .tcpDst p
  | .tcpDst p => .tcpSrc p
  | .udpSrc p => .udpDst p
  | .udpDst p => .udpSrc p
  | c => c

@[simp] theorem CriterionType.exchanged_exchanged (t : CriterionType) :
    t.exchanged.exchanged = t := by
  cases t <;> rfl

@[simp] theorem Criterion.type_exchanged (c : Criterion) : c.exchanged.type = c.type.exchanged := by
  cases c <;> rfl

theorem Criterion.exchanged_of_type (c : Criterion) (h : c.type.exchanged = c.type) :
    c.exchanged = c := by
  cases c <;> first | rfl | exact nomatch h

namespace Selector

theorem exchangedPort?_eq (c : Criterion) :
    exchangedPort? c = if c.type.exchanged = c.type then none else some c.exchanged := by
  cases c <;> rfl

/-! ## Criteria of a selector -/

theorem type_of_criterion? {s : Selector} {t : CriterionType} {c : Criterion}
    (h : s.criterion? t = some c) : c.type = t := Catalog.key_of_get? h

theorem mem_toList_iff {s : Selector} {c : Criterion} :
    c ∈ s.toList ↔ s.criterion? c.type = some c := Catalog.mem_toList_iff

/-- Some protocol is asked for just when there is a criterion for it. -/
theorem isNone_ipProtocol? (s : Selector) :
    s.ipProtocol?.isNone = (s.criterion? .ipProto).isNone := by
  unfold ipProtocol?
  cases h : s.criterion? .ipProto with
  | none => rfl
  | some c =>
    have htype := type_of_criterion? h
    cases c <;> first | rfl | exact nomatch htype

/-! ## Adding and dropping -/

theorem criterion?_remove (s : Selector) (t u : CriterionType) :
    (s.remove t).criterion? u = if u = t then none else s.criterion? u := by
  split
  next h => rw [h, criterion?_remove_self]
  next h => exact criterion?_remove_of_ne s h

/-- Of the criteria that are added, the last of a type is found, or else what was there. -/
theorem criterion?_foldl_add (criteria : List Criterion) (s : Selector) (t : CriterionType) :
    (criteria.foldl add s).criterion? t =
      (criteria.reverse.find? (·.type = t)).or (s.criterion? t) := by
  induction criteria generalizing s with
  | nil => rfl
  | cons c rest ih =>
    rw [List.foldl_cons, ih, List.reverse_cons, List.find?_append, Option.or_assoc]
    congr 1
    by_cases h : c.type = t
    · subst h
      rw [criterion?_add_self, List.find?_cons_of_pos (by simp)]
      rfl
    · rw [criterion?_add_of_ne s (Ne.symm h), List.find?_cons_of_neg (by simpa using h)]
      rfl

/-! ## The exchange -/

theorem mem_exchangedPorts_iff {s : Selector} {c : Criterion} :
    c ∈ s.toList.filterMap exchangedPort? ↔
      c.type.exchanged ≠ c.type ∧ ∃ c' ∈ s.criterion? c.type.exchanged, c'.exchanged = c := by
  simp only [List.mem_filterMap, mem_toList_iff, exchangedPort?_eq, Option.mem_def]
  constructor
  · rintro ⟨c', hc', h⟩
    split at h
    · exact nomatch h
    next hport =>
      obtain rfl := Option.some.inj h
      rw [Criterion.type_exchanged, CriterionType.exchanged_exchanged]
      exact ⟨Ne.symm hport, c', hc', rfl⟩
  · rintro ⟨hport, c', hc', rfl⟩
    rw [Criterion.type_exchanged, CriterionType.exchanged_exchanged] at hc' hport
    exact ⟨c', hc', if_neg (Ne.symm hport)⟩

/-- The exchanged port of a type comes from the criterion of the exchanged type, and there is no
other. -/
theorem find?_exchangedPorts (s : Selector) (t : CriterionType) :
    (s.toList.filterMap exchangedPort?).reverse.find? (·.type = t) =
      if t.exchanged = t then none else (s.criterion? t.exchanged).map Criterion.exchanged := by
  cases hfind : (s.toList.filterMap exchangedPort?).reverse.find? (·.type = t) with
  | none =>
    split
    next => rfl
    next hport =>
      cases hc : s.criterion? t.exchanged with
      | none => rfl
      | some c =>
        have htype : c.exchanged.type = t := by
          rw [Criterion.type_exchanged, type_of_criterion? hc, CriterionType.exchanged_exchanged]
        have hmem : c.exchanged ∈ s.toList.filterMap exchangedPort? :=
          mem_exchangedPorts_iff.2 ⟨htype ▸ hport, c, htype ▸ hc, rfl⟩
        have hnone := List.find?_eq_none.1 hfind _ (List.mem_reverse.2 hmem)
        exact absurd (decide_eq_true htype) hnone
  | some c =>
    obtain rfl : c.type = t := by simpa using List.find?_some hfind
    obtain ⟨hport, c', hc', hexchanged⟩ :=
      mem_exchangedPorts_iff.1 (List.mem_reverse.1 (List.mem_of_find?_eq_some hfind))
    rw [if_neg hport, Option.mem_def.1 hc', Option.map_some, hexchanged]

/-- Where a protocol is asked for, every type has the criterion of the exchanged type, exchanged;
where none is, nothing changes. -/
theorem criterion?_withPortsExchanged (s : Selector) (t : CriterionType) :
    s.withPortsExchanged.criterion? t =
      if (s.criterion? .ipProto).isSome then (s.criterion? t.exchanged).map Criterion.exchanged
      else s.criterion? t := by
  unfold withPortsExchanged
  rw [isNone_ipProtocol?]
  cases s.criterion? .ipProto with
  | none => rfl
  | some protocol =>
    rw [if_neg (by simp), if_pos (show (some protocol).isSome = true from rfl)]
    refine (criterion?_foldl_add _ _ t).trans ?_
    rw [find?_exchangedPorts]
    have hothers :
        ((((s.remove .tcpSrc).remove .tcpDst).remove .udpSrc).remove .udpDst).criterion? t =
          if t.exchanged = t then s.criterion? t else none := by
      simp only [criterion?_remove]
      cases t <;> rfl
    rw [hothers]
    by_cases hport : t.exchanged = t
    · rw [if_pos hport, if_pos hport, Option.none_or, hport]
      cases hc : s.criterion? t with
      | none => rfl
      | some c =>
        have htype := type_of_criterion? hc
        rw [Option.map_some, c.exchanged_of_type (htype.symm ▸ hport)]
    · rw [if_neg hport, if_neg hport, Option.or_none]

end Selector

/-- A one-sided port moves and leaves its old type free. -/
example :
    let s := (Selector.empty.add (.ipProto tcpProtocol)).add (.tcpDst 80)
    s.withPortsExchanged = (Selector.empty.add (.ipProto tcpProtocol)).add (.tcpSrc 80) := by
  decide

end HostRouting
