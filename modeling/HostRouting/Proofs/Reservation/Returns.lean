import HostRouting.Proofs.Reservation.Ledger

/-!
# Giving allocations back

Taking back what one consumer holds leaves what the others hold, and what is not held is not taken
back. A quantity that is not a number is never found, so a consumer that gives everything back keeps
it (`Ledger.holding_giveBack_held`).
-/

namespace HostRouting

/-! ## Quantities that are not numbers -/

theorem Binary64.beq_self_of_ne_nan {x : Binary64} (h : x ≠ .nan) : (x == x) = true := by
  cases x with
  | nan => exact absurd rfl h
  | infinity s => cases s <;> rfl
  | finite s m =>
    show (some (compare (signedUnits s m) (signedUnits s m)) == some .eq) = true
    rw [show compare (signedUnits s m) (signedUnits s m) = .eq from Std.ReflCmp.compare_self]
    rfl

theorem Binary64.ne_nan_of_isFinite {x : Binary64} (h : x.isFinite = true) : x ≠ .nan := by
  rintro rfl
  exact nomatch h

/-- A quantity that is not a number makes a resource different from every other and itself. -/
theorem Resource.beq_eq_false_of_nan {r : Resource} (h : r.value = .nan) (r' : Resource) :
    (r == r') = false := by
  rw [Bool.eq_false_iff]
  intro hbeq
  have hvalue := (Resource.beq_iff.1 hbeq).2
  rw [h] at hvalue
  exact nomatch hvalue

namespace Ledger

variable {l : Ledger} {c d : Consumer}

theorem consumer_of_mem_held {a : Allocation} (h : a ∈ l.held d) : a.consumer = d := by
  obtain ⟨r, -, rfl⟩ := List.mem_map.1 h
  rfl

/-! ## What others give back -/

theorem holding_releaseOne_of_ne (l : Ledger) {a : Allocation} (h : d ≠ a.consumer) :
    (l.releaseOne a).1.holding d = l.holding d := by
  unfold releaseOne
  dsimp only
  split
  · exact holding_setHolding_of_ne _ h _
  · rfl

/-- What others give back leaves what a consumer holds. -/
theorem holding_giveBack_of_ne {allocations : List Allocation}
    (h : ∀ a ∈ allocations, d ≠ a.consumer) : (giveBack l allocations).holding d = l.holding d := by
  have hrelease : (l.release allocations).1.holding d = l.holding d := by
    induction allocations generalizing l with
    | nil => rfl
    | cons a rest ih =>
      exact (ih (l := (l.releaseOne a).1) fun b hb => h b (List.mem_cons_of_mem _ hb)).trans
        (l.holding_releaseOne_of_ne (h a List.mem_cons_self))
  unfold giveBack
  split
  · rfl
  · exact hrelease

theorem holding_allocate_of_ne {resources : List Resource} (h : d ≠ c) :
    (l.allocate c resources).1.holding d = l.holding d := by
  unfold allocate
  split
  · exact holding_setHolding_of_ne _ h _
  · rfl

/-! ## What is not held -/

/-- What is not held is not taken back. -/
theorem releaseOne_of_not_held {a : Allocation}
    (h : ∀ r ∈ l.holding a.consumer, (a.resource == r) = false) : l.releaseOne a = (l, false) := by
  have hmissing : (l.holding a.consumer).contains a.resource = false := by
    rw [Bool.eq_false_iff]
    intro hfound
    obtain ⟨r, hr, hbeq⟩ := List.contains_iff_exists_mem_beq.1 hfound
    rw [h r hr] at hbeq
    exact nomatch hbeq
  unfold releaseOne
  dsimp only
  rw [if_neg (by simp [hmissing])]

theorem giveBack_of_not_held {allocations : List Allocation}
    (h : ∀ a ∈ allocations, ∀ r ∈ l.holding a.consumer, (a.resource == r) = false) :
    giveBack l allocations = l := by
  have hrelease : (l.release allocations).1 = l := by
    induction allocations with
    | nil => rfl
    | cons a rest ih =>
      show ((l.releaseOne a).1.release rest).1 = l
      rw [releaseOne_of_not_held (h a List.mem_cons_self)]
      exact ih fun b hb => h b (List.mem_cons_of_mem _ hb)
  unfold giveBack
  split
  · rfl
  · exact hrelease

/-! ## What a consumer gives back -/

/-- A consumer that gives back everything of some kind keeps what is not a number: it is never
found. -/
theorem holding_release_filter {p : Resource → Bool}
    (hp : ∀ r r', (r == r') = true → p r = p r') (kept resources : List Resource)
    (hl : l.holding c = kept ++ resources) (hkept : ∀ r ∈ kept, p r = false ∨ r.value = .nan) :
    (l.release ((resources.filter p).map (⟨·, c⟩))).1.holding c =
      kept ++ resources.filter fun r => !p r || r.value = .nan := by
  induction resources generalizing kept l with
  | nil => exact hl
  | cons r rest ih =>
    have hstay (hr : p r = false ∨ r.value = .nan) :
        (l.release ((rest.filter p).map (⟨·, c⟩))).1.holding c =
          kept ++ (r :: rest).filter fun r => !p r || r.value = .nan := by
      rw [ih (kept ++ [r]) (by rw [hl, List.append_assoc]; rfl) ?_,
        List.filter_cons_of_pos (by simpa using hr), List.append_assoc]
      · rfl
      · intro r' hr'
        rcases List.mem_append.1 hr' with hr' | hr'
        · exact hkept r' hr'
        · rw [List.mem_singleton.1 hr']
          exact hr
    by_cases hkind : p r = true
    · rw [List.filter_cons_of_pos hkind]
      show ((l.releaseOne ⟨r, c⟩).1.release ((rest.filter p).map (⟨·, c⟩))).1.holding c = _
      by_cases hr : r.value = .nan
      · rw [releaseOne_of_not_held fun r' _ => Resource.beq_eq_false_of_nan hr r']
        exact hstay (.inr hr)
      · have hself : (r == r) = true :=
          Resource.beq_iff.2 ⟨rfl, Binary64.beq_self_of_ne_nan hr⟩
        have hother : ∀ r' ∈ kept, ¬(r' == r) = true := by
          intro r' hr' hbeq
          rcases hkept r' hr' with hne | hnan
          · rw [hp r' r hbeq, hkind] at hne
            exact nomatch hne
          · rw [Resource.beq_eq_false_of_nan hnan] at hbeq
            exact nomatch hbeq
        have hfirst : (l.releaseOne ⟨r, c⟩).1.holding c = kept ++ rest := by
          unfold releaseOne
          dsimp only
          rw [if_pos (List.contains_iff_exists_mem_beq.2 ⟨r, by simp [hl], hself⟩),
            holding_setHolding_self, hl, List.erase_eq_eraseP', List.eraseP_append_right,
            List.eraseP_cons_of_pos (p := (· == r)) hself]
          exact hother
        rw [ih kept hfirst hkept, List.filter_cons_of_neg (by simpa [hkind] using hr)]
    · rw [List.filter_cons_of_neg hkind]
      exact hstay (.inl (Bool.eq_false_iff.2 hkind))

theorem holding_giveBack_filter (l : Ledger) (d : Consumer) {p : Resource → Bool}
    (hp : ∀ r r', (r == r') = true → p r = p r') :
    (giveBack l ((l.held d).filter (p ·.resource))).holding d =
      (l.holding d).filter fun r => !p r || r.value = .nan := by
  have hkind : (l.held d).filter (p ·.resource) = ((l.holding d).filter p).map (⟨·, d⟩) :=
    List.filter_map
  unfold giveBack
  rw [hkind]
  split
  next hnone =>
    have hnothing : (l.holding d).filter p = [] := List.map_eq_nil_iff.1 (List.isEmpty_iff.1 hnone)
    refine (List.filter_eq_self.2 fun r hr => ?_).symm
    simp [Bool.eq_false_iff.2 (List.filter_eq_nil_iff.1 hnothing r hr)]
  next => exact holding_release_filter hp [] _ rfl fun r hr => absurd hr List.not_mem_nil

theorem holding_giveBack_held (l : Ledger) (d : Consumer) :
    (giveBack l (l.held d)).holding d = (l.holding d).filter (·.value = .nan) := by
  have hall := l.holding_giveBack_filter d (p := fun _ => true) fun _ _ _ => rfl
  rw [List.filter_eq_self.2 fun _ _ => rfl] at hall
  simpa using hall

end Ledger

end HostRouting
