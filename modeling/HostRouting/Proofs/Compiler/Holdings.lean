import HostRouting.Proofs.Compiler.Cases
import HostRouting.Proofs.Reservation.Reserve
import HostRouting.Proofs.Reservation.Returns

/-!
# Whose reservations a call changes

1. Compiling an intent changes what the intent and its group hold and nothing else
   (`compile_othersKept`).
2. What is held is equal to itself as long as its quantities are finite, and then withdrawing an
   intent leaves nothing under its key (`holding_withdraw_self`).
-/

namespace HostRouting

/-- The bandwidth asked for, if any, is finite. -/
def Connectivity.AsksFinite (c : Connectivity) : Prop :=
  ∀ b, c.requestedBandwidth? = some b → b.bps.isFinite = true

namespace Ledger

/-! ## Allocations and holdings -/

theorem mem_allocations_iff {l : Ledger} {a : Allocation} :
    a ∈ l.allocations ↔ a.resource ∈ l.holding a.consumer := by
  unfold allocations holding
  rw [List.mem_flatMap]
  constructor
  · rintro ⟨e, he, ha⟩
    obtain ⟨r, hr, rfl⟩ := List.mem_map.1 ha
    rw [SortedMap.get?_eq_some_iff.2 he]
    exact hr
  · intro ha
    cases hget : l.holdings.get? a.consumer with
    | none =>
      rw [hget] at ha
      exact absurd ha List.not_mem_nil
    | some resources =>
      rw [hget] at ha
      exact ⟨_, SortedMap.get?_eq_some_iff.1 hget, List.mem_map.2 ⟨a.resource, ha, rfl⟩⟩

theorem mem_everything_of_holding {l : Ledger} {c : Consumer} {r : Resource}
    (h : r ∈ l.holding c) : r ∈ l.everything := by
  obtain ⟨left, right, hbefore, -⟩ := l.everything_setHolding c []
  rw [hbefore]
  exact List.mem_append_left _ (List.mem_append_right _ h)

/-! ## What others hold -/

/-- All quantities that are held are finite. -/
def HoldsFinite (l : Ledger) : Prop := ∀ r ∈ l.everything, r.value.isFinite = true

/-- A later ledger in which everyone but an intent and its group holds what they held. -/
structure OthersKept (c : Connectivity) (before after : Ledger) : Prop where
  holding : ∀ d, d ≠ c.consumer → d ≠ .intent c.key → after.holding d = before.holding d
  finite : before.HoldsFinite → after.HoldsFinite

section

variable {c : Connectivity} {l l' l'' : Ledger}

theorem OthersKept.refl : OthersKept c l l := ⟨fun _ _ _ => rfl, id⟩

theorem OthersKept.trans (h : OthersKept c l l') (h' : OthersKept c l' l'') :
    OthersKept c l l'' :=
  ⟨fun d hd hkey => (h'.holding d hd hkey).trans (h.holding d hd hkey), h'.finite ∘ h.finite⟩

/-- What other intents hold under their keys is kept. -/
theorem OthersKept.holding_intent (h : OthersKept c l l') {key : IntentKey} (hkey : key ≠ c.key) :
    l'.holding (.intent key) = l.holding (.intent key) := by
  refine h.holding _ ?_ fun heq => hkey (Consumer.intent.inj heq)
  unfold Connectivity.consumer
  split
  · rintro ⟨⟩
  · exact fun heq => hkey (Consumer.intent.inj heq)

theorem releaseOne_othersKept (l : Ledger) {a : Allocation}
    (h : a.consumer = c.consumer ∨ a.consumer = .intent c.key) :
    OthersKept c l (l.releaseOne a).1 where
  holding d hd hkey :=
    l.holding_releaseOne_of_ne (h.elim (fun h => h ▸ hd) fun h => h ▸ hkey)
  finite hl := by
    -- Whoever the allocation belongs to, what is left was there.
    have hspec : Remains a.consumer [a.resource.id] l (l.releaseOne a).1 :=
      l.releaseOne_spec fun _ => List.mem_singleton_self _
    exact fun r hr => hl r (hspec.everything.mem hr)

theorem giveBack_othersKept (l : Ledger) {allocations : List Allocation}
    (h : ∀ a ∈ allocations, a.consumer = c.consumer ∨ a.consumer = .intent c.key) :
    OthersKept c l (giveBack l allocations) := by
  have hrelease : OthersKept c l (l.release allocations).1 := by
    induction allocations generalizing l with
    | nil => exact OthersKept.refl
    | cons a rest ih =>
      exact (l.releaseOne_othersKept (h a List.mem_cons_self)).trans
        (ih (l.releaseOne a).1 fun b hb => h b (List.mem_cons_of_mem _ hb))
  unfold giveBack
  split
  · exact OthersKept.refl
  · exact hrelease

theorem giveBackOwn_othersKept (l : Ledger) : OthersKept c l (giveBackOwn l c) := by
  unfold giveBackOwn
  split
  · exact giveBack_othersKept _ fun a ha => .inr (consumer_of_mem_held ha)
  · exact OthersKept.refl

theorem allocate_othersKept (l : Ledger) {resources : List Resource}
    (h : ∀ r ∈ resources, r.value.isFinite = true) :
    OthersKept c l (l.allocate c.consumer resources).1 := by
  unfold allocate
  split
  · refine ⟨fun d hd _ => holding_setHolding_of_ne _ hd _, fun hl r hr => ?_⟩
    obtain ⟨left, right, hbefore, hafter⟩ :=
      l.everything_setHolding c.consumer (l.holding c.consumer ++ resources)
    unfold HoldsFinite at hl
    rw [hbefore] at hl
    rw [hafter] at hr
    simp only [List.mem_append] at hl hr
    rcases hr with (hr | hr | hr) | hr
    · exact hl r (.inl (.inl hr))
    · exact hl r (.inl (.inr hr))
    · exact h r hr
    · exact hl r (.inr hr)
  · exact OthersKept.refl

theorem reserve_othersKept (l : Ledger) (hfinite : c.AsksFinite) (points : List ConnectPoint) :
    OthersKept c l (reserve l c points).1 := by
  cases hc : c.requestedBandwidth? with
  | none =>
    unfold reserve
    rw [hc]
    exact OthersKept.refl
  | some b =>
    rw [reserve_eq hc]
    split
    · exact OthersKept.refl
    · have hcleared : OthersKept c l (clearedLedger l c b points) := by
        unfold clearedLedger
        refine OthersKept.trans ?_ (giveBackOwn_othersKept _)
        exact giveBack_othersKept l fun a ha =>
          .inl (consumer_of_mem_held (List.mem_filter.1 ha).1)
      refine hcleared.trans (allocate_othersKept _ fun r hr => ?_)
      rw [value_of_mem_neededResources (outstanding_subset hr)]
      exact hfinite b hc

end

end Ledger

/-! ## Calls -/

section

variable {σ : Type} [LinkStore σ]

theorem installBoth_othersKept (flavor : InstallableFlavor) (l : Ledger) {i : HostIntent}
    (hfinite : i.base.AsksFinite) (there back : Path) (one two : Host) :
    l.OthersKept i.base (installBoth flavor l i there back one two).2 := by
  have hthere := l.reserve_othersKept hfinite there.connectPoints
  have hback := (reserve l i.base there.connectPoints).1.reserve_othersKept hfinite
    back.connectPoints
  unfold installBoth install
  split
  · rename_i h
    rw [← (Prod.mk.inj h).2]
    exact hthere
  · rename_i h
    rw [(Prod.mk.inj h).2] at hthere hback
    split
    · rename_i h
      rw [← (Prod.mk.inj h).2]
      exact hthere.trans hback
    · rename_i h
      rw [← (Prod.mk.inj h).2]
      exact hthere.trans hback

/-- Compiling an intent leaves what all but the intent and its group hold. -/
theorem compile_othersKept (c : Compiler σ) (s : Stores σ Ledger) {i : HostIntent}
    (hfinite : i.base.AsksFinite) :
    s.resources.OthersKept i.base (compile c s i).stores.resources := by
  rcases compile_cases c s i with ⟨-, hc⟩ | ⟨e, -, hc⟩ | ⟨bare, e, -, hc⟩ |
    ⟨bare, links, there, back, one, two, -, hc⟩
  · rw [hc]
    exact Ledger.OthersKept.refl
  · rw [hc]
    exact Ledger.OthersKept.refl
  · rw [hc]
    exact Ledger.OthersKept.refl
  · rw [hc]
    exact installBoth_othersKept _ _ (i := i.routed there back) hfinite there back one two

theorem withdraw_othersKept (config : CompilerConfig) (s : Stores σ Ledger) (i : HostIntent) :
    s.resources.OthersKept i.base (withdraw config s i).stores.resources := by
  rcases withdraw_cases config s i with ⟨e, -, hw⟩ | ⟨bare, -, hw⟩
  · rw [hw]
    exact Ledger.OthersKept.refl
  · rw [hw]
    exact Ledger.giveBack_othersKept _ fun a ha => .inr (Ledger.consumer_of_mem_held ha)

/-- A withdrawn intent holds nothing under its key. -/
theorem holding_withdraw_self {config : CompilerConfig} {s : Stores σ Ledger} {i : HostIntent}
    (hfinite : ∀ r ∈ s.resources.holding (.intent i.base.key), r.value.isFinite = true)
    (h : (withdraw config s i).result = .ok ()) :
    (withdraw config s i).stores.resources.holding (.intent i.base.key) = [] := by
  rcases withdraw_cases config s i with ⟨e, -, hw⟩ | ⟨bare, -, hw⟩
  · rw [hw] at h
    exact nomatch h
  · rw [hw]
    refine (Ledger.holding_giveBack_held s.resources (.intent i.base.key)).trans ?_
    rw [List.filter_eq_nil_iff]
    intro r hr
    simpa using Binary64.ne_nan_of_isFinite (hfinite r hr)

end

end HostRouting
