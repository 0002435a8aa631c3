import HostRouting.Proofs.Routing.Relabelling

/-!
# Routes

A passage is a walk over permitted links that passes only through devices in between; a route is a
passage that visits no element twice. A passage can be cut to a route over some of its links, so
there is a route wherever there is a passage.

The links that are permitted are said on their own here, link by link (`Usable`); they are the
candidates of which a graph is made (`mem_candidateLinks_iff`).

Main facts: `IsPassage.exists_route` and `IsRoute.of_walk`.
-/

namespace HostRouting

/-! ## Walks -/

namespace IsWalk

instance decidable : (src : ElementId) → (links : List Link) → (dst : ElementId) →
    Decidable (IsWalk src links dst)
  | src, [], dst => inferInstanceAs (Decidable (src = dst))
  | _, l :: links, dst =>
    have := decidable l.dst.element links dst
    inferInstanceAs (Decidable (_ ∧ _))

variable {src dst e : ElementId} {links links' : List Link}

theorem append_iff :
    IsWalk src (links ++ links') dst ↔ ∃ e, IsWalk src links e ∧ IsWalk e links' dst := by
  induction links generalizing src with
  | nil => simp [IsWalk]
  | cons l links ih =>
    simp only [List.cons_append, IsWalk, ih]
    grind

/-- A walk can be walked back. -/
theorem reverse (h : IsWalk src links dst) : IsWalk dst (links.reverse.map Link.reversed) src := by
  induction links generalizing src with
  | nil => exact h.symm
  | cons l links ih =>
    rw [List.reverse_cons, List.map_append]
    exact append_iff.2 ⟨l.dst.element, ih h.2, rfl, h.1⟩

/-- The elements on a walk, once as the ends of links and once as their beginnings. -/
theorem elements_eq (h : IsWalk src links dst) :
    src :: links.map (·.dst.element) = links.map (·.src.element) ++ [dst] := by
  induction links generalizing src with
  | nil => simp [show src = dst from h]
  | cons l links ih =>
    rw [List.map_cons, List.map_cons, List.cons_append, ih h.2, h.1]

theorem contiguous (h : IsWalk src links dst) : Contiguous links := by
  induction links generalizing src with
  | nil => trivial
  | cons l links ih =>
    cases links with
    | nil => trivial
    | cons l' links => exact ⟨h.2.1.symm, ih h.2⟩

/-- The links of a walk after it has come to an element. -/
theorem exists_suffix (h : IsWalk src links dst) (he : e ∈ links.map (·.dst.element)) :
    ∃ route, route.Sublist links ∧ IsWalk e route dst ∧
      (e :: route.map (·.dst.element)).Sublist (links.map (·.dst.element)) := by
  induction links generalizing src with
  | nil => exact absurd he List.not_mem_nil
  | cons l links ih =>
    by_cases hl : e = l.dst.element
    · subst hl
      exact ⟨links, List.sublist_cons_self _ _, h.2, List.Sublist.refl _⟩
    · obtain ⟨route, hsub, hwalk, helements⟩ := ih h.2 ((List.mem_cons.1 he).resolve_left hl)
      exact ⟨route, hsub.cons _, hwalk, helements.cons _⟩

/-- A walk without its detours visits no element twice. -/
theorem exists_simple (h : IsWalk src links dst) :
    ∃ route, route.Sublist links ∧ IsWalk src route dst ∧
      (src :: route.map (·.dst.element)).Nodup := by
  induction links generalizing src with
  | nil => exact ⟨[], List.Sublist.refl _, h, by simp⟩
  | cons l links ih =>
    obtain ⟨route, hsub, hwalk, hsimple⟩ := ih h.2
    by_cases hsrc : src = l.dst.element
    · exact ⟨route, hsub.cons _, hsrc ▸ hwalk, hsrc ▸ hsimple⟩
    · by_cases hback : src ∈ route.map (·.dst.element)
      · obtain ⟨route', hsub', hwalk', helements⟩ := hwalk.exists_suffix hback
        exact ⟨route', (hsub'.trans hsub).cons _, hwalk',
          helements.nodup (List.nodup_cons.1 hsimple).2⟩
      · refine ⟨l :: route, hsub.cons_cons _, ⟨h.1, hwalk⟩, List.nodup_cons.2 ⟨?_, hsimple⟩⟩
        simp [hsrc, hback]

end IsWalk

/-! ## Passages and routes -/

/-- The links, all permitted, lead from one element to another and only through devices. -/
structure IsPassage (permitted : Link → Prop) (src dst : ElementId) (links : List Link) : Prop where
  walk : IsWalk src links dst
  permits : ∀ l ∈ links, permitted l
  transit : ∀ l ∈ links.tail, l.src.element.isDevice = true

/-- A passage that visits no element twice. -/
structure IsRoute (permitted : Link → Prop) (src dst : ElementId) (links : List Link) : Prop
    extends IsPassage permitted src dst links where
  simple : (src :: links.map (·.dst.element)).Nodup

/-- Whether routes from an element may leave another one: devices forward, hosts only send. -/
def MayLeave (src e : ElementId) : Prop := e.isDevice = true ∨ e = src

instance (src e : ElementId) : Decidable (MayLeave src e) :=
  inferInstanceAs (Decidable (_ ∨ _))

section

variable {permitted : Link → Prop} {src dst : ElementId} {links : List Link}

theorem IsPassage.mayLeave (h : IsPassage permitted src dst links) :
    ∀ l ∈ links, MayLeave src l.src.element := by
  intro l hl
  cases links with
  | nil => exact absurd hl List.not_mem_nil
  | cons a links =>
    rcases List.mem_cons.1 hl with rfl | hl
    · exact .inr h.walk.1
    · exact .inl (h.transit l hl)

/-- A walk that visits no element twice does not come back to its source, so it is a route if its
links leave the source and devices only. -/
theorem IsRoute.of_walk (hwalk : IsWalk src links dst)
    (hsimple : (src :: links.map (·.dst.element)).Nodup)
    (hlinks : ∀ l ∈ links, permitted l ∧ MayLeave src l.src.element) :
    IsRoute permitted src dst links := by
  refine ⟨⟨hwalk, fun l hl => (hlinks l hl).1, fun l hl => ?_⟩, hsimple⟩
  refine (hlinks l (List.mem_of_mem_tail hl)).2.resolve_right fun hsrc => ?_
  cases links with
  | nil => exact absurd hl List.not_mem_nil
  | cons a links =>
    rw [hwalk.elements_eq, List.map_cons, List.cons_append, hwalk.1] at hsimple
    exact (List.nodup_cons.1 hsimple).1
      (List.mem_append_left _ (List.mem_map.2 ⟨l, hl, hsrc⟩))

theorem IsPassage.exists_route (h : IsPassage permitted src dst links) :
    ∃ route, route.Sublist links ∧ IsRoute permitted src dst route := by
  obtain ⟨route, hsub, hwalk, hsimple⟩ := h.walk.exists_simple
  exact ⟨route, hsub, IsRoute.of_walk hwalk hsimple fun l hl =>
    ⟨h.permits l (hsub.subset hl), h.mayLeave l (hsub.subset hl)⟩⟩

/-- No link of a walk that visits no element twice comes back to where it starts. -/
theorem IsWalk.ends_ne (hwalk : IsWalk src links dst)
    (hsimple : (src :: links.map (·.dst.element)).Nodup) :
    ∀ l ∈ links, l.src.element ≠ l.dst.element := by
  induction links generalizing src with
  | nil => exact fun l hl => absurd hl List.not_mem_nil
  | cons a links ih =>
    obtain ⟨rfl, hwalk⟩ := hwalk
    obtain ⟨hsrc, hsimple⟩ := List.nodup_cons.1 hsimple
    intro l hl
    rcases List.mem_cons.1 hl with rfl | hl
    · exact fun heq => hsrc (heq ▸ List.mem_cons_self)
    · exact ih hwalk hsimple l hl

theorem IsRoute.nodup_sources (h : IsRoute permitted src dst links) :
    (links.map (·.src.element)).Nodup := by
  have hsimple := h.simple
  rw [h.walk.elements_eq] at hsimple
  exact (List.nodup_append.1 hsimple).1

end

/-! ## Usable links -/

/-- Routes use the active stored links and, for each host with a location, the two links that
attach it at the first one. -/
inductive Usable (links : List Link) (hosts : List Host) : Link → Prop
  | stored {l : Link} (hl : l ∈ links) (hactive : l.state = .active) : Usable links hosts l
  | leavesHost {h : Host} {p : ConnectPoint} (hh : h ∈ hosts) (hp : h.location? = some p) :
    Usable links hosts (.between (.ofHost h.id) p .edge)
  | entersHost {h : Host} {p : ConnectPoint} (hh : h ∈ hosts) (hp : h.location? = some p) :
    Usable links hosts (.between p (.ofHost h.id) .edge)

theorem mem_attachmentLinks_iff {h : Host} {l : Link} :
    l ∈ attachmentLinks h ↔ ∃ p, h.location? = some p ∧
      (l = .between (.ofHost h.id) p .edge ∨ l = .between p (.ofHost h.id) .edge) := by
  unfold attachmentLinks
  cases h.location? <;> simp

theorem mem_candidateLinks_iff {links : List Link} {hosts : List Host} {l : Link} :
    l ∈ candidateLinks links hosts ↔ Usable links hosts l := by
  unfold candidateLinks
  rw [List.mem_append, List.mem_filter, List.mem_flatMap]
  constructor
  · rintro (⟨hl, hactive⟩ | ⟨h, hh, hl⟩)
    · exact .stored hl (of_decide_eq_true hactive)
    · obtain ⟨p, hp, rfl | rfl⟩ := mem_attachmentLinks_iff.1 hl
      · exact .leavesHost hh hp
      · exact .entersHost hh hp
  · intro h
    cases h with
    | stored hl hactive => exact .inl ⟨hl, decide_eq_true hactive⟩
    | leavesHost hh hp => exact .inr ⟨_, hh, mem_attachmentLinks_iff.2 ⟨_, hp, .inl rfl⟩⟩
    | entersHost hh hp => exact .inr ⟨_, hh, mem_attachmentLinks_iff.2 ⟨_, hp, .inr rfl⟩⟩

/-! ## Edges of a graph -/

theorem Exclusions.allows_none (l : Link) : Exclusions.none.allows l = true := by
  simp [Exclusions.allows, Exclusions.none]

/-- The edges of a graph in which nothing is excluded are the candidates that have a weight. -/
theorem Graph.mem_ofCandidates_iff {κ : Type} {weigh : Link → Option κ} {candidates : List Link}
    {edge : Edge κ} :
    edge ∈ (Graph.ofCandidates weigh .none candidates).edges ↔
      edge.link ∈ candidates ∧ weigh edge.link = some edge.weight := by
  unfold ofCandidates
  simp only [mem_sortedOn, List.mem_filterMap, List.mem_filter, Exclusions.allows_none, and_true,
    Option.map_eq_some_iff]
  constructor
  · rintro ⟨l, hl, w, hw, rfl⟩
    exact ⟨hl, hw⟩
  · rintro ⟨hl, hw⟩
    exact ⟨edge.link, hl, edge.weight, hw, rfl⟩

end HostRouting
