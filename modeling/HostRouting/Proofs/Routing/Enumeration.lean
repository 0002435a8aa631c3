import HostRouting.Proofs.Routing.Routes
import Mathlib.Data.List.Nodup
import Mathlib.Data.List.Perm.Subperm

/-!
# Reading routes backwards

From the destination, routes are read backwards over the links by which elements were reached, and
no element is met twice. Without a limit this gives each simple walk over such links exactly once
(`Search.mem_chains_iff`, `Search.nodup_chains`); a limit keeps the first of them
(`Search.routesTo_eq_take`).
-/

namespace HostRouting

namespace Search

variable {κ : Type} {s : Search κ} {src e : ElementId}

/-- The routes that are read backwards, however many there are. -/
def chains (s : Search κ) (src : ElementId) :
    Nat → List ElementId → ElementId → List (List Link)
  | 0, _, _ => []
  | n + 1, visited, e =>
    if e = src then [[]]
    else (s.arrivalsAt e).flatMap fun link =>
      if visited.contains link.src.element then []
      else (s.chains src n (link.src.element :: visited) link.src.element).map (· ++ [link])

/-! ## The limit -/

/-- A limited reading stops early and is otherwise the same. -/
theorem routesTo_eq_take (s : Search κ) (src : ElementId) (n limit : Nat)
    (visited : List ElementId) (e : ElementId) :
    s.routesTo src n limit visited e = (s.chains src n visited e).take limit := by
  induction n generalizing limit visited e with
  | zero => simp [routesTo, chains]
  | succ n ih =>
    let chunk (link : Link) : List (List Link) :=
      if visited.contains link.src.element then []
      else (s.chains src n (link.src.element :: visited) link.src.element).map (· ++ [link])
    have hcollect : ∀ found link, s.collect src n limit visited (found.take limit) link =
        (found ++ chunk link).take limit := by
      intro found link
      unfold collect
      dsimp only [chunk]
      split
      · rw [List.append_nil]
      · rw [ih, List.take_append, ← List.map_take, List.length_take]
        congr 3
        omega
    have hfold : ∀ (links : List Link) (found : List (List Link)),
        links.foldl (s.collect src n limit visited) (found.take limit) =
          (found ++ links.flatMap chunk).take limit := by
      intro links
      induction links with
      | nil => simp
      | cons link links ih =>
        intro found
        rw [List.foldl_cons, hcollect, ih, List.flatMap_cons, List.append_assoc]
    rw [routesTo_succ, chains]
    split
    next h0 => simp [h0]
    next h0 =>
      split
      · rw [List.take_of_length_le (by simp only [List.length_singleton]; omega)]
      · simpa [chunk] using hfold (s.arrivalsAt e) []

/-! ## What is read -/

/-- A walk over links by which elements were reached that comes from no element twice. -/
structure Chain (s : Search κ) (src e : ElementId) (route : List Link) : Prop where
  walk : IsWalk src route e
  arrives : ∀ l ∈ route, l ∈ s.arrivalsAt l.dst.element
  simple : (route.map (·.src.element)).Nodup

/-- Every element was reached by links that lead to it. -/
def Consistent (s : Search κ) : Prop := ∀ e, ∀ l ∈ s.arrivalsAt e, l.dst.element = e

theorem chain_concat_iff {init : List Link} {l : Link} :
    s.Chain src e (init ++ [l]) ↔ s.Chain src l.src.element init ∧
      (l.dst.element = e ∧ l ∈ s.arrivalsAt e) ∧
        l.src.element ∉ init.map (·.src.element) := by
  constructor
  · intro h
    obtain ⟨previous, hinit, hlast⟩ := IsWalk.append_iff.1 h.walk
    obtain ⟨rfl, rfl⟩ : l.src.element = previous ∧ l.dst.element = e := hlast
    obtain ⟨harrives, hl⟩ := List.forall_mem_append.1 h.arrives
    have hsimple := h.simple
    rw [List.map_append, List.map_singleton, List.nodup_append] at hsimple
    refine ⟨⟨hinit, harrives, hsimple.1⟩, ⟨rfl, hl l (List.mem_singleton_self l)⟩, fun hm => ?_⟩
    exact hsimple.2.2 _ hm _ (List.mem_singleton_self _) rfl
  · rintro ⟨h, ⟨rfl, hl⟩, hnew⟩
    refine ⟨h.walk.concat rfl, List.forall_mem_append.2 ⟨h.arrives, by simpa using hl⟩, ?_⟩
    rw [List.map_append, List.map_singleton, List.nodup_append]
    refine ⟨h.simple, List.nodup_singleton _, ?_⟩
    rintro _ hm _ hlast rfl
    exact hnew (List.mem_singleton.1 hlast ▸ hm)

theorem mem_chains_iff (hs : s.Consistent) {n : Nat} {visited : List ElementId}
    {route : List Link} (he : e ∈ visited) :
    route ∈ s.chains src n visited e ↔
      s.Chain src e route ∧ (∀ l ∈ route, l.src.element ∉ visited) ∧ route.length < n := by
  induction n generalizing visited e route with
  | zero => simp [chains]
  | succ n ih =>
    rw [chains]
    split
    next hsrc =>
      -- The source is met when the route is complete.
      subst hsrc
      rw [List.mem_singleton]
      constructor
      · rintro rfl
        exact ⟨⟨rfl, by simp, by simp⟩, by simp, Nat.succ_pos n⟩
      · rintro ⟨hchain, hvisited, -⟩
        cases route with
        | nil => rfl
        | cons l route =>
          exact absurd (hchain.walk.1 ▸ he) (hvisited l List.mem_cons_self)
    next hsrc =>
      rw [List.mem_flatMap]
      constructor
      · rintro ⟨link, hlink, hroute⟩
        split at hroute
        · exact absurd hroute List.not_mem_nil
        next hnew =>
          obtain ⟨init, hinit, rfl⟩ := List.mem_map.1 hroute
          obtain ⟨hchain, hvisited, hlength⟩ := (ih List.mem_cons_self).1 hinit
          have hback : link.src.element ∉ init.map (·.src.element) := by
            intro hm
            obtain ⟨l, hl, heq⟩ := List.mem_map.1 hm
            exact hvisited l hl (heq ▸ List.mem_cons_self)
          refine ⟨chain_concat_iff.2 ⟨hchain, ⟨hs e link hlink, hlink⟩, hback⟩,
            List.forall_mem_append.2 ⟨fun l hl hv => ?_, by simpa using hnew⟩, ?_⟩
          · exact hvisited l hl (List.mem_cons_of_mem _ hv)
          · rw [List.length_append, List.length_singleton]
            omega
      · rintro ⟨hchain, hvisited, hlength⟩
        rcases List.eq_nil_or_concat route with rfl | ⟨init, link, rfl⟩
        · exact absurd (Eq.symm hchain.walk) hsrc
        rw [List.concat_eq_append] at hchain hvisited hlength ⊢
        obtain ⟨hinit, ⟨-, hlink⟩, hback⟩ := chain_concat_iff.1 hchain
        obtain ⟨hvisited, hnew⟩ := List.forall_mem_append.1 hvisited
        refine ⟨link, hlink, ?_⟩
        rw [if_neg (by simpa using hnew), List.mem_map]
        refine ⟨init, (ih List.mem_cons_self).2 ⟨hinit, fun l hl hmet => ?_, ?_⟩, rfl⟩
        · rcases List.mem_cons.1 hmet with hmet | hmet
          · exact hback (List.mem_map.2 ⟨l, hl, hmet⟩)
          · exact hvisited l hl hmet
        · rw [List.length_append, List.length_singleton] at hlength
          omega

theorem nodup_chains (hs : ∀ e, (s.arrivalsAt e).Nodup) (n : Nat) (visited : List ElementId)
    (e : ElementId) : (s.chains src n visited e).Nodup := by
  induction n generalizing visited e with
  | zero => exact List.nodup_nil
  | succ n ih =>
    rw [chains]
    split
    · exact List.nodup_singleton _
    · rw [List.nodup_flatMap]
      constructor
      · intro link _
        split
        · exact List.nodup_nil
        · exact (ih _ _).map (List.append_left_injective [link])
      · refine (hs e).imp fun {link link'} hne => ?_
        -- Routes that come in by different links end differently.
        intro route hroute hroute'
        dsimp only at hroute hroute'
        split at hroute
        · exact absurd hroute List.not_mem_nil
        split at hroute'
        · exact absurd hroute' List.not_mem_nil
        obtain ⟨init, -, rfl⟩ := List.mem_map.1 hroute
        obtain ⟨init', -, heq⟩ := List.mem_map.1 hroute'
        exact hne (List.singleton_inj.1 (List.append_inj_right' heq rfl)).symm

end Search

/-! ## Routes to the destination -/

namespace Graph

variable {κ : Type} [PathCost κ] {g : Graph κ} {s : Search κ} {src dst : ElementId}
  {route : List Link}

/-- All routes that the search leaves to be read. -/
def allRoutes (g : Graph κ) (s : Search κ) (src dst : ElementId) : List (List Link) :=
  s.chains src g.elementBound [dst] dst

omit [PathCost κ] in
/-- The routes read from the destination are the walks over links by which elements were reached
that visit no element twice: there is no such walk that is too long to be read. -/
theorem mem_allRoutes_iff (hs : s.Consistent)
    (hedges : ∀ e, ∀ l ∈ s.arrivalsAt e, l ∈ g.edges.map Edge.link) :
    route ∈ g.allRoutes s src dst ↔ IsWalk src route dst ∧
      (∀ l ∈ route, l ∈ s.arrivalsAt l.dst.element) ∧
        (src :: route.map (·.dst.element)).Nodup := by
  rw [allRoutes, Search.mem_chains_iff hs (List.mem_singleton_self dst)]
  constructor
  · rintro ⟨⟨hwalk, harrives, hsimple⟩, hvisited, -⟩
    refine ⟨hwalk, harrives, ?_⟩
    rw [hwalk.elements_eq, List.nodup_append]
    refine ⟨hsimple, List.nodup_singleton _, ?_⟩
    simp only [List.mem_map]
    rintro _ ⟨l, hl, rfl⟩ _ hdst rfl
    exact hvisited l hl hdst
  · rintro ⟨hwalk, harrives, hsimple⟩
    rw [hwalk.elements_eq, List.nodup_append] at hsimple
    refine ⟨⟨hwalk, harrives, hsimple.1⟩, fun l hl hdst => ?_, ?_⟩
    · exact hsimple.2.2 _ (List.mem_map.2 ⟨l, hl, rfl⟩) _ hdst rfl
    · have hsub : route ⊆ g.edges.map Edge.link :=
        fun l hl => hedges _ l (harrives l hl)
      have hlength := (List.subperm_of_subset (List.Nodup.of_map _ hsimple.1) hsub).length_le
      rw [List.length_map] at hlength
      exact Nat.lt_succ_of_le hlength

end Graph

end HostRouting
