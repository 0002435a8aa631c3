import HostRouting.Proofs.Compiler.Cases
import HostRouting.Proofs.Routing.Revision

/-!
# Courses of paths

The course of a path is what compiling sees of its links beside their annotations: their ends, in
order, and which of them attach hosts. It decides the links that a contribution touches
(`touches_routed`) and whether the path can be installed (`isOk_installBoth`).
-/

namespace HostRouting

/-- The ends of the links of a path, in order, and which of the links attach hosts. -/
def Path.course (p : Path) : List (Endpoints × Bool) := p.links.map fun l => (l.endpoints, l.isEdge)

/-- The courses of the paths of an intent. -/
def HostIntent.courses (i : HostIntent) :
    Option (List (Endpoints × Bool) × List (Endpoints × Bool)) :=
  i.paths.map fun paths => (paths.1.course, paths.2.course)

section

variable {i : HostIntent} {there back there' back' p p' : Path}

theorem touches_routed {e : Endpoints} :
    Touches (i.routed there back).routedLinks e ↔ (e, false) ∈ there.course ++ back.course := by
  unfold Touches HostIntent.routedLinks HostIntent.routed Path.course
  simp only [List.mem_filter, List.mem_append, List.mem_map, Prod.mk.injEq]
  constructor
  · rintro ⟨l, ⟨hl, -⟩, hedge, rfl⟩
    exact hl.imp (fun h => ⟨l, h, rfl, hedge⟩) fun h => ⟨l, h, rfl, hedge⟩
  · rintro (⟨l, hl, rfl, hedge⟩ | ⟨l, hl, rfl, hedge⟩)
    · exact ⟨l, ⟨.inl hl, by simp [hedge]⟩, hedge, rfl⟩
    · exact ⟨l, ⟨.inr hl, by simp [hedge]⟩, hedge, rfl⟩

theorem course_relabel {f : Link → Link} (hf : KeepsEnds f) (halike : ∀ l : Link, l.Alike (f l)) :
    (p.relabel hf).course = p.course := by
  show (p.links.map f).map _ = p.links.map _
  rw [List.map_map]
  congr 1
  funext l
  simp [hf l, (halike l).isEdge]

theorem course_inverted :
    p.inverted.course = p.course.reverse.map fun step => (step.1.swap, step.2) := by
  show (p.links.reverse.map Link.reversed).map _ = (p.links.map _).reverse.map _
  rw [List.map_map, ← List.map_reverse, List.map_map]
  rfl

/-! ## Installing -/

theorem devicePoint_congr {l l' : Link} (h : l'.endpoints = l.endpoints) :
    devicePoint l' = devicePoint l := by
  obtain ⟨hsrc, hdst⟩ := Endpoints.mk.inj h
  unfold devicePoint Link.text
  rw [hsrc, hdst]

theorem endpoints_first (h : p'.course = p.course) : p'.first.endpoints = p.first.endpoints := by
  have hhead := congrArg List.head? h
  unfold Path.course at hhead
  rw [List.head?_map, List.head?_map, List.head?_eq_some_head p'.nonempty,
    List.head?_eq_some_head p.nonempty] at hhead
  exact (Prod.mk.inj (Option.some.inj hhead)).1

theorem endpoints_last (h : p'.course = p.course) : p'.last.endpoints = p.last.endpoints := by
  have hlast := congrArg List.getLast? h
  unfold Path.course at hlast
  rw [List.getLast?_map, List.getLast?_map, List.getLast?_eq_some_getLast p'.nonempty,
    List.getLast?_eq_some_getLast p.nonempty] at hlast
  exact (Prod.mk.inj (Option.some.inj hlast)).1

theorem isOk_installable (h : p'.course = p.course) (flavor : InstallableFlavor)
    (i i' : HostIntent) (src dst : Host) :
    (installable flavor i' p' src dst).isOk = (installable flavor i p src dst).isOk := by
  unfold installable
  cases flavor with
  | linkCollection =>
    dsimp only
    rw [devicePoint_congr (endpoints_first h), devicePoint_congr (endpoints_last h)]
    cases devicePoint p.first with
    | error e => rfl
    | ok ingress => cases devicePoint p.last <;> rfl
  | path => rfl

/-- Whether both directions can be installed depends on the courses of the paths alone. -/
theorem isOk_installBoth {ρ : Type} [Reservations ρ] (hthere : there'.course = there.course)
    (hback : back'.course = back.course) (flavor : InstallableFlavor) (resources resources' : ρ)
    (i i' : HostIntent) (one two : Host) :
    (installBoth flavor resources' i' there' back' one two).1.isOk =
      (installBoth flavor resources i there back one two).1.isOk := by
  have hboth : ∀ (resources : ρ) (i : HostIntent) (there back : Path),
      (installBoth flavor resources i there back one two).1.isOk =
        ((installable flavor i there one two).isOk &&
          (installable flavor i back two one).isOk) := by
    intro resources i there back
    unfold installBoth install
    cases installable flavor i there one two with
    | error e => rfl
    | ok forward => cases installable flavor i back two one <;> rfl
  rw [hboth, hboth, isOk_installable hthere flavor i i', isOk_installable hback flavor i i']

end

end HostRouting
