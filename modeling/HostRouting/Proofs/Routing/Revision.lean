import HostRouting.LinkStore.Table
import HostRouting.Proofs.Routing.Relabelling
import HostRouting.Proofs.Routing.Selection

/-!
# Selection over revised links

A revision of a table changes stored links in ways that constraints cannot see: their ends, types,
states and numbers stay. It may still change the order of the links that leave an element, by which
equally cheap routes are listed. If it does not, the fingerprint picks the revised path.

Main fact: `Revised.selectPath`.
-/

namespace HostRouting

/-! ## Links that look alike -/

/-- The number under a key, if the text there is one. -/
def Link.number? (l : Link) (key : String) : Option Binary64 :=
  (l.annotations.get? key).bind numberOfText?

/-- Constraints cannot tell the links apart. -/
structure Link.Alike (l l' : Link) : Prop where
  ends : l'.endpoints = l.endpoints
  type : l'.type = l.type
  state : l'.state = l.state
  numbers : ∀ key, l'.number? key = l.number? key

namespace Link.Alike

variable {l l' : Link}

theorem refl (l : Link) : l.Alike l := ⟨rfl, rfl, rfl, fun _ => rfl⟩

theorem isEdge (h : l.Alike l') : l'.isEdge = l.isEdge := by
  unfold Link.isEdge
  rw [h.type]

theorem numeric (h : l.Alike l') (key : String) :
    l'.annotations.numeric key = l.annotations.numeric key := congrArg (·.getD 0) (h.numbers key)

theorem withinLimit (h : l.Alike l') (key : String) (threshold : Binary64) (upper : Bool) :
    Constraint.withinLimit key threshold upper l' =
      Constraint.withinLimit key threshold upper l := by
  unfold Constraint.withinLimit
  rw [h.isEdge, h.numeric]

end Link.Alike

/-! ## Constraints on revised links -/

/-- The second context has live what a change makes of the live links of the first, and constraints
cannot see the change. -/
structure Context.Revised (f : Link → Link) (ctx ctx' : Context) : Prop where
  alike : ∀ l : Link, l.Alike (f l)
  live : ∀ src dst, ctx'.liveLink? src dst = (ctx.liveLink? src dst).map f

namespace Context.Revised

variable {f : Link → Link} {ctx ctx' : Context} {constraints : List Constraint}

theorem keepsEnds (h : Revised f ctx ctx') : KeepsEnds f := fun l => (h.alike l).ends

theorem getD_live (h : Revised f ctx ctx') (l : Link) :
    (ctx'.liveLink? (f l).src (f l).dst).getD (f l) = f ((ctx.liveLink? l.src l.dst).getD l) := by
  rw [h.keepsEnds.src, h.keepsEnds.dst, h.live]
  cases ctx.liveLink? l.src l.dst <;> rfl

theorem isValid {k : Constraint} (h : Revised f ctx ctx') (hk : k.requestedBandwidth? = none)
    (l : Link) : k.isValid (f l) ctx' = k.isValid l ctx := by
  unfold Constraint.isValid
  cases k with
  | bandwidth b => exact nomatch hk
  | atMost key threshold =>
    dsimp only
    rw [(h.alike l).numeric]
  | limit key threshold upper =>
    dsimp only
    rw [h.getD_live, (h.alike _).withinLimit]
  | asymmetricPath => rfl
  | linkType inclusive types =>
    dsimp only
    rw [(h.alike l).type]
  | marker name => rfl
  | pathViability =>
    dsimp only
    rw [(h.alike l).state]

theorem cost {k : Constraint} (h : Revised f ctx ctx') (hk : k.requestedBandwidth? = none)
    (l : Link) : k.cost (f l) ctx' = k.cost l ctx := by
  have hvalid := h.isValid hk l
  unfold Constraint.cost
  cases k with
  | atMost key threshold =>
    dsimp only
    rw [hvalid, (h.alike l).numeric]
  | limit key threshold upper =>
    dsimp only
    rw [(h.alike l).withinLimit, (h.alike l).isEdge, (h.alike l).numeric]
  | marker name => rfl
  | bandwidth _ | asymmetricPath | linkType _ _ | pathViability =>
    exact congrArg Constraint.flatCost hvalid

theorem runningCost (h : Revised f ctx ctx')
    (hfree : ∀ k ∈ constraints, k.requestedBandwidth? = none) (l : Link) (cost : Binary64) :
    ctx'.runningCost (f l) cost constraints = ctx.runningCost l cost constraints := by
  induction constraints generalizing cost with
  | nil => rfl
  | cons k rest ih =>
    unfold Context.runningCost
    rw [h.cost (hfree k List.mem_cons_self), ih fun k' hk' => hfree k' (List.mem_cons_of_mem _ hk')]

/-- Revised links weigh what they weighed. -/
theorem weigher (h : Revised f ctx ctx')
    (hfree : ∀ k ∈ constraints, k.requestedBandwidth? = none) (l : Link) :
    ctx'.weigher constraints (f l) = ctx.weigher constraints l := by
  have hresolve : ctx'.resolve (f l) = f (ctx.resolve l) := by
    unfold Context.resolve
    rw [(h.alike l).isEdge, h.getD_live]
    split <;> rfl
  unfold Context.weigher
  dsimp only
  rw [hresolve, h.runningCost fun k hk => hfree k (List.mem_filter.1 hk).1]

/-- A revised path satisfies the constraints that the path did. -/
theorem satisfies (h : Revised f ctx ctx')
    (hfree : ∀ k ∈ constraints, k.requestedBandwidth? = none) (p : Path) :
    HostRouting.satisfies ctx' constraints (p.relabel h.keepsEnds) =
      HostRouting.satisfies ctx constraints p := by
  rw [Bool.eq_iff_iff, satisfies_iff, satisfies_iff]
  refine forall₂_congr fun k hk => ?_
  show (∀ l ∈ p.links.map f, _) ↔ _
  simp [h.isValid (hfree k hk)]

end Context.Revised

/-! ## Revised tables -/

/-- The second table holds what a change makes of the links of the first. The change is not seen by
constraints and leaves links without annotations alone. -/
structure Revised (f : Link → Link) (before after : LinkTable) : Prop where
  alike : ∀ l : Link, l.Alike (f l)
  bare : ∀ l : Link, l.annotations = .empty → f l = l
  stored : ∀ src dst, after.link? src dst = (before.link? src dst).map f

namespace Revised

variable {f : Link → Link} {before after : LinkTable}

theorem keepsEnds (h : Revised f before after) : KeepsEnds f := fun l => (h.alike l).ends

theorem context {ρ : Type} [Reservations ρ] (h : Revised f before after)
    (resources resources' : ρ) :
    (Context.ofStores before resources).Revised f (Context.ofStores after resources') :=
  ⟨h.alike, h.stored⟩

theorem links (h : Revised f before after) : after.links = before.links.map f := by
  have hmap : after.byEnds.byKey = before.byEnds.byKey.mapValues f :=
    SortedMap.ext_get? fun e => (h.stored e.src e.dst).trans (SortedMap.get?_mapValues f _ e).symm
  unfold LinkTable.links Catalog.toList
  rw [hmap, SortedMap.values_mapValues]

theorem attachmentLinks (h : Revised f before after) (host : Host) :
    (HostRouting.attachmentLinks host).map f = HostRouting.attachmentLinks host := by
  unfold HostRouting.attachmentLinks
  split
  · simp [Link.between, h.bare]
  · rfl

theorem candidateLinks (h : Revised f before after) (hosts : List Host) :
    HostRouting.candidateLinks after.links hosts =
      (HostRouting.candidateLinks before.links hosts).map f := by
  have hactive : (fun l : Link => decide (l.state = .active)) ∘ f =
      fun l => decide (l.state = .active) := by
    funext l
    rw [Function.comp_apply, (h.alike l).state]
  have hattached : (hosts.flatMap HostRouting.attachmentLinks).map f =
      hosts.flatMap HostRouting.attachmentLinks := by
    rw [List.map_flatMap]
    exact congrArg (hosts.flatMap ·) (funext h.attachmentLinks)
  unfold HostRouting.candidateLinks
  rw [h.links, List.filter_map, hactive, List.map_append, hattached]

variable {ρ : Type} [Reservations ρ]

theorem validPaths {planner : PlannerConfig} {hosts : HostDirectory} {i : FlowIntent}
    (h : Revised f before after) (resources resources' : ρ)
    (hfree : ∀ k ∈ i.connectivity.constraints, k.requestedBandwidth? = none)
    (horder : KeepsOrder f (HostRouting.candidateLinks before.links hosts.hosts))
    (src dst : ElementId) :
    HostRouting.validPaths (topologyPaths planner) after hosts resources' i src dst =
      (HostRouting.validPaths (topologyPaths planner) before hosts resources i src dst).map
        (Path.relabel h.keepsEnds) := by
  have hctx := h.context resources resources'
  have hpaths : cheapestPaths planner.maxPaths
        (HostRouting.candidateLinks after.links hosts.hosts)
        ((Context.ofStores after resources').weigher i.connectivity.constraints) .none src dst =
      (cheapestPaths planner.maxPaths (HostRouting.candidateLinks before.links hosts.hosts)
        ((Context.ofStores before resources).weigher i.connectivity.constraints) .none src
          dst).map (Path.relabel h.keepsEnds) := by
    rw [h.candidateLinks]
    exact cheapestPaths_relabel h.keepsEnds (hctx.weigher hfree) horder _ _ _ _
  show (cheapestPaths planner.maxPaths _ _ .none src dst).filter _ =
    ((cheapestPaths planner.maxPaths _ _ .none src dst).filter _).map _
  rw [show LinkStore.links after = after.links from rfl, hpaths, List.filter_map]
  refine congrArg _ (List.filter_congr fun p _ => ?_)
  exact hctx.satisfies hfree p

/-- When candidate links that leave one element stand as they stood, the revised path is selected
in place of the path. -/
theorem selectPath {planner : PlannerConfig} {hosts : HostDirectory} {resources : ρ}
    {i : FlowIntent} {src dst : ElementId} {p : Path} (h : Revised f before after)
    (hfree : ∀ k ∈ i.connectivity.constraints, k.requestedBandwidth? = none)
    (horder : KeepsOrder f (HostRouting.candidateLinks before.links hosts.hosts))
    (hselected : HostRouting.selectPath (topologyPaths planner) before hosts resources i src dst =
      .ok p) (resources' : ρ) :
    HostRouting.selectPath (topologyPaths planner) after hosts resources' i src dst =
      .ok (p.relabel h.keepsEnds) := by
  rw [selectPath_eq_ok] at hselected ⊢
  rw [h.validPaths resources resources' hfree horder]
  unfold pick at hselected ⊢
  rw [List.length_map, List.getElem?_map, hselected]
  rfl

end Revised

end HostRouting
