import HostRouting.Network.Path
import Mathlib.Data.List.Chain

/-!
# Paths that can arise

A list of links is checked where it is made into a path or read as one; the inverse of a path is
put together without a check. What is said of a path is said of its members, among which nothing
ties one link to the next.

1. Contiguity is a statement about neighbours (`contiguous_iff_isChain`), so reversing every link
   and their order keeps it (`PathMembers.Connected.inverted`).
2. So what can arise by checks and inverses is what passes the check
   (`PathMembers.arises_iff`), and that is the members of a path (`PathMembers.connected_iff`).

Main fact: `paths_arise_and_invert`.
-/

namespace HostRouting

/-! ## Neighbours -/

theorem contiguous_iff_isChain {links : List Link} :
    Contiguous links ↔ links.IsChain fun a b => a.dst.element = b.src.element := by
  induction links with
  | nil => simp [Contiguous]
  | cons a links ih =>
    cases links with
    | nil => simp [Contiguous]
    | cons b links => rw [Contiguous, ih, List.isChain_cons_cons]

/-! ## Members -/

/-- What is written of a path. -/
def Path.members (p : Path) : PathMembers := ⟨p.provider, p.links, p.cost⟩

namespace PathMembers

/-- There is a link, and each link starts at the element where the one before it ends. -/
structure Connected (m : PathMembers) : Prop where
  nonempty : m.links ≠ []
  meets : ∀ (i : Nat) (_ : i + 1 < m.links.length),
    m.links[i].dst.element = m.links[i + 1].src.element

/-- Every link reversed, in reverse order, whether or not the links meet. -/
def inverted (m : PathMembers) : PathMembers :=
  { m with links := m.links.reverse.map Link.reversed }

/-- The members of what a check lets through, when links are made into a path or a path is read,
and of the inverse of what has arisen, which nothing checks. -/
inductive Arises : PathMembers → Prop
  | made {m : PathMembers} (h : (Path.ofLinks m.provider m.links m.cost).isOk = true) : Arises m
  | read {v : Json} {m : PathMembers} (hm : fields.decode v = .ok m)
    (h : (Json.decode v : Except Json.Fault Path).isOk = true) : Arises m
  | inverted {m : PathMembers} (h : Arises m) : Arises m.inverted

variable {m : PathMembers}

theorem connected_iff_contiguous : m.Connected ↔ m.links ≠ [] ∧ Contiguous m.links := by
  rw [contiguous_iff_isChain, List.isChain_iff_getElem]
  exact ⟨fun h => ⟨h.nonempty, h.meets⟩, fun h => ⟨h.1, h.2⟩⟩

theorem isOk_ofLinks_iff :
    (Path.ofLinks m.provider m.links m.cost).isOk = true ↔ m.Connected :=
  Path.ofLinks_isOk_iff.trans connected_iff_contiguous.symm

/-- Reading a path checks its members as making it does. -/
theorem decode_eq {v : Json} (hm : fields.decode v = .ok m) :
    (Json.decode v : Except Json.Fault Path) =
      (Path.ofLinks m.provider m.links m.cost).mapError fun e => .refused e.message := by
  show (fields.decode v >>= fun m =>
    (Path.ofLinks m.provider m.links m.cost).mapError fun e => .refused e.message) = _
  rw [hm]
  rfl

theorem isOk_decode_iff {v : Json} (hm : fields.decode v = .ok m) :
    (Json.decode v : Except Json.Fault Path).isOk = true ↔ m.Connected := by
  rw [← isOk_ofLinks_iff, decode_eq hm]
  cases Path.ofLinks m.provider m.links m.cost <;> rfl

/-- Members are those of a path just when they are connected. -/
theorem connected_iff : m.Connected ↔ ∃ p : Path, p.members = m := by
  rw [connected_iff_contiguous]
  constructor
  · rintro ⟨hnonempty, hcontiguous⟩
    exact ⟨⟨m.provider, m.links, m.cost, hnonempty, hcontiguous⟩, rfl⟩
  · rintro ⟨p, rfl⟩
    exact ⟨p.nonempty, p.contiguous⟩

theorem Connected.inverted (h : m.Connected) : m.inverted.Connected := by
  obtain ⟨p, rfl⟩ := connected_iff.1 h
  exact connected_iff.2 ⟨p.inverted, rfl⟩

/-- The inverse cannot be told from what a check lets through. -/
theorem arises_iff : m.Arises ↔ m.Connected := by
  constructor
  · intro h
    induction h with
    | made h => exact isOk_ofLinks_iff.1 h
    | read hm h => exact (isOk_decode_iff hm).1 h
    | inverted _ ih => exact ih.inverted
  · exact fun h => .made (isOk_ofLinks_iff.2 h)

end PathMembers

/-! ## Inverses of paths -/

namespace Path

theorem ofLinks_eq_ok_iff_members {m : PathMembers} {p : Path} :
    ofLinks m.provider m.links m.cost = .ok p ↔ p.members = m := by
  rw [ofLinks_eq_ok_iff]
  cases m
  simp [members]

theorem decode_eq_ok_iff_members {v : Json} {m : PathMembers}
    (hm : PathMembers.fields.decode v = .ok m) {p : Path} :
    Json.decode v = .ok p ↔ p.members = m := by
  rw [← ofLinks_eq_ok_iff_members, PathMembers.decode_eq hm]
  cases ofLinks m.provider m.links m.cost <;> simp [Except.mapError]

theorem getElem?_first (p : Path) : p.links[0]? = some p.first := by
  rw [← List.head?_eq_getElem?, List.head?_eq_some_head p.nonempty]
  rfl

theorem getElem?_last (p : Path) : p.links[p.links.length - 1]? = some p.last := by
  rw [← List.getLast?_eq_getElem?, List.getLast?_eq_some_getLast p.nonempty]
  rfl

theorem connectPoints_inverted (p : Path) : p.inverted.connectPoints = p.connectPoints.reverse := by
  unfold connectPoints inverted
  rw [List.reverse_flatMap, List.flatMap_map]
  rfl

/-- The inverse of the inverse is the path but for its annotations. -/
theorem members_inverted_inverted (p : Path) :
    p.inverted.inverted.members =
      { p.members with links := p.links.map fun l => { l with annotations := .empty } } := by
  have hlinks : ((p.links.reverse.map Link.reversed).reverse).map Link.reversed =
      p.links.map fun l => { l with annotations := .empty } := by
    rw [← List.map_reverse, List.reverse_reverse, List.map_map]
    rfl
  exact congrArg (PathMembers.mk p.provider · p.cost) hlinks

end Path

/-- Just the lists of links that are not empty, and in which each link starts at the element where
the one before it ends, make a path or are read as one, and nothing else arises by inverting what
was made and read, however often: so a path has a first and a last link. The inverse of a path has
as many links, the same cost and provider and its connect points in reverse order, and inverted
again it is the path without annotations. -/
theorem paths_arise_and_invert :
    (∀ m : PathMembers,
      ((Path.ofLinks m.provider m.links m.cost).isOk = true ↔ m.Connected) ∧
        ∀ p, Path.ofLinks m.provider m.links m.cost = .ok p ↔ p.members = m) ∧
      (∀ v m, PathMembers.fields.decode v = .ok m →
        ((Json.decode v : Except Json.Fault Path).isOk = true ↔ m.Connected) ∧
          ∀ p : Path, Json.decode v = .ok p ↔ p.members = m) ∧
      (∀ m : PathMembers, m.Arises ↔ m.Connected) ∧
      (∀ m : PathMembers, m.Connected ↔ ∃ p : Path, p.members = m) ∧
      ∀ p : Path, p.links[0]? = some p.first ∧ p.links[p.links.length - 1]? = some p.last ∧
        p.inverted.members = p.members.inverted ∧
        p.inverted.links.length = p.links.length ∧ p.inverted.cost = p.cost ∧
        p.inverted.provider = p.provider ∧
        p.inverted.connectPoints = p.connectPoints.reverse ∧
        p.inverted.inverted.members =
          { p.members with links := p.links.map fun l => { l with annotations := .empty } } := by
  refine ⟨fun m => ⟨PathMembers.isOk_ofLinks_iff, fun p => Path.ofLinks_eq_ok_iff_members⟩,
    fun v m hm => ⟨PathMembers.isOk_decode_iff hm, fun p => Path.decode_eq_ok_iff_members hm⟩,
    fun m => PathMembers.arises_iff, fun m => PathMembers.connected_iff, fun p => ?_⟩
  have hlength : p.inverted.links.length = p.links.length := by simp [Path.inverted]
  exact ⟨p.getElem?_first, p.getElem?_last, rfl, hlength, rfl, rfl, p.connectPoints_inverted,
    p.members_inverted_inverted⟩

namespace Detour

/-- A link into a device and one that leaves the given device. -/
def links (device : String) : List Link :=
  [.between ⟨.device ⟨"s1"⟩, 1⟩ ⟨.device ⟨"s2"⟩, 1⟩ .direct,
    .between ⟨.device ⟨device⟩, 2⟩ ⟨.device ⟨"s4"⟩, 1⟩ .tunnel]

/-- The two links as a path is written. -/
def written (device : String) : Json :=
  .object [("provider_id", Json.encode ProviderId.core), ("links", Json.encode (links device)),
    ("cost", .integer 2)]

end Detour

/-- The second link has to leave the device that the first one enters. -/
theorem paths_arise_and_invert_detour :
    (∀ device ∈ ["s2", "s3"], PathMembers.fields.decode (Detour.written device) =
        .ok ⟨.core, Detour.links device, .ofInt 2⟩) ∧
      (Json.decode (Detour.written "s2") : Except Json.Fault Path).isOk = true ∧
      (Json.decode (Detour.written "s3") : Except Json.Fault Path).isOk = false := by
  have hread : ∀ device ∈ ["s2", "s3"], PathMembers.fields.decode (Detour.written device) =
      .ok ⟨.core, Detour.links device, .ofInt 2⟩ := by
    simp only [List.forall_mem_cons]
    exact ⟨rfl, rfl, nofun⟩
  obtain ⟨-, hdecode, -⟩ := paths_arise_and_invert
  have hmeets : Contiguous (Detour.links "s2") := ⟨rfl, trivial⟩
  have hgap : ¬Contiguous (Detour.links "s3") := fun h => absurd h.1 (by decide)
  refine ⟨hread, ?_, ?_⟩
  · rw [(hdecode _ _ (hread "s2" (by decide))).1, PathMembers.connected_iff_contiguous]
    exact ⟨List.cons_ne_nil _ _, hmeets⟩
  · rw [Bool.eq_false_iff, ne_eq, (hdecode _ _ (hread "s3" (by decide))).1,
      PathMembers.connected_iff_contiguous]
    exact fun h => hgap h.2

end HostRouting
