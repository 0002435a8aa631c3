import HostRouting.Binary64.Writer
import HostRouting.Error
import HostRouting.Network.Link

/-!
# Paths

A path is a list of links, not empty, in which each link starts at the element where the link
before it ends. The port may change inside an element.

Main facts: `Path.ofLinks_isOk_iff` (exactly the contiguous lists that are not empty make a path)
and `Contiguous.reverse`, which makes the inverse of a path a path.
-/

namespace HostRouting

/-! ## Contiguous lists of links -/

/-- Each link starts at the element where the one before it ends. -/
def Contiguous : List Link → Prop
  | a :: b :: rest => a.dst.element = b.src.element ∧ Contiguous (b :: rest)
  | _ => True

/-- The first two links in a row that do not meet. -/
def firstGap : List Link → Option (Link × Link)
  | a :: b :: rest =>
    if a.dst.element = b.src.element then firstGap (b :: rest) else some (a, b)
  | _ => none

theorem firstGap_eq_none_iff {links : List Link} : firstGap links = none ↔ Contiguous links := by
  induction links with
  | nil => simp [firstGap, Contiguous]
  | cons a rest ih =>
    cases rest with
    | nil => simp [firstGap, Contiguous]
    | cons b rest =>
      by_cases h : a.dst.element = b.src.element <;> simp [firstGap, Contiguous, h, ih]

theorem contiguous_concat {links : List Link} {last next : Link}
    (h : Contiguous (links ++ [last])) (hn : last.dst.element = next.src.element) :
    Contiguous (links ++ [last, next]) := by
  induction links with
  | nil => exact ⟨hn, trivial⟩
  | cons a rest ih =>
    cases rest with
    | nil => exact ⟨h.1, ih h.2⟩
    | cons b rest => exact ⟨h.1, ih h.2⟩

/-- Links the other way, in the other order, are contiguous too. -/
theorem Contiguous.reverse {links : List Link} (h : Contiguous links) :
    Contiguous (links.reverse.map Link.reversed) := by
  induction links with
  | nil => trivial
  | cons a rest ih =>
    cases rest with
    | nil => trivial
    | cons b rest =>
      have hb := ih h.2
      simp only [List.reverse_cons, List.map_append, List.map_cons, List.map_nil,
        List.append_assoc, List.cons_append, List.nil_append] at hb ⊢
      exact contiguous_concat hb h.1.symm

/-! ## Paths -/

structure Path where
  provider : ProviderId
  links : List Link
  cost : Binary64
  nonempty : links ≠ []
  contiguous : Contiguous links

/-- Costs are compared by value. -/
instance : BEq Path :=
  ⟨fun p q => p.provider == q.provider && p.links == q.links && p.cost == q.cost⟩

namespace Path

/-- The path of a list of links, if they make one. -/
def ofLinks (provider : ProviderId) (links : List Link) (cost : Binary64) : Except Error Path :=
  if nonempty : links = [] then
    .error (.invalidPath "path must contain at least one link")
  else
    match gap : firstGap links with
    | some (a, b) =>
      .error (.invalidPath ("link " ++ b.text ++ " does not continue from " ++ a.text))
    | none => .ok ⟨provider, links, cost, nonempty, firstGap_eq_none_iff.1 gap⟩

def first (p : Path) : Link := p.links.head p.nonempty

def last (p : Path) : Link := p.links.getLast p.nonempty

def src (p : Path) : ConnectPoint := p.first.src

def dst (p : Path) : ConnectPoint := p.last.dst

/-- The ends of every link, in order. -/
def connectPoints (p : Path) : List ConnectPoint := p.links.flatMap fun l => [l.src, l.dst]

/-- The path the other way: every link reversed, in reverse order. -/
def inverted (p : Path) : Path where
  provider := p.provider
  links := p.links.reverse.map Link.reversed
  cost := p.cost
  nonempty := by simp [p.nonempty]
  contiguous := p.contiguous.reverse

def text (p : Path) : String :=
  "[" ++ ", ".intercalate (p.links.map Link.text) ++ "] cost=" ++ p.cost.text

theorem ofLinks_isOk_iff {provider : ProviderId} {links : List Link} {cost : Binary64} :
    (ofLinks provider links cost).isOk = true ↔ links ≠ [] ∧ Contiguous links := by
  rw [← firstGap_eq_none_iff]
  unfold ofLinks
  split
  · simp_all [Except.isOk, Except.toBool]
  · split <;> simp_all [Except.isOk, Except.toBool]

/-- A list of links makes the path over these links, if any. -/
theorem ofLinks_eq_ok_iff {provider : ProviderId} {links : List Link} {cost : Binary64}
    {p : Path} :
    ofLinks provider links cost = .ok p ↔
      p.provider = provider ∧ p.links = links ∧ p.cost = cost := by
  constructor
  · intro h
    unfold ofLinks at h
    split at h
    · exact nomatch h
    · split at h
      · exact nomatch h
      · rw [← Except.ok.inj h]
        exact ⟨rfl, rfl, rfl⟩
  · rintro ⟨rfl, rfl, rfl⟩
    unfold ofLinks
    rw [dif_neg p.nonempty]
    split
    next hgap => simp [firstGap_eq_none_iff.2 p.contiguous] at hgap
    next => rfl

end Path

/-- Two paths between the same ends that share no link and no element in between. -/
structure DisjointPaths where
  primary : Path
  backup : Path
deriving BEq

/-! ## JSON form -/

/-- The members of a path before they are checked. -/
structure PathMembers where
  provider : ProviderId
  links : List Link
  cost : Binary64

def PathMembers.fields : Json.Fields PathMembers :=
  PathMembers.mk <$> .required "provider_id" <*> .required "links" <*> .required "cost"

instance : Json.Decode Path where
  decode v := do
    let m ← PathMembers.fields.decode v
    (Path.ofLinks m.provider m.links m.cost).mapError fun e => .refused e.message

instance : Json.Encode Path where
  encode p := .object
    [("provider_id", Json.encode p.provider), ("links", Json.encode p.links),
     ("cost", Json.encode p.cost)]

def DisjointPaths.fields : Json.Fields DisjointPaths :=
  DisjointPaths.mk <$> .required "primary" <*> .required "backup"

instance : Json.Decode DisjointPaths := ⟨DisjointPaths.fields.decode⟩

instance : Json.Encode DisjointPaths where
  encode d := .object [("primary", Json.encode d.primary), ("backup", Json.encode d.backup)]

end HostRouting
