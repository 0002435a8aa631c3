import HostRouting.LinkStore.Basic
import HostRouting.SortedMap.Catalog

/-!
# The table of links

The store that keeps one link for each pair of ends, listed in the order of the ends. Updating a
link replaces its type, its expectation, its annotations and its provider, and keeps its state; it
does nothing when only the provider would change.

Main definitions: `LinkTable.insert`, `LinkTable.createOrUpdate` and `LinkTable.remove`. Main fact:
`LinkTable.endpoints_of_link?` (a link is found under its own ends).
-/

namespace HostRouting

structure LinkTable where
  byEnds : Catalog Link.endpoints
deriving DecidableEq

namespace LinkTable

def empty : LinkTable := ⟨.empty⟩

def link? (t : LinkTable) (src dst : ConnectPoint) : Option Link := t.byEnds.get? ⟨src, dst⟩

def links (t : LinkTable) : List Link := t.byEnds.toList

def size (t : LinkTable) : Nat := t.byEnds.size

def isEmpty (t : LinkTable) : Bool := t.byEnds.isEmpty

/-- Adds a link as it is, in place of the one with the same ends. -/
def insert (t : LinkTable) (l : Link) : LinkTable := ⟨t.byEnds.insert l⟩

/-- Whether a link is already as described. -/
def isAsDescribed (l : Link) (d : LinkDescription) : Bool :=
  l.type = d.type && l.expected = d.expected && l.annotations = d.annotations

/-- The link after an update. -/
def updated (l : Link) (provider : ProviderId) (d : LinkDescription) : Link :=
  { l with
    type := d.type, expected := d.expected, annotations := d.annotations, provider := provider }

/-- The link that a description creates. -/
def created (provider : ProviderId) (d : LinkDescription) : Link :=
  ⟨provider, d.src, d.dst, d.type, .active, d.expected, d.annotations⟩

def createOrUpdate (t : LinkTable) (provider : ProviderId) (d : LinkDescription) :
    LinkTable × Option LinkChange :=
  match t.byEnds.get? d.endpoints with
  | some l =>
    if isAsDescribed l d then (t, none)
    else
      let l := updated l provider d
      (⟨t.byEnds.insert l⟩, some ⟨.updated, l⟩)
  | none =>
    let l := created provider d
    (⟨t.byEnds.insert l⟩, some ⟨.added, l⟩)

def remove (t : LinkTable) (src dst : ConnectPoint) : LinkTable × Option LinkChange :=
  match t.link? src dst with
  | some l => (⟨t.byEnds.erase ⟨src, dst⟩⟩, some ⟨.removed, l⟩)
  | none => (t, none)

theorem endpoints_of_link? {t : LinkTable} {src dst : ConnectPoint} {l : Link}
    (h : t.link? src dst = some l) : l.endpoints = ⟨src, dst⟩ := Catalog.key_of_get? h

@[simp] theorem link?_insert_self (t : LinkTable) (l : Link) :
    (t.insert l).link? l.src l.dst = some l := Catalog.get?_insert_self t.byEnds l

theorem link?_insert_of_ne (t : LinkTable) {l : Link} {src dst : ConnectPoint}
    (h : ⟨src, dst⟩ ≠ l.endpoints) : (t.insert l).link? src dst = t.link? src dst :=
  Catalog.get?_insert_of_ne _ h

end LinkTable

instance : LinkStore LinkTable where
  link? := LinkTable.link?
  links := LinkTable.links
  createOrUpdate := LinkTable.createOrUpdate
  remove := LinkTable.remove

end HostRouting
