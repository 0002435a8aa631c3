import HostRouting.Ledger.Basic

/-!
# A ledger in no fixed order

Sums of floating-point numbers depend on the order of the terms. This ledger goes through what is
held of a resource in an order that may be another one after every change, so all that is known of
its sums is which quantities they add.

Main definition: `ShuffledLedger`.
-/

namespace HostRouting

structure ShuffledLedger where
  book : Ledger
  /-- How often allocations have been made or taken back. -/
  changes : Nat
  /-- The order in which the quantities of a resource are added after so many changes. -/
  order : Nat → ResourceId → List Binary64 → List Binary64
  perm : ∀ n id xs, (order n id xs).Perm xs

namespace ShuffledLedger

/-- The ledger that adds in the order of consumers. -/
def ofLedger (book : Ledger) : ShuffledLedger := ⟨book, 0, fun _ _ xs => xs, fun _ _ _ => .refl _⟩

/-- The quantity of a resource that all consumers hold together. -/
def allocated (l : ShuffledLedger) (id : ResourceId) : Binary64 :=
  Binary64.sum (l.order l.changes id (l.book.quantities id))

/-- Whether a further quantity of a resource stays within its capacity. -/
def fits (l : ShuffledLedger) (id : ResourceId) (extra : Binary64) : Bool :=
  match l.book.capacities.get? id with
  | some capacity => l.allocated id + extra ≤ capacity
  | none => true

/-- Whether a request is granted. -/
def grants (l : ShuffledLedger) (resources : List Resource) : Bool :=
  resources.all fun r => l.fits r.id (Ledger.total r.id resources)

def allocate (l : ShuffledLedger) (c : Consumer) (resources : List Resource) :
    ShuffledLedger × List Allocation :=
  if l.grants resources then
    ({ l with
        book := l.book.setHolding c (l.book.holding c ++ resources)
        changes := l.changes + 1 }, resources.map (⟨·, c⟩))
  else (l, [])

def release (l : ShuffledLedger) (allocations : List Allocation) : ShuffledLedger × Bool :=
  let (book, found) := l.book.release allocations
  ({ l with book := book, changes := l.changes + 1 }, found)

end ShuffledLedger

instance : Reservations ShuffledLedger where
  held l := l.book.held
  allocate := ShuffledLedger.allocate
  release := ShuffledLedger.release
  isAvailable l r := l.fits r.id r.value

end HostRouting
