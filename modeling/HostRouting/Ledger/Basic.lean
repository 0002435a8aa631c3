import HostRouting.Resource

/-!
# The ledger of reservations

The ledger knows the capacities of resources and the allocations of every consumer. A request is
granted as a whole or not at all: for each resource in it, what all consumers hold and what is
requested must together stay within the capacity. A resource without a capacity is unlimited.

Main definitions: the class `Reservations` of what can be asked of a ledger, and `Ledger`. Main
facts: `Ledger.holding_setHolding_self` and `Ledger.holding_setHolding_of_ne`.
-/

namespace HostRouting

/-- What the rest of the library needs of a ledger. -/
class Reservations (ρ : Type) where
  held : ρ → Consumer → List Allocation
  /-- Grants all of a request and gives its allocations, or gives none. -/
  allocate : ρ → Consumer → List Resource → ρ × List Allocation
  /-- Takes allocations back and says whether all of them were held. -/
  release : ρ → List Allocation → ρ × Bool
  isAvailable : ρ → Resource → Bool

structure Ledger where
  capacities : SortedMap ResourceId Binary64
  /-- What each consumer holds, in the order it was granted. -/
  holdings : SortedMap Consumer (List Resource)

namespace Ledger

def empty : Ledger := ⟨.empty, .empty⟩

/-- Sets the capacity of a resource. -/
def setCapacity (l : Ledger) (id : ResourceId) (capacity : Binary64) : Ledger :=
  { l with capacities := l.capacities.insert id capacity }

/-- The resources that a consumer holds. -/
def holding (l : Ledger) (c : Consumer) : List Resource := (l.holdings.get? c).getD []

/-- Replaces what a consumer holds; a consumer that holds nothing is not listed. -/
def setHolding (l : Ledger) (c : Consumer) (resources : List Resource) : Ledger :=
  { l with holdings :=
      if resources.isEmpty then l.holdings.erase c else l.holdings.insert c resources }

@[simp] theorem holding_setHolding_self (l : Ledger) (c : Consumer) (resources : List Resource) :
    (l.setHolding c resources).holding c = resources := by
  unfold holding setHolding
  split
  next h => simp [List.isEmpty_iff.1 h]
  next => simp

theorem holding_setHolding_of_ne (l : Ledger) {c d : Consumer} (h : d ≠ c)
    (resources : List Resource) : (l.setHolding c resources).holding d = l.holding d := by
  unfold holding setHolding
  split
  · rw [SortedMap.get?_erase_of_ne _ h]
  · rw [SortedMap.get?_insert_of_ne _ h]

/-- The allocations of a consumer. -/
def held (l : Ledger) (c : Consumer) : List Allocation := (l.holding c).map (⟨·, c⟩)

/-- Every allocation, in the order of consumers. -/
def allocations (l : Ledger) : List Allocation :=
  l.holdings.entries.flatMap fun e => e.2.map (⟨·, e.1⟩)

/-- Everything that is held, in the order of consumers. -/
def everything (l : Ledger) : List Resource := l.holdings.values.flatten

/-- The quantities of a resource that are held. -/
def quantities (l : Ledger) (id : ResourceId) : List Binary64 :=
  (l.everything.filter (·.id = id)).map Resource.value

/-- The total of one resource in a list. -/
def total (id : ResourceId) (resources : List Resource) : Binary64 :=
  Binary64.sum ((resources.filter (·.id = id)).map Resource.value)

/-- The quantity of a resource that all consumers hold together, added in the order of consumers. -/
def allocated (l : Ledger) (id : ResourceId) : Binary64 :=
  total id l.holdings.values.flatten

/-- Whether a further quantity of a resource stays within its capacity. -/
def fits (l : Ledger) (id : ResourceId) (extra : Binary64) : Bool :=
  match l.capacities.get? id with
  | some capacity => l.allocated id + extra ≤ capacity
  | none => true

def isAvailable (l : Ledger) (r : Resource) : Bool := l.fits r.id r.value

/-- Whether a request is granted. -/
def grants (l : Ledger) (resources : List Resource) : Bool :=
  resources.all fun r => l.fits r.id (total r.id resources)

def allocate (l : Ledger) (c : Consumer) (resources : List Resource) :
    Ledger × List Allocation :=
  if l.grants resources then
    (l.setHolding c (l.holding c ++ resources), resources.map (⟨·, c⟩))
  else (l, [])

/-- Takes one allocation back, if it is held. -/
def releaseOne (l : Ledger) (a : Allocation) : Ledger × Bool :=
  let resources := l.holding a.consumer
  if resources.contains a.resource then
    (l.setHolding a.consumer (resources.erase a.resource), true)
  else (l, false)

def release (l : Ledger) : List Allocation → Ledger × Bool
  | [] => (l, true)
  | a :: rest =>
    let (l, found) := l.releaseOne a
    let (l, others) := l.release rest
    (l, found && others)

end Ledger

instance : Reservations Ledger where
  held := Ledger.held
  allocate := Ledger.allocate
  release := Ledger.release
  isAvailable := Ledger.isAvailable

end HostRouting
