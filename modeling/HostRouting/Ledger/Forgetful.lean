import HostRouting.Ledger.Basic

/-!
# A ledger that may not take allocations back

While it is forgetful, nothing is released and every release is answered as not held.
-/

namespace HostRouting

structure ForgetfulLedger where
  ledger : Ledger
  forgetful : Bool

namespace ForgetfulLedger

def ofLedger (ledger : Ledger) : ForgetfulLedger := ⟨ledger, false⟩

def allocate (l : ForgetfulLedger) (c : Consumer) (resources : List Resource) :
    ForgetfulLedger × List Allocation :=
  let (ledger, made) := l.ledger.allocate c resources
  ({ l with ledger := ledger }, made)

def release (l : ForgetfulLedger) (allocations : List Allocation) : ForgetfulLedger × Bool :=
  if l.forgetful then (l, false)
  else
    let (ledger, found) := l.ledger.release allocations
    ({ l with ledger := ledger }, found)

end ForgetfulLedger

instance : Reservations ForgetfulLedger where
  held l := l.ledger.held
  allocate := ForgetfulLedger.allocate
  release := ForgetfulLedger.release
  isAvailable l := l.ledger.isAvailable

end HostRouting
