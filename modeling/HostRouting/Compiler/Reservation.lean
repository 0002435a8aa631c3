import HostRouting.Intent.Basic
import HostRouting.Ledger.Basic

/-!
# Reservation of bandwidth

The bandwidth that an intent asks for is reserved on every device port of its route. What is
already held with the right value stays; what is held with another value is given back first. Once
an intent belongs to a group, what is held under its own key is given back as well.

Main definition: `reserve`.
-/

namespace HostRouting

/-- The resources that an intent needs at the given points, one for each device port. -/
def neededResources (b : Bandwidth) (points : List ConnectPoint) : List Resource :=
  (points.filterMap (Resource.atPoint? · b)).foldl
    (fun found r => if found.any (·.id = r.id) then found else found ++ [r]) []

section

variable {ρ : Type} [Reservations ρ]

/-- Gives allocations back, if there are any. -/
def giveBack (ledger : ρ) (allocations : List Allocation) : ρ :=
  if allocations.isEmpty then ledger else (Reservations.release ledger allocations).1

/-- Gives back what an intent in a group holds under its own key. -/
def giveBackOwn (ledger : ρ) (c : Connectivity) : ρ :=
  if c.group.isSome then giveBack ledger (Reservations.held ledger (.intent c.key)) else ledger

/-- Reserves what an intent asks for on every device port among the points, and gives the
allocations made. -/
def reserve (ledger : ρ) (c : Connectivity) (points : List ConnectPoint) :
    ρ × List Allocation :=
  match c.requestedBandwidth? with
  | none => (ledger, [])
  | some b =>
    let held := Reservations.held ledger c.consumer
    let pending := (neededResources b points).filter fun r => !held.any (·.resource == r)
    if pending.isEmpty then (ledger, [])
    else
      let outdated := held.filter fun a => pending.any (·.id = a.resource.id)
      let ledger := giveBackOwn (giveBack ledger outdated) c
      Reservations.allocate ledger c.consumer pending

end

end HostRouting
