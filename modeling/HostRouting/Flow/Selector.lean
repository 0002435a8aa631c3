import HostRouting.Flow.Criterion
import HostRouting.SortedMap.Catalog

/-!
# Traffic selectors

A selector asks for several criteria, at most one of each type, and lists them in the order of
their types. Adding a criterion replaces the one of its type.

Main facts: `criterion?_add_self`, `criterion?_add_of_ne`, `criterion?_remove_self` and
`criterion?_remove_of_ne`.
-/

namespace HostRouting

structure Selector where
  criteria : Catalog Criterion.type
deriving DecidableEq

namespace Selector

/-- The selector of all traffic. -/
def empty : Selector := ⟨.empty⟩

def add (s : Selector) (c : Criterion) : Selector := ⟨s.criteria.insert c⟩

/-- Drops the criterion of a type, if any. -/
def remove (s : Selector) (t : CriterionType) : Selector := ⟨s.criteria.erase t⟩

def ofList (criteria : List Criterion) : Selector := criteria.foldl add empty

def toList (s : Selector) : List Criterion := s.criteria.toList

def criterion? (s : Selector) (t : CriterionType) : Option Criterion := s.criteria.get? t

def isEmpty (s : Selector) : Bool := s.criteria.isEmpty

/-- The protocol asked for, if any. -/
def ipProtocol? (s : Selector) : Option UInt8 :=
  match s.criterion? .ipProto with
  | some (.ipProto p) => some p
  | _ => none

/-- The criterion with source and destination ports of TCP and UDP exchanged. -/
def exchangedPort? : Criterion → Option Criterion
  | .tcpSrc p => some (.tcpDst p)
  | .tcpDst p => some (.tcpSrc p)
  | .udpSrc p => some (.udpDst p)
  | .udpDst p => some (.udpSrc p)
  | _ => none

/-- The selector of the traffic the other way: where a protocol is asked for, source and
destination ports of TCP and UDP are exchanged. -/
def withPortsExchanged (s : Selector) : Selector :=
  if s.ipProtocol?.isNone then s
  else
    let others := (((s.remove .tcpSrc).remove .tcpDst).remove .udpSrc).remove .udpDst
    (s.toList.filterMap exchangedPort?).foldl add others

@[simp] theorem criterion?_empty (t : CriterionType) : empty.criterion? t = none := rfl

@[simp] theorem criterion?_add_self (s : Selector) (c : Criterion) :
    (s.add c).criterion? c.type = some c := Catalog.get?_insert_self _ _

theorem criterion?_add_of_ne (s : Selector) {c : Criterion} {t : CriterionType}
    (h : t ≠ c.type) : (s.add c).criterion? t = s.criterion? t :=
  Catalog.get?_insert_of_ne _ h

@[simp] theorem criterion?_remove_self (s : Selector) (t : CriterionType) :
    (s.remove t).criterion? t = none := Catalog.get?_erase_self _ _

theorem criterion?_remove_of_ne (s : Selector) {t u : CriterionType} (h : u ≠ t) :
    (s.remove t).criterion? u = s.criterion? u := Catalog.get?_erase_of_ne _ h

end Selector

/-! ## JSON form -/

instance : Json.Decode Selector := ⟨fun v => (Json.decode v).map Selector.ofList⟩
instance : Json.Encode Selector := ⟨fun s => Json.encode s.toList⟩

end HostRouting
