/-!
# Heaps

A list is read as a binary tree: the children of the item at place `i` are at `2 * i + 1` and
`2 * i + 2`. An added item starts at the last place and rises past the parents that it goes before.
To take the top off, the last item is put in its place, sinks to the bottom whatever it is like, and
rises from there.

What goes before what is any relation. Where it is no order, as with costs that cannot be compared,
the place of an item depends on the items that were there when it was added.

Main definitions: `Heap.push` and `Heap.pop?`.
-/

namespace HostRouting.Heap

variable {α : Type}

/-- Exchanges the items at two places. -/
def exchange (heap : List α) (i j : Nat) : List α :=
  match heap[i]?, heap[j]? with
  | some a, some b => (heap.set i b).set j a
  | _, _ => heap

/-- The place of the parent. -/
def parent (i : Nat) : Nat := (i - 1) / 2

section

variable (before : α → α → Bool)

/-- Lets the item at a place rise past the parents that it goes before. The first argument bounds
the number of steps; as many as the place says are enough. -/
def rise : Nat → Nat → List α → List α
  | 0, _, heap => heap
  | n + 1, i, heap =>
    match heap[i]?, heap[parent i]? with
    | some a, some p =>
      if 0 < i ∧ before a p then rise n (parent i) (exchange heap i (parent i)) else heap
    | _, _ => heap

/-- Lets the item at a place sink to the bottom and says where it comes to. It passes the left child
if that goes before the right one. The first argument bounds the number of steps; as many as there
are items are enough. -/
def sink : Nat → Nat → List α → Nat × List α
  | 0, i, heap => (i, heap)
  | n + 1, i, heap =>
    let left := 2 * i + 1
    match heap[left]?, heap[left + 1]? with
    | some l, some r =>
      let child := if before l r then left else left + 1
      sink n child (exchange heap i child)
    | some _, none => (left, exchange heap i left)
    | none, _ => (i, heap)

/-- Adds an item. -/
def push (heap : List α) (a : α) : List α := rise before heap.length heap.length (heap ++ [a])

/-- Takes the top off. -/
def pop? : List α → Option (α × List α)
  | [] => none
  | top :: rest =>
    match rest.getLast? with
    | none => some (top, [])
    | some last =>
      let (i, heap) := sink before rest.length 0 (last :: rest.dropLast)
      some (top, rise before i i heap)

end

end HostRouting.Heap
