import HostRouting.Constraint

/-!
# Weights of links

A weigher gives a link the weight that a route pays for crossing it, or rules it out. The weigher
of a list of constraints takes their costs in order; the first cost that is not positive decides,
and otherwise the last.
-/

namespace HostRouting

inductive Weight where
  | scalar (value : Binary64)
  /-- The link must not be used. -/
  | nonViable
deriving BEq

namespace Weight

def value? : Weight → Option Binary64
  | .scalar x => some x
  | .nonViable => none

def text : Weight → String
  | .scalar x => x.text
  | .nonViable => "non-viable"

end Weight

abbrev Weigher : Type := Link → Weight

/-- The weight of a link under no constraint. -/
def hopWeight : Binary64 := 1

/-- Every link is one hop. -/
def hopCount : Weigher := fun _ => .scalar hopWeight

namespace Context

/-- The link as stored; links that attach hosts and links that are not stored, as given. -/
def resolve (ctx : Context) (l : Link) : Link :=
  if l.isEdge then l else (ctx.liveLink? l.src l.dst).getD l

/-- The cost after further constraints, evaluated while the cost so far is positive. -/
def runningCost (ctx : Context) (l : Link) : Binary64 → List Constraint → Binary64
  | cost, [] => cost
  | cost, c :: rest => if cost ≤ 0 then cost else runningCost ctx l (c.cost l ctx) rest

/-- The weigher of a list of constraints. -/
def weigher (ctx : Context) (constraints : List Constraint) : Weigher := fun l =>
  let cost := ctx.runningCost (ctx.resolve l) hopWeight (constraints.filter (·.isCostBearing))
  if cost < 0 then .nonViable else .scalar cost

end Context

end HostRouting
