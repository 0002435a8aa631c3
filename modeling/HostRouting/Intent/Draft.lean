import HostRouting.Intent.Basic

/-!
# Drafts of intents

An intent is put together member by member. The application and both hosts are required; a key that
is not given is derived from the hosts and the selector.

Main definition: `Draft.build`.
-/

namespace HostRouting

/-- The members of an intent that is being put together. -/
structure Draft where
  app : Option ApplicationId
  key : Option IntentKey
  one : Option HostId
  two : Option HostId
  selector : Selector
  treatment : Treatment
  constraints : List Constraint
  priority : Option UInt32
  group : Option ResourceGroup

namespace Draft

def empty : Draft := ⟨none, none, none, none, .empty, .empty, [], none, none⟩

/-- Adds a constraint after the others. -/
def addConstraint (d : Draft) (c : Constraint) : Draft :=
  { d with constraints := d.constraints ++ [c] }

/-- A member that an intent cannot do without; `key` is the one the intent was to have. -/
def require {α : Type} (key : Option String) (name : String) : Option α → Except Error α
  | some a => .ok a
  | none => .error (.invalidIntent key (name ++ " member is required"))

def build (d : Draft) : Except Error HostIntent := do
  let key := d.key.map IntentKey.value
  let app ← require key "app_id" d.app
  let one ← require key "one" d.one
  let two ← require key "two" d.two
  .ok {
    base := {
      key := d.key.getD (HostIntent.keyOf one two d.selector app)
      app := app
      selector := d.selector
      treatment := d.treatment
      constraints := withNotOptical d.constraints
      priority := d.priority.getD defaultPriority
      group := d.group }
    one := one
    two := two
    paths := none }

end Draft

end HostRouting
