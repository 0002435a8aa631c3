import HostRouting.Intent.Draft

/-!
# The JSON form of intents between hosts

Reading builds the intent anew, so the exclusion of optical links is added where it is missing and
the key is derived from the hosts and the selector, whatever key the value carries.

Main definitions: `HostIntent.toJson` and `HostIntent.ofJson`.
-/

namespace HostRouting

/-- The members of the JSON form. -/
structure WireIntent where
  one : Option HostId
  two : Option HostId
  app : Option ApplicationId
  key : Option String
  selector : Selector
  treatment : Treatment
  constraints : List Constraint
  priority : Option UInt32
  group : Option ResourceGroup

namespace WireIntent

def fields : Json.Fields WireIntent :=
  WireIntent.mk <$> .optional "one" <*> .optional "two" <*> .optional "app_id" <*>
    .defaulted "key" none <*> .defaulted "selector" .empty <*> .defaulted "treatment" .empty <*>
    .defaulted "constraints" [] <*> .defaulted "priority" none <*>
    .defaulted "resource_group" none

/-- A member that is left out when there is nothing to write. -/
def encodePresent {α : Type} [Json.Encode α] (name : String) : Option α → List (String × Json)
  | some a => [(name, Json.encode a)]
  | none => []

/-- The intent with these members. -/
def build (w : WireIntent) : Except Error HostIntent := do
  let one ← Draft.require w.key "one" w.one
  let two ← Draft.require w.key "two" w.two
  let app ← Draft.require w.key "app_id" w.app
  Draft.build {
    app := some app
    key := some (HostIntent.keyOf one two w.selector app)
    one := some one
    two := some two
    selector := w.selector
    treatment := w.treatment
    constraints := w.constraints
    priority := w.priority
    group := w.group }

end WireIntent

instance : Json.Decode WireIntent := ⟨WireIntent.fields.decode⟩

instance : Json.Encode WireIntent where
  encode w := .object <|
    [("one", Json.encode w.one), ("two", Json.encode w.two), ("app_id", Json.encode w.app)] ++
    WireIntent.encodePresent "key" w.key ++
    [("selector", Json.encode w.selector), ("treatment", Json.encode w.treatment),
     ("constraints", Json.encode w.constraints)] ++
    WireIntent.encodePresent "priority" w.priority ++
    WireIntent.encodePresent "resource_group" w.group

namespace HostIntent

def wire (i : HostIntent) : WireIntent where
  one := some i.one
  two := some i.two
  app := some i.base.app
  key := some i.base.key.value
  selector := i.base.selector
  treatment := i.base.treatment
  constraints := i.base.constraints
  priority := some i.base.priority
  group := i.base.group

/-- The JSON form of an intent; the paths are not part of it. -/
def toJson (i : HostIntent) : Json := Json.encode i.wire

/-- The intent that a value describes. -/
def ofJson (v : Json) : Except Error HostIntent := do
  let w ← (Json.decode v : Except Json.Fault WireIntent).mapError Error.ofFault
  w.build

end HostIntent

end HostRouting
