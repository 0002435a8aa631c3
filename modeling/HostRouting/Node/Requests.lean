import HostRouting.Intent.Wire
import HostRouting.Node.Basic

/-!
# Requests to a node

Intents are submitted, listed, looked up, compiled again and withdrawn by the text of their keys.
A submitted intent is kept even when it does not compile, with the error, so that it can be
compiled again once the topology has changed.

Main definitions: `Node.submit`, `Node.recompile`, `Node.withdraw`, `Node.intent` and
`Node.listing`.
-/

namespace HostRouting

/-! ## Replies -/

inductive Reply where
  | content (status : Nat) (body : Json)
  | refusal (status : Nat) (text : String)
  | empty (status : Nat)

/-- The status of a reply that reports an error. -/
def Error.status : Error → Nat
  | .pathNotFound .. => 422
  | .invalidIntent .. | .serialization _ => 400
  | .hostNotFound _ => 404
  | .compilation _ | .invalidPath _ | .annotationNotNumeric .. => 500

def Reply.ofError (e : Error) : Reply := .refusal e.status e.message

def Reply.unknownIntent (key : String) : Reply :=
  .refusal 404 ("Intent " ++ key ++ " not found")

/-- What is told about a submitted intent. -/
instance : Json.Encode IntentRecord where
  encode r := .object
    [("key", .text r.intent.base.key.value), ("app_id", Json.encode r.intent.base.app),
     ("one", Json.encode r.intent.one), ("two", Json.encode r.intent.two),
     ("priority", Json.encode r.intent.base.priority),
     ("constraints", Json.encode r.intent.base.constraints),
     ("paths", Json.encode (match r.intent.paths with
       | some (there, back) => [there, back]
       | none => [])),
     ("installables", Json.encode r.installables), ("error", Json.encode r.error)]

namespace Node

def version : String := "0.1.0"

def health : Reply :=
  .content 200 (.object [("status", .text "healthy"), ("version", .text version)])

/-- The links as they stand. -/
def links (n : Node) : Reply := .content 200 (Json.encode n.stores.links.links)

/-- All intents, in the order of the texts of their keys. -/
def listing (n : Node) : Reply := .content 200 (Json.encode n.intents.values)

def intent (n : Node) (key : String) : Reply :=
  match n.intents.get? key with
  | some r => .content 200 (Json.encode r)
  | none => .unknownIntent key

/-- The record of an intent after a compilation. -/
def recordOf (intent : HostIntent) : Except Error (List Installable) → IntentRecord
  | .ok installables => ⟨intent, installables, none⟩
  | .error e => ⟨intent, [], some e.message⟩

/-- Compiles an intent and keeps the outcome under a key. -/
def compileAndKeep (n : Node) (status : Nat) (key : String) (i : HostIntent) : Reply × Node :=
  let outcome := compile n.compiler n.stores i
  let r := recordOf outcome.intent outcome.result
  let n := { n with stores := outcome.stores, intents := n.intents.insert key r }
  match outcome.result with
  | .ok _ => (.content status (Json.encode r), n)
  | .error e => (.ofError e, n)

/-- Submits a new intent. An intent with the same text in its key is in the way. -/
def submit (n : Node) (body : Json) : Reply × Node :=
  match HostIntent.ofJson body with
  | .error e => (.ofError e, n)
  | .ok i =>
    let key := i.base.key.value
    if n.intents.contains key then
      (.refusal 409 ("Intent " ++ key ++ " already exists"), n)
    else n.compileAndKeep 201 key i

/-- Compiles an intent against the topology as it stands. -/
def recompile (n : Node) (key : String) : Reply × Node :=
  match n.intents.get? key with
  | some r => n.compileAndKeep 200 key r.intent
  | none => (.unknownIntent key, n)

/-- Withdraws an intent and forgets it. -/
def withdraw (n : Node) (key : String) : Reply × Node :=
  match n.intents.get? key with
  | none => (.unknownIntent key, n)
  | some r =>
    let outcome := HostRouting.withdraw n.config.compiler n.stores r.intent
    match outcome.result with
    | .ok () => (.empty 204, { n with stores := outcome.stores, intents := n.intents.erase key })
    | .error e =>
      let kept := { r with intent := outcome.intent }
      (.ofError e, { n with stores := outcome.stores, intents := n.intents.insert key kept })

end Node

end HostRouting
