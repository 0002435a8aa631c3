import HostRouting.Network.Element
import HostRouting.Text.Quoted

/-!
# Errors

What can go wrong when an intent is read, built, routed or compiled, and the message for each.
-/

namespace HostRouting

inductive Error where
  /-- No candidate path, or pair of paths, satisfies the constraints. -/
  | pathNotFound (src dst : ElementId)
  /-- A path could not be turned into an installable intent. -/
  | compilation (reason : String)
  /-- An intent could not be built; the key is the one it was to have. -/
  | invalidIntent (key : Option String) (reason : String)
  /-- A list of links is no path. -/
  | invalidPath (reason : String)
  /-- An annotation that a constraint adjusts is not a number. -/
  | annotationNotNumeric (key value : String)
  | hostNotFound (id : HostId)
  /-- A value could not be read. -/
  | serialization (reason : String)
deriving DecidableEq

namespace Error

def message : Error → String
  | .pathNotFound src dst => "No path found between " ++ src.name ++ " and " ++ dst.name
  | .compilation reason => "Intent compilation failed: " ++ reason
  | .invalidIntent _ reason => "Intent validation failed: " ++ reason
  | .invalidPath reason => "Invalid path: " ++ reason
  | .annotationNotNumeric key value =>
    "Annotation " ++ key ++ " has non-numeric value " ++ quoted value
  | .hostNotFound id => "Host " ++ id.name ++ " not found"
  | .serialization reason => "Serialization error: " ++ reason

/-- Whether another topology or other constraints may mend the error. -/
def isRecoverable : Error → Bool
  | .pathNotFound .. => true
  | _ => false

/-- The error of a value that could not be read as JSON. -/
def ofFault (fault : Json.Fault) : Error := .serialization fault.message

end Error

end HostRouting
