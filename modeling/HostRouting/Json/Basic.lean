import HostRouting.Binary64.Basic
import HostRouting.SortedMap.Basic

/-!
# JSON values

A value keeps whole numbers apart from numbers with a fraction or a power of ten. The members of
an object are a list, in the order of the text they were read from. What has the form of a value
and denotes none, as a number beyond the largest finite one, is `unreadable`: it can stand where a
value is ignored.
-/

namespace HostRouting

inductive Json where
  | null
  | bool (value : Bool)
  | integer (value : Int)
  | number (value : Binary64)
  | text (value : String)
  | array (items : List Json)
  | object (members : List (String × Json))
  | unreadable

namespace Json

instance : Inhabited Json := ⟨.null⟩

mutual

/-- Equality of values; numbers are compared by value. -/
def same : Json → Json → Bool
  | .null, .null => true
  | .bool a, .bool b => a == b
  | .integer a, .integer b => a == b
  | .number a, .number b => a == b
  | .text a, .text b => a == b
  | .array a, .array b => sameItems a b
  | .object a, .object b => sameMembers a b
  | .unreadable, .unreadable => true
  | _, _ => false

def sameItems : List Json → List Json → Bool
  | [], [] => true
  | a :: as, b :: bs => same a b && sameItems as bs
  | _, _ => false

def sameMembers : List (String × Json) → List (String × Json) → Bool
  | [], [] => true
  | (n, a) :: as, (m, b) :: bs => n == m && same a b && sameMembers as bs
  | _, _ => false

end

instance : BEq Json := ⟨same⟩

mutual

/-- The value with the members of every object in the order of their names, one for each name. -/
def canonical : Json → Json
  | .array items => .array (canonicalItems items)
  | .object members => .object (canonicalMembers members)
  | value => value

def canonicalItems : List Json → List Json
  | [] => []
  | item :: rest => canonical item :: canonicalItems rest

/-- Of several members with one name the last stays. -/
def canonicalMembers : List (String × Json) → List (String × Json)
  | [] => []
  | (name, value) :: rest =>
    let others := canonicalMembers rest
    if (SortedMap.lookupEntry name others).isSome then others
    else SortedMap.insertEntry name (canonical value) others

end

/-- The member of an object with the given name. -/
def member? (v : Json) (name : String) : Option Json :=
  match v with
  | .object members => SortedMap.lookupEntry name members
  | _ => none

end Json

end HostRouting
