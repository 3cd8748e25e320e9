/-!
# JSON values

The values of JSON text. The members of an object keep the order in which their names came
first.
-/

namespace Relink.Json

/-- A JSON value. A number is kept as it is written. -/
inductive Value where
  | null
  | bool (value : Bool)
  | number (literal : String)
  | string (text : String)
  | array (items : List Value)
  | object (members : List (String × Value))
deriving Repr, Inhabited

/-- Members with one more. A name that is there already keeps its place and takes the new
value. -/
def insertMember (name : String) (value : Value) :
    List (String × Value) -> List (String × Value)
  | [] => [(name, value)]
  | (known, old) :: rest =>
    if known = name then (known, value) :: rest else (known, old) :: insertMember name value rest

namespace Value

/-- The member of an object that has the given name. -/
def member? (name : String) : Value -> Option Value
  | object members => members.lookup name
  | _ => none

/-- The text of a value that is a text. -/
def text? : Value -> Option String
  | string text => some text
  | _ => none

/-- The names of an object's members, in order. Other values have none. -/
def memberNames : Value -> List String
  | object members => members.map Prod.fst
  | _ => []

/-- The members of a value that is an object. -/
def members? : Value -> Option (List (String × Value))
  | object members => some members
  | _ => none

end Value

end Relink.Json
