import Relink.Json.Token
import Relink.Json.Value

/-!
# Reading JSON text

A machine with a stack of the arrays and objects that are still open reads one token after the
other. It accepts exactly one value, of limited depth.
-/

namespace Relink.Json

/-- An array or object that is still open: what it holds before the value that is being read.
The items of an array come latest first. -/
inductive Frame where
  | item (earlier : List Value)
  | member (earlier : List (String × Value)) (name : String)
deriving Repr

/-- What must come next. `outer` are the open arrays and objects, the innermost first. -/
inductive Reader where
  | atValue (outer : List Frame)
  | atFirstItem (outer : List Frame)
  | atFirstName (outer : List Frame)
  | atName (members : List (String × Value)) (outer : List Frame)
  | atColon (members : List (String × Value)) (name : String) (outer : List Frame)
  | past (value : Value) (outer : List Frame)
deriving Repr

namespace Reader

/-- How many arrays and objects may lie inside each other. -/
def depthLimit : Nat := 127

/-- Read a token that begins a value. -/
def beginValue (outer : List Frame) : Token -> Option Reader
  | .openArray => if outer.length < depthLimit then some (.atFirstItem outer) else none
  | .openObject => if outer.length < depthLimit then some (.atFirstName outer) else none
  | .null => some (.past .null outer)
  | .bool value => some (.past (.bool value) outer)
  | .number literal => some (.past (.number literal) outer)
  | .string text => some (.past (.string text) outer)
  | _ => none

/-- Read a token that comes after a value. -/
def afterValue (value : Value) : List Frame -> Token -> Option Reader
  | .item earlier :: outer, .comma => some (.atValue (.item (value :: earlier) :: outer))
  | .item earlier :: outer, .closeArray => some (.past (.array (value :: earlier).reverse) outer)
  | .member earlier name :: outer, .comma => some (.atName (insertMember name value earlier) outer)
  | .member earlier name :: outer, .closeObject =>
    some (.past (.object (insertMember name value earlier)) outer)
  | _, _ => none

/-- Read one token. -/
def step (reader : Reader) (token : Token) : Option Reader :=
  match reader with
  | .atValue outer => beginValue outer token
  | .atFirstItem outer =>
    if token = .closeArray then some (.past (.array []) outer)
    else beginValue (.item [] :: outer) token
  | .atFirstName outer =>
    match token with
    | .closeObject => some (.past (.object []) outer)
    | .string name => some (.atColon [] name outer)
    | _ => none
  | .atName members outer =>
    match token with
    | .string name => some (.atColon members name outer)
    | _ => none
  | .atColon members name outer =>
    if token = .colon then some (.atValue (.member members name :: outer)) else none
  | .past value outer => afterValue value outer token

/-- The value that was read, when nothing is open any more. -/
def finish : Reader -> Option Value
  | .past value [] => some value
  | _ => none

end Reader

/-- The value that a text writes. -/
def read? (text : String) : Option Value :=
  (tokens? text).bind fun tokens =>
    (tokens.foldlM Reader.step (Reader.atValue [])).bind Reader.finish

end Relink.Json
