import Relink.Json.Value
import Relink.Text

/-!
# Printing JSON values

The printed form has one item or member to a line, two blanks for each level, and escapes only
what a string cannot hold as it is.
-/

namespace Relink.Json

/-- The digit of a hexadecimal number, in lower case. -/
def hexDigit (value : Nat) : Char :=
  if value < 10 then Char.ofNat ('0'.toNat + value) else Char.ofNat ('a'.toNat + value - 10)

/-- How a character is written inside a string. -/
def escape (character : Char) : List Char :=
  if character = '"' then ['\\', '"']
  else if character = '\\' then ['\\', '\\']
  else if character = '\x08' then ['\\', 'b']
  else if character = '\x0c' then ['\\', 'f']
  else if character = '\n' then ['\\', 'n']
  else if character = '\r' then ['\\', 'r']
  else if character = '\t' then ['\\', 't']
  else if character.toNat < 0x20 then
    ['\\', 'u', '0', '0', hexDigit (character.toNat / 16), hexDigit (character.toNat % 16)]
  else [character]

/-- A text in quotes. -/
def quote (text : String) : String :=
  String.ofList ('"' :: (text.toList.flatMap escape ++ ['"']))

/-- The blanks before a line of the given level. -/
def indentation (level : Nat) : String :=
  String.ofList (List.replicate (2 * level) ' ')

/-- Lines of one level more than `level` between two brackets. -/
def block (level : Nat) (opening closing : String) (lines : List String) : String :=
  if lines.isEmpty then opening ++ closing
  else
    opening ++ "\n" ++
      Text.intercalate ",\n" (lines.map fun line => indentation (level + 1) ++ line) ++ "\n" ++
      indentation level ++ closing

mutual

/-- The printed form of a value that stands on a line of the given level. -/
def Value.renderAt (level : Nat) : Value -> String
  | .null => "null"
  | .bool true => "true"
  | .bool false => "false"
  | .number literal => literal
  | .string text => quote text
  | .array items => block level "[" "]" (renderItems (level + 1) items)
  | .object members => block level "\x7b" "\x7d" (renderMembers (level + 1) members)

/-- The printed forms of the items of an array. -/
def renderItems (level : Nat) : List Value -> List String
  | [] => []
  | item :: rest => item.renderAt level :: renderItems level rest

/-- The printed forms of the members of an object. -/
def renderMembers (level : Nat) : List (String × Value) -> List String
  | [] => []
  | (name, value) :: rest => (quote name ++ ": " ++ value.renderAt level) :: renderMembers level rest

end

/-- The printed form of a value. -/
def Value.render (value : Value) : String :=
  value.renderAt 0

/-- A whole number as a value. -/
def Value.ofNat (value : Nat) : Value :=
  .number (Nat.repr value)

end Relink.Json
