import Relink.Text

/-!
# Text that a shell prints

What `echo` and `printf` make of their arguments.
-/

namespace Relink.Shell

/-- The character that a letter after a backslash stands for. -/
def escapedCharacter? : Char -> Option Char
  | 'n' => some '\n'
  | 't' => some '\t'
  | 'r' => some '\r'
  | 'a' => some '\x07'
  | 'b' => some '\x08'
  | 'f' => some '\x0c'
  | 'v' => some '\x0b'
  | '\\' => some '\\'
  | _ => none

/-- A text with its backslash sequences replaced. Unknown ones stay. -/
def unescape : List Char -> List Char
  | [] => []
  | ['\\'] => ['\\']
  | '\\' :: letter :: rest =>
    match escapedCharacter? letter with
    | some character => character :: unescape rest
    | none => '\\' :: letter :: unescape rest
  | character :: rest => character :: unescape rest

/-- What `echo` prints. -/
def echoed (arguments : List String) : String :=
  let text (words : List String) :=
    String.ofList (unescape (Text.intercalate " " words).toList)
  match arguments with
  | "-n" :: words => text words
  | words => text words ++ "\n"

/-- A format with its directives replaced, and the arguments that are left. -/
def formatOnce (arguments : List String) : List Char -> List Char × List String
  | [] => ([], arguments)
  | '%' :: '%' :: rest =>
    let (text, left) := formatOnce arguments rest
    ('%' :: text, left)
  | '%' :: letter :: rest =>
    if letter = 's' || letter = 'd' || letter = 'b' then
      let value := arguments.head?.getD (if letter = 'd' then "0" else "")
      let (text, left) := formatOnce arguments.tail rest
      ((if letter = 'b' then unescape value.toList else value.toList) ++ text, left)
    else
      let (text, left) := formatOnce arguments rest
      ('%' :: letter :: text, left)
  | '\\' :: letter :: rest =>
    let (text, left) := formatOnce arguments rest
    match escapedCharacter? letter with
    | some character => (character :: text, left)
    | none => if letter = '"' then ('"' :: text, left) else ('\\' :: letter :: text, left)
  | character :: rest =>
    let (text, left) := formatOnce arguments rest
    (character :: text, left)

/-- What a format gives when it is used again until no argument is left, at most `times` times. -/
def formatAll (format : List Char) (times : Nat) (arguments : List String) : List Char :=
  match times with
  | 0 => []
  | fewer + 1 =>
    let (text, left) := formatOnce arguments format
    if left.isEmpty || left.length = arguments.length then text
    else text ++ formatAll format fewer left

/-- What `printf` prints. -/
def printed : List String -> String
  | [] => ""
  | format :: arguments =>
    String.ofList (formatAll format.toList (arguments.length + 1) arguments)

end Relink.Shell
