import Relink.Launch

/-!
# Shell tokens

The words and signs of a shell script. Quotes are gone from a word, but it still says which of
its parts stand for the value of a parameter.
-/

namespace Relink.Shell

/-- One part of a word. -/
inductive Part where
  | literal (text : String)
  /-- The value of a parameter. Outside double quotes it may give several words. -/
  | parameter (name : String) (quoted : Bool)
deriving DecidableEq, Repr

/-- A word before parameters are put in. -/
abbrev Word := List Part

/-- What a redirection does with a stream. The file or stream is named by the word that
follows. -/
inductive Redirect where
  | replace
  | extend
  | duplicate
deriving DecidableEq, Repr

inductive Token where
  | word (word : Word)
  | redirect (stream : Stream) (redirect : Redirect)
  /-- The end of a command, whatever follows. -/
  | separator
  /-- What follows runs only after a success. -/
  | andThen
  /-- What follows runs only after a failure. -/
  | orElse
deriving DecidableEq, Repr

/-- What the characters that come next belong to. -/
inductive Mode where
  | code
  | comment
  | single
  | double
  | escaped (inDouble : Bool)
  /-- After a dollar sign. -/
  | dollar (inDouble : Bool)
  /-- In the name of a parameter. The letters are given from its end. -/
  | name (inDouble : Bool) (letters : List Char)
  | braced (inDouble : Bool) (letters : List Char)
  /-- After a sign that may be the first of two. -/
  | sign (character : Char)
deriving DecidableEq, Repr

/-- The mode inside or outside double quotes. -/
def Mode.around (inDouble : Bool) : Mode :=
  if inDouble then double else code

/-- What was read of a script. -/
structure Reading where
  mode : Mode := .code
  /-- The word that is being read. -/
  word : Option Word := none
  /-- The tokens, the latest first. -/
  tokens : List Token := []
deriving DecidableEq, Repr

/-- A word with one more character. -/
def Word.push (word : Word) (character : Char) : Word :=
  match word.getLast? with
  | some (.literal text) => word.dropLast ++ [.literal (text.push character)]
  | _ => word ++ [.literal (String.ofList [character])]

/-- Whether a character may stand in the name of a variable. -/
def isNameCharacter (character : Char) : Bool :=
  character.isAlphanum || character == '_'

/-- Whether a character alone is the name of a parameter. -/
def isSpecialParameter (character : Char) : Bool :=
  character.isDigit || "*@#?$".toList.contains character

namespace Reading

/-- Read on in another mode. -/
def goOn (reading : Reading) (mode : Mode) : Reading :=
  { reading with mode }

/-- One more character of a word. -/
def push (reading : Reading) (character : Char) : Reading :=
  { reading with word := some ((reading.word.getD []).push character) }

/-- The value of a parameter in a word. -/
def putParameter (reading : Reading) (name : List Char) (quoted : Bool) : Reading :=
  { reading with
    word := some (reading.word.getD [] ++ [.parameter (String.ofList name) quoted])
    mode := .around quoted }

/-- A quote begins: there is a word, even if nothing stands between the quotes. -/
def openQuote (reading : Reading) (mode : Mode) : Reading :=
  { reading with word := some (reading.word.getD []), mode }

/-- One more token. -/
def put (reading : Reading) (token : Token) : Reading :=
  { reading with tokens := token :: reading.tokens }

/-- The end of a word. -/
def endWord (reading : Reading) : Reading :=
  match reading.word with
  | some word => { reading with word := none, tokens := .word word :: reading.tokens }
  | none => reading

/-- A redirection. A digit that stands right before it says which stream is meant. -/
def redirect (reading : Reading) (redirect : Redirect) : Reading :=
  if reading.word = some [.literal "2"] then
    { reading with word := none }.put (.redirect .errors redirect)
  else if reading.word = some [.literal "1"] then
    { reading with word := none }.put (.redirect .output redirect)
  else reading.endWord.put (.redirect .output redirect)

/-- Read a character outside quotes. -/
def readCode (reading : Reading) (character : Char) : Reading :=
  match character with
  | ' ' | '\t' => reading.endWord.goOn .code
  | '\n' | ';' => (reading.endWord.put .separator).goOn .code
  | '\'' => reading.openQuote .single
  | '"' => reading.openQuote .double
  | '\\' => reading.goOn (.escaped false)
  | '$' => reading.goOn (.dollar false)
  | '>' | '&' | '|' => reading.goOn (.sign character)
  | '#' => if reading.word.isNone then reading.goOn .comment else (reading.push '#').goOn .code
  | _ => (reading.push character).goOn .code

/-- Read a character between double quotes. -/
def readDouble (reading : Reading) (character : Char) : Reading :=
  match character with
  | '"' => reading.goOn .code
  | '\\' => reading.goOn (.escaped true)
  | '$' => reading.goOn (.dollar true)
  | _ => (reading.push character).goOn .double

/-- Read a character inside or outside double quotes. -/
def readAround (reading : Reading) (inDouble : Bool) (character : Char) : Reading :=
  if inDouble then reading.readDouble character else reading.readCode character

/-- A sign that turned out to stand alone. -/
def endSign (reading : Reading) (sign : Char) : Reading :=
  if sign = '>' then reading.redirect .replace else reading.endWord.put .separator

/-- Read one character. -/
def step (reading : Reading) (character : Char) : Reading :=
  match reading.mode, character with
  | .code, _ => reading.readCode character
  | .double, _ => reading.readDouble character
  | .single, '\'' => reading.goOn .code
  | .single, _ => reading.push character
  | .comment, '\n' => reading.readCode '\n'
  | .comment, _ => reading
  | .escaped inDouble, '\n' => reading.goOn (.around inDouble)
  | .escaped false, _ => (reading.push character).goOn .code
  | .escaped true, _ =>
    if "$\"\\\x60".toList.contains character then (reading.push character).goOn .double
    else ((reading.push '\\').push character).goOn .double
  | .dollar inDouble, '{' => reading.goOn (.braced inDouble [])
  | .dollar inDouble, _ =>
    if isSpecialParameter character then reading.putParameter [character] inDouble
    else if isNameCharacter character then reading.goOn (.name inDouble [character])
    else (reading.push '$').readAround inDouble character
  | .name inDouble letters, _ =>
    if isNameCharacter character then reading.goOn (.name inDouble (character :: letters))
    else (reading.putParameter letters.reverse inDouble).readAround inDouble character
  | .braced inDouble letters, '}' => reading.putParameter letters.reverse inDouble
  | .braced inDouble letters, _ => reading.goOn (.braced inDouble (character :: letters))
  | .sign '>', '>' => (reading.redirect .extend).goOn .code
  | .sign '>', '&' => (reading.redirect .duplicate).goOn .code
  | .sign '&', '&' => (reading.endWord.put .andThen).goOn .code
  | .sign '|', '|' => (reading.endWord.put .orElse).goOn .code
  | .sign sign, _ => (reading.endSign sign).readCode character

/-- The end of the script. -/
def finish (reading : Reading) : List Token :=
  let last :=
    match reading.mode with
    | .dollar _ => reading.push '$'
    | .name inDouble letters => reading.putParameter letters.reverse inDouble
    | .sign sign => reading.endSign sign
    | _ => reading
  last.endWord.tokens.reverse

end Reading

/-- The tokens of a script. -/
def Token.ofScript (script : String) : List Token :=
  (script.toList.foldl Reading.step {}).finish

end Relink.Shell
