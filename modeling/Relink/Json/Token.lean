import Relink.Json.Number

/-!
# Tokens of JSON text

A machine reads one character after the other. It refuses what no JSON text holds: a control
character in a string, half of a surrogate pair, an unknown escape, word or number.
-/

namespace Relink.Json

/-- The words of JSON text. -/
inductive Token where
  | openArray
  | closeArray
  | openObject
  | closeObject
  | colon
  | comma
  | null
  | bool (value : Bool)
  | number (literal : String)
  | string (text : String)
deriving DecidableEq, Repr

/-- The escape that is being read inside a string. `high` is the first half of a surrogate pair
whose second half must follow at once. -/
inductive Escape where
  | none
  | letter
  | hex (missing value : Nat) (high : Option Nat)
  | secondBackslash (high : Nat)
  | secondLetter (high : Nat)
deriving DecidableEq, Repr

/-- What is being read. The characters that are read already come latest first. -/
inductive Reading where
  | gap
  | word (read : List Char)
  | number (read : List Char)
  | string (read : List Char) (escape : Escape)
deriving DecidableEq, Repr

/-- The tokens that are complete, the latest first, and what comes after them. -/
structure Lexer where
  tokens : List Token
  reading : Reading
deriving DecidableEq, Repr

namespace Lexer

/-- The machine before the first character. -/
def start : Lexer := ⟨[], .gap⟩

/-- The token that a word is. -/
def wordToken? (word : List Char) : Option Token :=
  if word = "null".toList then some .null
  else if word = "true".toList then some (.bool true)
  else if word = "false".toList then some (.bool false)
  else none

/-- The token that a number is. -/
def numberToken? (literal : List Char) : Option Token :=
  if isNumber literal then some (.number (String.ofList literal)) else none

/-- The token that a character is. -/
def punctuation? (character : Char) : Option Token :=
  if character = '[' then some .openArray
  else if character = ']' then some .closeArray
  else if character = '\x7b' then some .openObject
  else if character = '\x7d' then some .closeObject
  else if character = ':' then some .colon
  else if character = ',' then some .comma
  else none

/-- Whether a character may stand between two tokens. -/
def isGap (character : Char) : Bool :=
  character == ' ' || character == '\t' || character == '\r' || character == '\n'

/-- Whether a number may hold a character. -/
def isNumberCharacter (character : Char) : Bool :=
  character.isDigit || character == '-' || character == '+' || character == '.' ||
    character == 'e' || character == 'E'

/-- Read a character that begins a token or stands before one. -/
def beginToken (tokens : List Token) (character : Char) : Option Lexer :=
  if isGap character then some ⟨tokens, .gap⟩
  else if character = '"' then some ⟨tokens, .string [] .none⟩
  else if character.isDigit || character = '-' then some ⟨tokens, .number [character]⟩
  else if character.isLower then some ⟨tokens, .word [character]⟩
  else (punctuation? character).map fun token => ⟨token :: tokens, .gap⟩

/-- The character that the letter after a backslash stands for. -/
def escaped? (letter : Char) : Option Char :=
  if letter = '"' then some '"'
  else if letter = '\\' then some '\\'
  else if letter = '/' then some '/'
  else if letter = 'b' then some '\x08'
  else if letter = 'f' then some '\x0c'
  else if letter = 'n' then some '\n'
  else if letter = 'r' then some '\r'
  else if letter = 't' then some '\t'
  else none

/-- The value of a hexadecimal digit. -/
def hexValue? (digit : Char) : Option Nat :=
  if digit.isDigit then some (digit.toNat - '0'.toNat)
  else if 'a' ≤ digit && digit ≤ 'f' then some (digit.toNat - 'a'.toNat + 10)
  else if 'A' ≤ digit && digit ≤ 'F' then some (digit.toNat - 'A'.toNat + 10)
  else none

/-- Whether a code unit is the first half of a surrogate pair. -/
def isHighSurrogate (unit : Nat) : Bool :=
  0xD800 ≤ unit && unit ≤ 0xDBFF

/-- Whether a code unit is the second half of a surrogate pair. -/
def isLowSurrogate (unit : Nat) : Bool :=
  0xDC00 ≤ unit && unit ≤ 0xDFFF

/-- What a string holds after a hexadecimal escape with the value `unit`. -/
def endHex (read : List Char) (unit : Nat) : Option Nat -> Option Reading
  | some high =>
    if isLowSurrogate unit then
      some (.string (Char.ofNat (0x10000 + (high - 0xD800) * 0x400 + (unit - 0xDC00)) :: read)
        .none)
    else none
  | none =>
    if isHighSurrogate unit then some (.string read (.secondBackslash unit))
    else if isLowSurrogate unit then none
    else some (.string (Char.ofNat unit :: read) .none)

/-- Read a character inside a string. -/
def readString (tokens : List Token) (read : List Char) (character : Char) :
    Escape -> Option Lexer
  | .none =>
    if character = '"' then some ⟨.string (String.ofList read.reverse) :: tokens, .gap⟩
    else if character = '\\' then some ⟨tokens, .string read .letter⟩
    else if character.toNat < 0x20 then none
    else some ⟨tokens, .string (character :: read) .none⟩
  | .letter =>
    if character = 'u' then some ⟨tokens, .string read (.hex 4 0 none)⟩
    else (escaped? character).map fun meant => ⟨tokens, .string (meant :: read) .none⟩
  | .hex missing value high =>
    (hexValue? character).bind fun digit =>
      if missing ≤ 1 then
        (endHex read (value * 16 + digit) high).map fun reading => ⟨tokens, reading⟩
      else some ⟨tokens, .string read (.hex (missing - 1) (value * 16 + digit) high)⟩
  | .secondBackslash high =>
    if character = '\\' then some ⟨tokens, .string read (.secondLetter high)⟩ else none
  | .secondLetter high =>
    if character = 'u' then some ⟨tokens, .string read (.hex 4 0 (some high))⟩ else none

/-- Read one character. -/
def step (lexer : Lexer) (character : Char) : Option Lexer :=
  match lexer.reading with
  | .gap => beginToken lexer.tokens character
  | .word read =>
    if character.isLower then some ⟨lexer.tokens, .word (character :: read)⟩
    else (wordToken? read.reverse).bind fun token => beginToken (token :: lexer.tokens) character
  | .number read =>
    if isNumberCharacter character then some ⟨lexer.tokens, .number (character :: read)⟩
    else (numberToken? read.reverse).bind fun token => beginToken (token :: lexer.tokens) character
  | .string read escape => readString lexer.tokens read character escape

/-- The tokens of a text that ends here. -/
def finish (lexer : Lexer) : Option (List Token) :=
  match lexer.reading with
  | .gap => some lexer.tokens.reverse
  | .word read => (wordToken? read.reverse).map fun token => (token :: lexer.tokens).reverse
  | .number read => (numberToken? read.reverse).map fun token => (token :: lexer.tokens).reverse
  | .string _ _ => none

end Lexer

/-- The tokens of a text. -/
def tokens? (text : String) : Option (List Token) :=
  (text.toList.foldlM Lexer.step Lexer.start).bind Lexer.finish

end Relink.Json
