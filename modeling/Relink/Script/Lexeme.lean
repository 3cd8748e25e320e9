import Relink.Text

/-!
# Lexemes of a script

How far comments, string, template and regular expression literals reach. A length counts
characters. An unclosed lexeme reaches to the end of the text, but a string or a regular
expression ends before a line feed that no backslash escapes, so that a stray quote hides no
code beyond its line.
-/

namespace Relink.Script

/-- The blanks that may stand between the words of a statement. -/
def isBlank (character : Char) : Bool :=
  character == ' ' || character == '\t' || character == '\n' || character == '\x0c' ||
    character == '\r'

/-- The characters of words. Every character outside ASCII counts as one. -/
def isWord (character : Char) : Bool :=
  character.isAlphanum || character == '_' || character == '$' || 0x80 ≤ character.toNat

/-- The two quotes that a specifier can stand in. -/
def isQuote (character : Char) : Bool :=
  character == '\'' || character == '"'

/-- The length of a block comment, of which `passed` characters come before the given rest. -/
def blockCommentLength (passed : Nat) : List Char -> Nat
  | [] => passed
  | '*' :: '/' :: _ => passed + 2
  | _ :: rest => blockCommentLength (passed + 1) rest

/-- The length of the comment that a text begins with. A line comment ends before its line
feed. -/
def commentLength? : List Char -> Option Nat
  | '/' :: '/' :: rest => some (2 + (rest.takeWhile (· != '\n')).length)
  | '/' :: '*' :: rest => some (blockCommentLength 2 rest)
  | _ => none

/-- The length of a string that `quote` opened, of which `passed` characters come before the
given rest. -/
def stringLength (quote : Char) (passed : Nat) : List Char -> Nat
  | [] => passed
  | ['\\'] => passed + 1
  | '\\' :: _ :: rest => stringLength quote (passed + 2) rest
  | character :: rest =>
    if character = '\n' then passed
    else if character = quote then passed + 1
    else stringLength quote (passed + 1) rest

/-- The length of a template literal, of which `passed` characters come before the given rest.
A substitution is text like any other. -/
def templateLength (passed : Nat) : List Char -> Nat
  | [] => passed
  | ['\\'] => passed + 1
  | '\\' :: _ :: rest => templateLength (passed + 2) rest
  | character :: rest =>
    if character = '\x60' then passed + 1 else templateLength (passed + 1) rest

/-- The length of a regular expression literal, of which `passed` characters come before the
given rest. A slash inside a character class does not close it. -/
def regexLength (inClass : Bool) (passed : Nat) : List Char -> Nat
  | [] => passed
  | ['\\'] => passed + 1
  | '\\' :: _ :: rest => regexLength inClass (passed + 2) rest
  | character :: rest =>
    if character = '\n' then passed
    else if character = '[' then regexLength true (passed + 1) rest
    else if character = ']' then regexLength false (passed + 1) rest
    else if character = '/' && !inClass then passed + 1
    else regexLength inClass (passed + 1) rest

/-- The punctuators and operators after which an expression begins. -/
def isOperator (character : Char) : Bool :=
  "(,=:[!&|?\x7b;+-*%<>~^".toList.contains character

/-- The words after which an expression begins. -/
def operatorWords : List String :=
  ["return", "typeof", "case", "do", "else", "in", "of", "void", "yield", "await", "delete",
    "throw"]

/-- Whether a slash after the text `before`, given from its last character back, opens a regular
expression: at the start of the text, after an operator, and after a word that takes an
expression. Elsewhere it divides. -/
def slashOpensRegex (before : List Char) : Bool :=
  match before.dropWhile isBlank with
  | [] => true
  | character :: earlier =>
    isOperator character ||
      operatorWords.contains
        (String.ofList ((character :: earlier).takeWhile isWord).reverse)

/-- The length of the comment or literal that a text begins with, when it stands after
`before`, given from its last character back. -/
def lexemeLength? (before : List Char) : List Char -> Option Nat
  | '\'' :: rest => some (stringLength '\'' 1 rest)
  | '"' :: rest => some (stringLength '"' 1 rest)
  | '\x60' :: rest => some (templateLength 1 rest)
  | '/' :: rest =>
    match commentLength? ('/' :: rest) with
    | some length => some length
    | none => if slashOpensRegex before then some (regexLength false 1 rest) else none
  | _ => none

/-- The length of the blanks and comments that a text begins with. The first `pending`
characters belong to a comment that has begun, and `passed` characters come before them. -/
def triviaLengthFrom (pending passed : Nat) : List Char -> Nat
  | [] => passed
  | character :: rest =>
    match pending with
    | more + 1 => triviaLengthFrom more (passed + 1) rest
    | 0 =>
      if isBlank character then triviaLengthFrom 0 (passed + 1) rest
      else
        match commentLength? (character :: rest) with
        | some (more + 1) => triviaLengthFrom more (passed + 1) rest
        | _ => passed

/-- The length of the blanks and comments that a text begins with. -/
def triviaLength (text : List Char) : Nat :=
  triviaLengthFrom 0 0 text

end Relink.Script
