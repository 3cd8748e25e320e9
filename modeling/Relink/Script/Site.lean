import Relink.Script.Lexeme

/-!
# Specifier sites

Where a statement names a module: the quoted specifier after `import`, `export … from`,
`import(` and `require(`. `siteAt?` looks at one place of a text and never past the statement
that begins there.
-/

namespace Relink.Script

/-- The statement that a specifier is written in. -/
inductive Form where
  /-- `import "…"` and `import … from "…"`. -/
  | staticImport
  /-- `import("…")`. -/
  | dynamicImport
  /-- `export … from "…"`. -/
  | exportFrom
  /-- `require("…")`. -/
  | requireCall
deriving DecidableEq, Repr

/-- A specifier found ahead: `lead` characters come before it, its opening quote included. -/
structure Site where
  form : Form
  lead : Nat
  specifier : List Char
deriving DecidableEq, Repr

/-- The characters that a specifier is made of. -/
def isSpecifierCharacter (character : Char) : Bool :=
  !isBlank character && !isQuote character

/-- The specifier quoted at the start of a text. It is not empty, holds neither blank nor quote,
and knows no escapes. -/
def quotedSpecifier? : List Char -> Option (List Char)
  | [] => none
  | quote :: rest =>
    let specifier := rest.takeWhile isSpecifierCharacter
    if isQuote quote && !specifier.isEmpty &&
        (rest.drop specifier.length).head? == some quote then
      some specifier
    else none

/-- Whether a text begins with `word`, and `word` is neither a part of a longer word nor the name
of a property. `previous` is the character before the text. -/
def beginsWithWord (previous : Option Char) (word : List Char) (text : List Char) : Bool :=
  word.isPrefixOf text &&
    !(previous.any fun character => isWord character || character == '.') &&
    !((text.drop word.length).head?.any isWord)

/-- The punctuation of the clause between a keyword and its `from`. -/
def isClausePunctuation (character : Char) : Bool :=
  character == '{' || character == '}' || character == ',' || character == '*'

/-- How many characters of a clause come before the quote after its `from`. A `from` that no
quote follows is a name of the clause, and any character that no clause holds ends the attempt.
The first `pending` characters are settled, and `passed` characters come before them. -/
def clauseLengthFrom? (previous : Char) (pending passed : Nat) : List Char -> Option Nat
  | [] => none
  | character :: rest =>
    match pending with
    | more + 1 => clauseLengthFrom? character more (passed + 1) rest
    | 0 =>
      if beginsWithWord (some previous) "from".toList (character :: rest) then
        let following := rest.drop 3
        let gap := triviaLength following
        if (following.drop gap).head?.any isQuote then some (passed + 4 + gap)
        else clauseLengthFrom? character 3 (passed + 1) rest
      else
        match commentLength? (character :: rest) with
        | some (more + 1) => clauseLengthFrom? character more (passed + 1) rest
        | _ =>
          if isWord character || isBlank character || isClausePunctuation character then
            clauseLengthFrom? character 0 (passed + 1) rest
          else none

/-- The site of a statement whose quote stands `offset` characters after its keyword, which is
`keyword` characters long. -/
def quotedSite? (form : Form) (keyword offset : Nat) (following : List Char) : Option Site :=
  (quotedSpecifier? (following.drop offset)).map fun specifier =>
    ⟨form, keyword + offset + 1, specifier⟩

/-- The site of a call whose first argument is a specifier. `following` comes after the called
word, and `offset` characters of it come before the opening bracket. -/
def argumentSite? (form : Form) (keyword offset : Nat) (following : List Char) : Option Site :=
  quotedSite? form keyword (offset + 1 + triviaLength (following.drop (offset + 1))) following

/-- The site of a statement with a clause. -/
def clauseSite? (form : Form) (keyword : Nat) (following : List Char) : Option Site :=
  (clauseLengthFrom? 't' 0 0 following).bind fun offset =>
    quotedSite? form keyword offset following

/-- The site of a statement that begins with `import`. -/
def importSite? (following : List Char) : Option Site :=
  let gap := triviaLength following
  match (following.drop gap).head? with
  | some '(' => argumentSite? .dynamicImport 6 gap following
  | some '\'' | some '"' => quotedSite? .staticImport 6 gap following
  | _ => clauseSite? .staticImport 6 following

/-- The site of a statement that begins with `export`. -/
def exportSite? (following : List Char) : Option Site :=
  clauseSite? .exportFrom 6 following

/-- The site of a call of `require`. -/
def requireSite? (following : List Char) : Option Site :=
  let gap := triviaLength following
  if (following.drop gap).head? = some '(' then argumentSite? .requireCall 7 gap following
  else none

/-- The site of the statement that a text begins with, if it begins with one that names a
module. -/
def siteAt? (previous : Option Char) (text : List Char) : Option Site :=
  if beginsWithWord previous "import".toList text then importSite? (text.drop 6)
  else if beginsWithWord previous "export".toList text then exportSite? (text.drop 6)
  else if beginsWithWord previous "require".toList text then requireSite? (text.drop 7)
  else none

end Relink.Script
