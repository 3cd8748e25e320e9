import Relink.Pattern

/-!
# Package names

A package is named by one word, or by a scope and a word: `name` or `@scope/name`. A specifier
names a package when its name is followed by a slash or by nothing.
-/

namespace Relink.Specifier

open Pattern

/-- The characters that a word of a package name can begin with. -/
def wordStart : List (Char × Char) :=
  [('a', 'z'), ('0', '9'), ('-', '-'), ('~', '~')]

/-- The characters of a word of a package name. -/
def wordCharacters : List (Char × Char) :=
  [('a', 'z'), ('0', '9'), ('-', '-'), ('.', '.'), ('_', '_'), ('~', '~')]

/-- A word of a package name. -/
def wordPattern : Pattern :=
  inOrder (oneOf wordStart) (repetition (oneOf wordCharacters))

/-- A package name, with its scope if it has one. -/
def namePattern : Pattern :=
  inOrder
    (option (group 2 (inOrder (single '@') (inOrder wordPattern (single '/')))))
    (group 3 wordPattern)

/-- A package name, and the slash or the end of the text behind it. -/
def packagePattern : Pattern :=
  inOrder start (inOrder (group 1 namePattern) (group 4 (either (single '/') finish)))

example : packagePattern.written =
    "^((@[a-z0-9\\-~][a-z0-9\\-._~]*/)?([a-z0-9\\-~][a-z0-9\\-._~]*))(/|$)" := by
  decide

/-- The package that a specifier names. -/
def package? (specifier : String) : Option String :=
  (packagePattern.captured? 1 specifier.toList).map String.ofList

end Relink.Specifier
