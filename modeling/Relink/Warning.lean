import Relink.Path

/-!
# Warnings

What is reported about a specifier that is left as it is.
-/

namespace Relink

/-- Why a specifier is reported. -/
inductive Concern where
  /-- It refers to a file that is not there. -/
  | unresolved
  | unknownDependency (package : String)
  | invalidSpecifier
  | unknownBuiltin
  | bareBuiltin (suggested : String)
deriving DecidableEq, Repr

/-- The code of a concern. -/
def Concern.code : Concern -> String
  | unresolved => "UNRESOLVED_SPECIFIER"
  | unknownDependency _ => "UNKNOWN_DEPENDENCY"
  | invalidSpecifier => "INVALID_SPECIFIER"
  | unknownBuiltin => "UNKNOWN_BUILTIN"
  | bareBuiltin _ => "BARE_BUILTIN"

/-- What is wrong with one specifier of a file. -/
structure Warning where
  file : Path
  specifier : String
  line : Nat
  concern : Concern
deriving DecidableEq, Repr

namespace Warning

/-- A text in double quotes. -/
private def quoted (text : String) : String :=
  "\"" ++ text ++ "\""

/-- The wording of a warning. -/
def message (warning : Warning) : String :=
  let place := quoted (warning.file.shown ++ ":" ++ Nat.repr warning.line)
  let specifier := quoted warning.specifier
  match warning.concern with
  | .unresolved => "Failed to rewrite " ++ specifier ++ " import in " ++ place
  | .unknownDependency package =>
    "Unknown dependency " ++ quoted package ++ " in " ++ place ++ ", did you install it?"
  | .invalidSpecifier => "Invalid module " ++ specifier ++ " in " ++ place
  | .unknownBuiltin => "Unknown built-in module " ++ specifier ++ " in " ++ place
  | .bareBuiltin suggested =>
    "Built-in module " ++ specifier ++ " must be written as " ++ quoted suggested ++ " in " ++ place

end Warning
end Relink
