import Relink.Layout
import Relink.Specifier.Builtin
import Relink.Specifier.PackageName
import Relink.Text

/-!
# Classes of specifiers

What a specifier refers to, decided by its text alone.
-/

namespace Relink.Specifier

/-- What a specifier refers to. -/
inductive Class where
  /-- A file, read from the directory of the file that refers to it. -/
  | relative
  /-- A file, read from the root of the package. -/
  | aliased
  /-- A built-in module written without its marker. -/
  | bareBuiltin
  /-- A built-in module, by the name after its marker. -/
  | builtin (name : String)
  | dependency (package : String)
  /-- Nothing that a package may be called. -/
  | invalid
deriving DecidableEq, Repr

/-- The class of a specifier. Of the rules that fit, the first one holds. -/
def classify (layout : Layout) (specifier : String) : Class :=
  if Text.startsWith specifier "." then .relative
  else if Text.startsWith specifier layout.aliasMarker then .aliased
  else if isUnmarkedBuiltin specifier then .bareBuiltin
  else
    match Text.after? specifier layout.builtinMarker with
    | some name => .builtin name
    | none =>
      match package? specifier with
      | some package => .dependency package
      | none => .invalid

/-- Whether a specifier of this class refers to a file. -/
def Class.isLocal : Class -> Bool
  | relative | aliased => true
  | _ => false

end Relink.Specifier
