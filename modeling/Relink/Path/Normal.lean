import Relink.Path

/-!
# Normal paths

`normalize` drops every `.` and folds every `..` into the name before it. It is lexical: no
file system is consulted, so a symbolic link is folded like any other name. A `..` that would
climb above the root is dropped, and one that leads out of a relative path is kept.
-/

namespace Relink.Path

/-- One component read after the components of `stack`, the latest of them first. -/
def fold (stack : List Component) : Component -> List Component
  | .current => stack
  | .parent =>
    match stack with
    | .name _ :: below => below
    | .root :: _ => stack
    | _ => .parent :: stack
  | other => other :: stack

/-- The components of a normal path. -/
def normalComponents (components : List Component) : List Component :=
  (components.foldl fold []).reverse

/-- A path with its `.` and `..` folded away. -/
def normalize (path : Path) : Path :=
  ofComponents (normalComponents path.components)

/-- A path read from the directory `base`, and made normal. -/
def absolutize (base path : Path) : Path :=
  if path.isAbsolute then path.normalize else (base.join path).normalize

end Relink.Path
