import Relink.Path

/-!
# Scopes

Which changes concern a command. A directory above the one that was asked for may be watched in
its place, and then most of what changes there does not matter.
-/

namespace Relink

/-- The paths that a command asked to have watched. -/
abbrev Scope := List Path

namespace Scope

/-- Whether a change of a path matters: it is visible, and it is one of the paths or lies below
one. -/
def covers (scope : Scope) (path : Path) : Bool :=
  !path.isHidden && scope.any path.startsWith

/-- The paths whose changes matter. -/
def visible (scope : Scope) (paths : List Path) : List Path :=
  paths.filter scope.covers

end Scope
end Relink
