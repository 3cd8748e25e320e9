import Relink.Tree.Call

/-!
# Differences between trees

What must have happened to a tree that looks different now. What was moved counts as removed at
the one place and created at the other.
-/

namespace Relink.Tree

/-- Whether two entries are both directories or both something else. -/
def sameKind (first second : Entry) : Bool :=
  first.isDirectory = second.isDirectory

/-- What is gone, or gave way to something of another kind. What lies deeper goes first. -/
def removals (before after : Tree) : List Change :=
  let gone := before.entries.filter fun (location, entry) =>
    match after.lookup location with
    | some now => !sameKind entry now
    | none => true
  (gone.mergeSort fun first second => second.1.length ≤ first.1.length).map
    fun (location, entry) => .removed location entry.isDirectory

/-- What is new, or took the place of something of another kind. What lies higher comes first. -/
def creations (before after : Tree) : List Change :=
  let fresh := after.entries.filter fun (location, entry) =>
    match before.lookup location with
    | some old => !sameKind old entry
    | none => true
  (fresh.mergeSort fun first second => first.1.length ≤ second.1.length).map
    fun (location, entry) => .created location entry.isDirectory

/-- The files whose content is another one. -/
def overwrites (before after : Tree) : List Change :=
  after.entries.filterMap fun (location, entry) =>
    match before.lookup location with
    | some old => if sameKind old entry && old != entry then some (.written location) else none
    | none => none

/-- The changes that lead from one tree to another. -/
def changesTo (before after : Tree) : List Change :=
  removals before after ++ creations before after ++ overwrites before after

end Relink.Tree
