import Relink.Host

/-!
# Listings

Every file below a directory, except those that are hidden. Links are followed. A hidden entry
is passed over with all that lies below it, but only after it has been found: a hidden link that
leads nowhere fails the listing like any other.
-/

namespace Relink

namespace Tree

/-- A directory that is being listed: the path it was reached by, and where it lies. -/
structure Visit where
  path : Path
  location : Location

/-- The file or directory that a path in a directory names. `visits` are the directories that are
being listed, the innermost first. A link must not lead to one of them. It is followed from the
directory that holds it, whatever the length of the path is. -/
def listed (tree : Tree) (visits : List Visit) (path : Path) (location : Location) :
    Except FileFault (Location × Entry) :=
  match tree.lookup location with
  | some (.link _) =>
    match tree.walk true linkLimit location.dropLast [.down (location.getLast?.getD "")] with
    | .error cause => .error (.listing path cause)
    | .ok ⟨_, none⟩ => .error (.listing path .notFound)
    | .ok ⟨target, some entry⟩ =>
      match entry.isDirectory, visits.find? fun visit => visit.location = target with
      | true, some visit => .error (.loop path visit.path)
      | _, _ => .ok (target, entry)
  | some entry => .ok (location, entry)
  | none => .error (.listing path .notFound)

/-- The visible files below a directory, as far as `depth` directories inside each other.

A directory is opened at its location, not by its path: the limits that `resolve` puts on the
length of a path and on the links along it are not applied on the way down. -/
def listBelow (tree : Tree) (depth : Nat) (visits : List Visit) (here : Visit) :
    Except FileFault (List Path) :=
  match depth with
  | 0 => .ok []
  | below + 1 => do
    let found ← (tree.children here.location).mapM fun name => do
      let path := here.path.join ⟨name⟩
      let (location, entry) ← tree.listed (here :: visits) path (here.location ++ [name])
      if isHiddenName name then .ok []
      else if entry.isDirectory then tree.listBelow below (here :: visits) ⟨path, location⟩
      else .ok [path]
    .ok found.flatten

/-- More directories than a listing can meet inside each other: between two links it goes down,
and no two links that it follows lead to the same directory. -/
def listingDepth (tree : Tree) : Nat :=
  (tree.entries.length + 1) * (tree.entries.length + 1)

/-- The visible files below `root`, or `root` itself if it is a file, in the order of their
components. The name of `root` does not matter. -/
def list (tree : Tree) (base : Location) (root : Path) : Except FileFault (List Path) :=
  match tree.status base root with
  | .error cause => .error (.listing root cause)
  | .ok (location, .directory) => tree.listBelow tree.listingDepth [] ⟨root, location⟩
  | .ok _ => .ok [root]

end Tree

/-- The visible files below a directory. -/
def Host.visibleFiles (host : Host) (root : Path) : Except FileFault (List Path) :=
  host.tree.list host.directory root

end Relink
