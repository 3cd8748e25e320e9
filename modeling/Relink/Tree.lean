import Relink.Path
import Relink.Text

/-!
# File trees

A tree holds directories, files and symbolic links at locations below the root. The root itself
is always a directory. This module only says what lies where; how a path is followed through
links is in `Tree.Walk`, how a tree changes in `Tree.Call`.
-/

namespace Relink

/-- Where an entry lies: the names on the way from the root. -/
abbrev Location := List String

/-- The absolute path of a location. -/
def Location.path (location : Location) : Path :=
  ⟨"/" ++ Text.intercalate "/" location⟩

/-- What lies at a location. -/
inductive Entry where
  | directory
  | file (content : ByteArray) (executable : Bool)
  | link (target : Path)

namespace Entry

instance : DecidableEq Entry
  | directory, directory => isTrue rfl
  | file content executable, file content' executable' =>
    have sameContent := ByteArray.instDecidableEq content content'
    decidable_of_iff (content = content' ∧ executable = executable') (by simp)
  | link target, link target' => decidable_of_iff (target = target') (by simp)
  | directory, file _ _ | directory, link _ | file _ _, directory | file _ _, link _
  | link _, directory | link _, file _ _ => isFalse (by simp)

def isDirectory : Entry -> Bool
  | directory => true
  | _ => false

def isFile : Entry -> Bool
  | file _ _ => true
  | _ => false

end Entry

/-- The entries of a file system, each at its own location. -/
structure Tree where
  entries : List (Location × Entry)
deriving DecidableEq, Inhabited

namespace Tree

/-- The tree that holds nothing but its root. -/
def empty : Tree := ⟨[]⟩

/-- What lies at a location. -/
def lookup (tree : Tree) (location : Location) : Option Entry :=
  if location = [] then some .directory else tree.entries.lookup location

/-- Entries with one more. One that lies at the same location is replaced in its place. -/
def setEntry (location : Location) (entry : Entry) :
    List (Location × Entry) -> List (Location × Entry)
  | [] => [(location, entry)]
  | (known, old) :: rest =>
    if known = location then (known, entry) :: rest
    else (known, old) :: setEntry location entry rest

/-- The tree with the given entry at a location. -/
def set (tree : Tree) (location : Location) (entry : Entry) : Tree :=
  ⟨setEntry location entry tree.entries⟩

/-- The tree without what lies at a location. -/
def erase (tree : Tree) (location : Location) : Tree :=
  ⟨tree.entries.filter fun (known, _) => known != location⟩

/-- Whether a location lies below another one. -/
def isBelow (base location : Location) : Bool :=
  base.isPrefixOf location && base != location

/-- The tree without what lies below a location. -/
def eraseBelow (tree : Tree) (base : Location) : Tree :=
  ⟨tree.entries.filter fun (known, _) => !isBelow base known⟩

/-- The tree with a location, and all that lies below it, moved to another one. -/
def relocate (tree : Tree) (source target : Location) : Tree :=
  ⟨tree.entries.map fun (known, entry) =>
    if source.isPrefixOf known then (target ++ known.drop source.length, entry) else (known, entry)⟩

/-- The names in a directory, in order. -/
def children (tree : Tree) (directory : Location) : List String :=
  (tree.entries.filterMap fun (known, _) =>
    if known.dropLast = directory then known.getLast? else none).mergeSort Name.le

/-- Whether nothing lies below a location. -/
def isEmptyBelow (tree : Tree) (base : Location) : Bool :=
  tree.entries.all fun (known, _) => !isBelow base known

/-- The files, links and empty directories below a location, in the order of their paths. -/
def leaves (tree : Tree) (base : Location) : List (Path × Entry) :=
  (tree.entries.filterMap fun (known, entry) =>
    if isBelow base known && (!entry.isDirectory || tree.isEmptyBelow known) then
      some (known.path, entry)
    else none).mergeSort fun first second => Name.le first.1.text second.1.text

theorem lookup_setEntry (location other : Location) (entry : Entry)
    (entries : List (Location × Entry)) :
    (setEntry location entry entries).lookup other =
      if other = location then some entry else entries.lookup other := by
  have decided (first second : Location) : (first == second) = decide (first = second) := by
    by_cases same : first = second <;> simp [same]
  induction entries with
  | nil => by_cases same : other = location <;> simp [setEntry, List.lookup_cons, decided, same]
  | cons first rest ih =>
    obtain ⟨known, old⟩ := first
    by_cases here : known = location
    · subst here
      by_cases same : other = known <;> simp [setEntry, List.lookup_cons, decided, same]
    · by_cases same : other = known
      · subst same
        simp [setEntry, here]
      · simp [setEntry, List.lookup_cons, here, decided, same, ih]

/-- What was put at a location lies there, and nothing else has changed. -/
theorem lookup_set {tree : Tree} {location : Location} (entry : Entry) (other : Location)
    (proper : location ≠ []) :
    (tree.set location entry).lookup other =
      if other = location then some entry else tree.lookup other := by
  by_cases top : other = []
  · subst top
    simp [lookup, Ne.symm proper]
  · simp [lookup, top, set, lookup_setEntry]

end Tree
end Relink
