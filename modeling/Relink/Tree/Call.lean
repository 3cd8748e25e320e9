import Relink.Tree.Walk

/-!
# System calls

The calls that change a tree. Each is one atomic step: it either fails and leaves the tree as it
is, or yields the changed tree. `Change` says what a call did, for those who watch the tree.
-/

namespace Relink

/-- What happened to an entry. -/
inductive Change where
  | created (location : Location) (isDirectory : Bool)
  | written (location : Location)
  | removed (location : Location) (isDirectory : Bool)
  | moved (source target : Location) (isDirectory : Bool)
deriving DecidableEq, Repr

namespace Tree

/-- Open a file for writing, empty, at the location that a path names. A file that is there loses
its content, and where nothing is, a file is made. -/
def createFile (tree : Tree) (base : Location) (path : Path) :
    Except Cause (Tree × Location × List Change) :=
  match tree.resolve base true path with
  | .error cause => .error cause
  | .ok ⟨location, none⟩ =>
    if tree.lookup location.dropLast = some .directory then
      .ok (tree.set location (.file ByteArray.empty false), location, [.created location false])
    else .error .notFound
  | .ok ⟨location, some (.file _ executable)⟩ =>
    .ok (tree.set location (.file ByteArray.empty executable), location, [.written location])
  | .ok ⟨_, some .directory⟩ => .error .isDirectory
  | .ok ⟨_, some (.link _)⟩ => .error .tooManyLinks

/-- Append bytes to the file at a location. How many bytes a full or broken disk takes is for the
caller to say. -/
def append (tree : Tree) (location : Location) (bytes : ByteArray) : Tree × List Change :=
  match tree.lookup location with
  | some (.file content executable) =>
    if bytes.isEmpty then (tree, [])
    else (tree.set location (.file (content ++ bytes) executable), [.written location])
  | _ => (tree, [])

/-- Move an entry to another location. A file or link that lies there is replaced, a directory
only by another one and only if it is empty. -/
def moveEntry (tree : Tree) (origin : Location) (entry : Entry) (goal : Location) :
    Except Cause (Tree × List Change) :=
  let moved := [Change.moved origin goal entry.isDirectory]
  if isBelow origin goal then .error .invalidArgument
  else if isBelow goal origin then .error .notEmpty
  else if origin = goal then .ok (tree, [])
  else
    match tree.lookup goal, entry.isDirectory with
    | some .directory, false => .error .isDirectory
    | some .directory, true =>
      if tree.isEmptyBelow goal then .ok ((tree.erase goal).relocate origin goal, moved)
      else .error .notEmpty
    | some _, true => .error .notDirectory
    | none, true => .ok (tree.relocate origin goal, moved)
    | _, false => .ok ((tree.erase origin).set goal entry, moved)

/-- Give a file, link or directory another name. -/
def rename (tree : Tree) (base : Location) (source target : Path) :
    Except Cause (Tree × List Change) :=
  match tree.holder base source, tree.holder base target with
  | .error cause, _ => .error cause
  | _, .error cause => .error cause
  | .ok (_, .name _ sourceSlashed), .ok (directory, .name name targetSlashed) =>
    match tree.resolve base false source with
    | .error cause => .error cause
    | .ok ⟨_, none⟩ => .error .notFound
    | .ok ⟨origin, some entry⟩ =>
      if nameLimit < Name.size name then .error .nameTooLong
      else if !entry.isDirectory && (sourceSlashed || targetSlashed) then .error .notDirectory
      else tree.moveEntry origin entry (directory ++ [name])
  | _, _ => .error .busy

/-- Remove a file or link. -/
def removeFile (tree : Tree) (base : Location) (path : Path) :
    Except Cause (Tree × List Change) :=
  match tree.resolve base false path with
  | .error cause => .error cause
  | .ok ⟨_, none⟩ => .error .notFound
  | .ok ⟨_, some .directory⟩ => .error .isDirectory
  | .ok ⟨location, some _⟩ => .ok (tree.erase location, [.removed location false])

/-- Remove an empty directory. -/
def removeDirectory (tree : Tree) (base : Location) (path : Path) :
    Except Cause (Tree × List Change) :=
  match tree.holder base path with
  | .error cause => .error cause
  | .ok (_, .root) => .error .busy
  | .ok (_, .stay) => .error .invalidArgument
  | .ok (_, .up) => .error .notEmpty
  | .ok (directory, .name name _) =>
    let location := directory ++ [name]
    match tree.lookup location with
    | none => .error .notFound
    | some .directory =>
      if tree.isEmptyBelow location then .ok (tree.erase location, [.removed location true])
      else .error .notEmpty
    | some _ => .error .notDirectory

/-- What is removed when all that lies below a location goes, the deepest first. -/
def removalsBelow (tree : Tree) (base : Location) : List Change :=
  let below := tree.entries.filter fun (known, _) => isBelow base known
  (below.mergeSort fun first second => second.1.length ≤ first.1.length).map
    fun (known, entry) => .removed known entry.isDirectory

/-- Remove a directory with all that lies below it, or a link. What lies below goes first, and
stays gone if the directory itself cannot be removed. That it is gone already is no failure. -/
def removeAll (tree : Tree) (base : Location) (path : Path) :
    Except Cause Unit × Tree × List Change :=
  match tree.resolve base false path with
  | .error cause => (.error cause, tree, [])
  | .ok ⟨_, none⟩ => (.error .notFound, tree, [])
  | .ok ⟨location, some (.link _)⟩ => (.ok (), tree.erase location, [.removed location false])
  | .ok ⟨_, some (.file _ _)⟩ => (.error .notDirectory, tree, [])
  | .ok ⟨location, some .directory⟩ =>
    let emptied := tree.eraseBelow location
    let gone := tree.removalsBelow location
    match emptied.removeDirectory base path with
    | .ok (removed, more) => (.ok (), removed, gone ++ more)
    | .error .notFound => (.ok (), emptied, gone)
    | .error cause => (.error cause, emptied, gone)

/-- Make a directory. -/
def makeDirectory (tree : Tree) (base : Location) (path : Path) :
    Except Cause (Tree × List Change) :=
  match tree.resolve base false path with
  | .error cause => .error cause
  | .ok ⟨location, none⟩ =>
    if tree.lookup location.dropLast = some .directory then
      .ok (tree.set location .directory, [.created location true])
    else .error .notFound
  | .ok _ => .error .alreadyExists

/-- Make a directory and those above it that are missing. -/
def makeDirectories (tree : Tree) (base : Location) (path : Path) :
    Except Cause (Tree × List Change) :=
  path.ancestors.reverse.foldlM (fun (current, changes) ancestor =>
    if ancestor.text.isEmpty || current.isDirectory base ancestor then .ok (current, changes)
    else
      match current.makeDirectory base ancestor with
      | .ok (made, more) => .ok (made, changes ++ more)
      | .error cause => .error cause) (tree, [])

/-- Make a symbolic link. -/
def makeLink (tree : Tree) (base : Location) (path target : Path) :
    Except Cause (Tree × List Change) :=
  match tree.resolve base false path with
  | .error cause => .error cause
  | .ok ⟨location, none⟩ =>
    if tree.lookup location.dropLast = some .directory then
      .ok (tree.set location (.link target), [.created location false])
    else .error .notFound
  | .ok _ => .error .alreadyExists

/-- Let a file be run. -/
def makeExecutable (tree : Tree) (base : Location) (path : Path) : Except Cause Tree :=
  match tree.status base path with
  | .error cause => .error cause
  | .ok (location, .file content _) => .ok (tree.set location (.file content true))
  | .ok _ => .ok tree

end Tree
end Relink
