import Relink.Tree
import Relink.Tree.Cause

/-!
# Following paths

How the operating system finds what a path names: name by name from a directory, through the
symbolic links on the way. Here `..` leads to the directory above the one that was reached, which
is not always the one that was written.
-/

namespace Relink

/-- One step on the way that a path describes. -/
inductive Leg where
  | stay
  | up
  | down (name : String)
deriving DecidableEq, Repr

/-- The step that a segment of a path asks for. An empty segment asks that what came before is a
directory, as `.` does. -/
def Leg.ofSegment : List Char -> Leg
  | [] => .stay
  | ['.'] => .stay
  | ['.', '.'] => .up
  | segment => .down (String.ofList segment)

/-- The steps of a path. -/
def Path.legs (path : Path) : List Leg :=
  path.segments.map Leg.ofSegment

/-- The most bytes that a name may take. -/
def nameLimit : Nat := 255

/-- The bytes that a path takes at least when it is too long. -/
def pathLimit : Nat := 4096

/-- The most links that are followed on the way of one path. -/
def linkLimit : Nat := 40

/-- A location, and what lies there. Where nothing lies, the directory above it was reached. -/
structure Place where
  location : Location
  entry : Option Entry
deriving DecidableEq

/-- How far a way leads before a link changes it. -/
inductive Descent where
  | arrived (place : Place)
  | blocked (cause : Cause)
  | linked (directory : Location) (target : Path) (rest : List Leg)

namespace Tree

/-- Follow a way from a directory up to the first link. A link at its very end is followed only
if `followLast` says so. -/
def descend (tree : Tree) (followLast : Bool) (directory : Location) : List Leg -> Descent
  | [] => .arrived ⟨directory, some .directory⟩
  | .stay :: rest => tree.descend followLast directory rest
  | .up :: rest => tree.descend followLast directory.dropLast rest
  | .down name :: rest =>
    if nameLimit < Name.size name then .blocked .nameTooLong
    else
      let location := directory ++ [name]
      match tree.lookup location with
      | none => if rest.isEmpty then .arrived ⟨location, none⟩ else .blocked .notFound
      | some .directory => tree.descend followLast location rest
      | some (.file content executable) =>
        if rest.isEmpty then .arrived ⟨location, some (.file content executable)⟩
        else .blocked .notDirectory
      | some (.link target) =>
        if rest.isEmpty && !followLast then .arrived ⟨location, some (.link target)⟩
        else .linked directory target rest

/-- Follow a way from a directory, through at most `links` links. -/
def walk (tree : Tree) (followLast : Bool) (links : Nat) (directory : Location)
    (legs : List Leg) : Except Cause Place :=
  match tree.descend followLast directory legs with
  | .arrived place => .ok place
  | .blocked cause => .error cause
  | .linked reached target rest =>
    match links with
    | 0 => .error .tooManyLinks
    | fewer + 1 =>
      tree.walk followLast fewer (if target.isAbsolute then [] else reached) (target.legs ++ rest)

/-- Find what a path names when it is read from the directory `base`. -/
def resolve (tree : Tree) (base : Location) (followLast : Bool) (path : Path) :
    Except Cause Place :=
  if path.text.isEmpty then .error .notFound
  else if pathLimit ≤ Name.size path.text then .error .nameTooLong
  else tree.walk followLast linkLimit (if path.isAbsolute then [] else base) path.legs

/-- What a path names, all links followed. -/
def status (tree : Tree) (base : Location) (path : Path) : Except Cause (Location × Entry) :=
  match tree.resolve base true path with
  | .error cause => .error cause
  | .ok ⟨_, none⟩ => .error .notFound
  | .ok ⟨location, some entry⟩ => .ok (location, entry)

/-- Whether a path names a directory. -/
def isDirectory (tree : Tree) (base : Location) (path : Path) : Bool :=
  match tree.status base path with
  | .ok (_, .directory) => true
  | _ => false

/-- Whether a path names a file. -/
def isFile (tree : Tree) (base : Location) (path : Path) : Bool :=
  match tree.status base path with
  | .ok (_, .file _ _) => true
  | _ => false

/-- Whether a path names a file that may be run. -/
def isProgram (tree : Tree) (base : Location) (path : Path) : Bool :=
  match tree.status base path with
  | .ok (_, .file _ executable) => executable
  | _ => false

/-- Whether a path names anything. -/
def isPresent (tree : Tree) (base : Location) (path : Path) : Bool :=
  (tree.status base path).isOk

/-- The bytes of the file that a path names. -/
def read (tree : Tree) (base : Location) (path : Path) : Except Cause ByteArray :=
  match tree.status base path with
  | .error cause => .error cause
  | .ok (_, .file content _) => .ok content
  | .ok _ => .error .isDirectory

/-- The path of a file or directory without links, `.` and `..`. -/
def canonical? (tree : Tree) (base : Location) (path : Path) : Option Path :=
  match tree.status base path with
  | .ok (location, _) => some location.path
  | .error _ => none

end Tree

/-- What the last segment of a path asks for. -/
inductive Tail where
  /-- Nothing: the path is the root. -/
  | root
  | stay
  | up
  /-- A name. `slashed` says whether a slash follows it. -/
  | name (text : String) (slashed : Bool)
deriving DecidableEq, Repr

/-- The way to the directory that holds what a path names, and the last segment of the path. -/
def Path.split (path : Path) : List Leg × Tail :=
  let trimmed := (path.segments.reverse.dropWhile List.isEmpty).reverse
  match trimmed.getLast? with
  | none => ([], .root)
  | some last =>
    (trimmed.dropLast.map Leg.ofSegment,
      match Leg.ofSegment last with
      | .stay => .stay
      | .up => .up
      | .down name => .name name (trimmed.length != path.segments.length))

namespace Tree

/-- The directory that holds what a path names, and the last segment of the path. -/
def holder (tree : Tree) (base : Location) (path : Path) : Except Cause (Location × Tail) :=
  if path.text.isEmpty then .error .notFound
  else if pathLimit ≤ Name.size path.text then .error .nameTooLong
  else
    match tree.walk true linkLimit (if path.isAbsolute then [] else base) path.split.1 with
    | .error cause => .error cause
    | .ok ⟨location, some .directory⟩ => .ok (location, path.split.2)
    | .ok ⟨_, none⟩ => .error .notFound
    | .ok _ => .error .notDirectory

end Tree
end Relink
