import Relink.Path.Normal
import Relink.Tree.Call
import Relink.Utf8

/-!
# Hosts

A host is what a running program sees of its machine: the file tree, the directory that relative
paths are read from, and the numbers that make its temporary names its own.
-/

namespace Relink

/-- Why a file or a directory cannot be read or written. -/
inductive FileFault where
  | system (cause : Cause)
  /-- The bytes from `offset` on are not UTF-8. -/
  | notText (offset : Nat)
  /-- Listing a directory fails at `path`. -/
  | listing (path : Path) (cause : Cause)
  /-- Listing a directory meets a link that leads back to where the listing came from. -/
  | loop (link ancestor : Path)
deriving DecidableEq, Repr

/-- The wording of a fault. -/
def FileFault.message : FileFault -> String
  | system cause => cause.message
  | notText offset => "invalid UTF-8 at byte " ++ Nat.repr offset
  | listing path cause => "IO error for operation on " ++ path.shown ++ ": " ++ cause.message
  | loop link ancestor =>
    "File system loop found: " ++ link.shown ++ " points to an ancestor " ++ ancestor.shown

/-- What a running program sees of its machine. -/
structure Host where
  tree : Tree
  /-- The directory that relative paths are read from. -/
  directory : Location
  processId : Nat := 1
  /-- How many temporary names were taken. -/
  ticket : Nat := 0
  /-- What happened to the tree, the latest first. -/
  journal : List Change := []
deriving Inhabited

namespace Host

/-- The path of the working directory. -/
def workingPath (host : Host) : Path :=
  host.directory.path

/-- A path made absolute and normal. -/
def absolutize (host : Host) (path : Path) : Path :=
  host.workingPath.absolutize path

def isDirectory (host : Host) (path : Path) : Bool :=
  host.tree.isDirectory host.directory path

def isFile (host : Host) (path : Path) : Bool :=
  host.tree.isFile host.directory path

def isProgram (host : Host) (path : Path) : Bool :=
  host.tree.isProgram host.directory path

def isPresent (host : Host) (path : Path) : Bool :=
  host.tree.isPresent host.directory path

/-- The bytes of a file. -/
def readBytes (host : Host) (path : Path) : Except Cause ByteArray :=
  host.tree.read host.directory path

/-- The text of a file. -/
def readText (host : Host) (path : Path) : Except FileFault String :=
  match host.readBytes path with
  | .error cause => .error (.system cause)
  | .ok bytes =>
    match Utf8.text? bytes with
    | some text => .ok text
    | none => .error (.notText (Utf8.validLength bytes))

/-- The host after its tree has changed. -/
def changed (host : Host) (tree : Tree) (changes : List Change) : Host :=
  { host with tree, journal := changes.reverse ++ host.journal }

/-- The nearest directory, from `start` up, that holds a package manifest. -/
def packageRoot? (host : Host) (start : Path) : Option Path :=
  start.ancestors.find? fun directory => host.isFile (directory.join ⟨"package.json"⟩)

end Host
end Relink
