import Relink.Host

/-!
# Writing and removing

A file is replaced as a whole: its new content is written to a temporary file beside it, which
then takes its name. Whoever reads the file finds the old content or the new one.
-/

namespace Relink.Host

/-- What the name of the temporary file for `name` is made from: the name itself, if it is
Unicode. -/
def temporaryStem (name : String) : String :=
  if Name.isUnicode name then name else "file"

/-- The name of the temporary file for `name`. No two tickets of one process give the same
name, and every such name is hidden. -/
def temporaryName (name : String) (processId ticket : Nat) : String :=
  "." ++ temporaryStem name ++ ".tmp." ++ Nat.repr processId ++ "." ++ Nat.repr ticket

/-- The temporary file for the file that `target` names, in the same directory. -/
def temporaryPath (target : Path) (processId ticket : Nat) : Path :=
  (target.parent?.getD ⟨"."⟩).join
    ⟨temporaryName (target.fileName?.getD "file") processId ticket⟩

/-- How writing to an open file fails: how many bytes the file took, and what the call is told.
When the file took all of them, they could not be brought to the disk. -/
structure WriteFault where
  taken : Nat
  cause : Cause
deriving DecidableEq, Repr

/-- Replace the content of a file. It can fail to make the temporary file, to write to it, as
`fault?` says, and to move it to `target`. The temporary file is removed where it cannot be moved,
and only there. -/
def writeThrough (host : Host) (fault? : Option WriteFault) (target : Path)
    (content : ByteArray) : Except Cause Unit × Host :=
  let temporary := temporaryPath target host.processId host.ticket
  let ticketed := { host with ticket := host.ticket + 1 }
  match host.tree.createFile host.directory temporary with
  | .error cause => (.error cause, ticketed)
  | .ok (created, location, creation) =>
    match fault? with
    | some fault =>
      let (partly, filling) := created.append location (content.extract 0 fault.taken)
      (.error fault.cause, ticketed.changed partly (creation ++ filling))
    | none =>
      let (filled, filling) := created.append location content
      match filled.rename host.directory temporary target with
      | .ok (renamed, move) => (.ok (), ticketed.changed renamed (creation ++ filling ++ move))
      | .error cause =>
        match filled.removeFile host.directory temporary with
        | .ok (cleaned, removal) =>
          (.error cause, ticketed.changed cleaned (creation ++ filling ++ removal))
        | .error _ => (.error cause, ticketed.changed filled (creation ++ filling))

/-- Replace the content of a file on a disk that takes all that is written to it. -/
def writeWhole (host : Host) (target : Path) (content : ByteArray) : Except Cause Unit × Host :=
  host.writeThrough none target content

/-- Remove a directory with all that lies below it. Says whether there was one. -/
def removeDirectoryTree (host : Host) (path : Path) : Except Cause Bool × Host :=
  match host.tree.removeAll host.directory path with
  | (.ok (), tree, changes) => (.ok true, host.changed tree changes)
  | (.error .notFound, tree, changes) => (.ok false, host.changed tree changes)
  | (.error cause, tree, changes) => (.error cause, host.changed tree changes)

/-- Do one call on the tree of a host. When the call fails, nothing changes. -/
def perform (host : Host)
    (call : Tree -> Location -> Except Cause (Tree × List Change)) : Except Cause Host :=
  match call host.tree host.directory with
  | .error cause => .error cause
  | .ok (tree, changes) => .ok (host.changed tree changes)

/-- Write a file in place. -/
def overwrite (host : Host) (path : Path) (content : ByteArray) : Except Cause Host :=
  host.perform fun tree base =>
    match tree.createFile base path with
    | .error cause => .error cause
    | .ok (created, location, creation) =>
      let (filled, filling) := created.append location content
      .ok (filled, creation ++ filling)

end Relink.Host
