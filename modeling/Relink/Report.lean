import Relink.Host.Write
import Relink.Outcome

/-!
# Reports

What a pass over a package's output comes to: every tracked file is relinked, and those that
changed are written. A file that cannot be written does not keep the others from it.
-/

namespace Relink

/-- What became of one file. -/
structure FileResult where
  path : Path
  role : FileRole
  replacements : Nat
  written : Bool
  warnings : List Warning
deriving DecidableEq, Repr

/-- A file that could not be written. -/
structure FailedWrite where
  path : Path
  reason : String
deriving DecidableEq, Repr

/-- A failed write as a problem. -/
def FailedWrite.problem (failure : FailedWrite) : Problem :=
  .writeFailed failure.path failure.reason

/-- What a pass has to tell. -/
structure Report where
  /-- Why the pass did nothing, if it did nothing. -/
  skipped : Option String := none
  filesScanned : Nat := 0
  replacements : Nat := 0
  written : List Path := []
  warnings : List Warning := []
  failures : List FailedWrite := []
deriving DecidableEq, Repr, Inhabited

namespace Report

/-- The report of a pass that had nothing to do. -/
def ofSkipped (reason : String) : Report :=
  { skipped := some reason }

/-- Whether a pass did nothing. -/
def isSkipped (report : Report) : Bool :=
  report.skipped.isSome

/-- Whether every file that changed was written. -/
def isOk (report : Report) : Bool :=
  report.failures.isEmpty

/-- A report with one more file. What was found in a file that could not be written is not
told. -/
def record (report : Report) : Except FailedWrite FileResult -> Report
  | .ok outcome =>
    { report with
      filesScanned := report.filesScanned + 1
      replacements := report.replacements + outcome.replacements
      written := report.written ++ if outcome.written then [outcome.path] else []
      warnings := report.warnings ++ outcome.warnings }
  | .error failure =>
    { report with
      filesScanned := report.filesScanned + 1
      failures := report.failures ++ [failure] }

end Report

namespace Snapshot

/-- Relink one file, and write it if its text changed. `text` is what the snapshot knows of the
file, which nobody reads again. -/
def relinkFile (snapshot : Snapshot) (host : Host) (role : FileRole) (file : Path)
    (text : String) : Except FailedWrite FileResult × Host :=
  let result := snapshot.relinkText role file text
  let outcome : FileResult :=
    { path := file, role, replacements := result.replacements, written := result.text != text
      warnings := result.warnings }
  if outcome.written then
    match host.writeWhole file result.text.toByteArray with
    | (.ok (), after) => (.ok outcome, after)
    | (.error cause, after) => (.error ⟨file, cause.message⟩, after)
  else (.ok outcome, host)

/-- Relink files one after the other. -/
def relinkFiles (snapshot : Snapshot) (role : FileRole) (host : Host) :
    List (Path × String) -> List (Except FailedWrite FileResult) × Host
  | [] => ([], host)
  | (file, text) :: rest =>
    let (result, next) := snapshot.relinkFile host role file text
    let (results, last) := snapshot.relinkFiles role next rest
    (result :: results, last)

/-- Relink every tracked file, declarations first. -/
def relinkAll (snapshot : Snapshot) (host : Host) : Report × Host :=
  let (declarations, between) :=
    snapshot.relinkFiles .declaration host snapshot.declarations.files
  let (scripts, after) := snapshot.relinkFiles .script between snapshot.scripts.files
  ((declarations ++ scripts).foldl Report.record {}, after)

end Snapshot

/-- Take stock of a package and relink its output. Where there is no output to read yet, there
is nothing to do. -/
def relinkOutput (host : Host) (config : Config) (layout : Layout) : Except Problem Report × Host :=
  match Snapshot.take host config layout with
  | .ok snapshot =>
    let (report, after) := snapshot.relinkAll host
    (.ok report, after)
  | .error problem =>
    if problem.isSoft then (.ok (Report.ofSkipped problem.message), host)
    else (.error problem, host)

end Relink
