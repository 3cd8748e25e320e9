import Relink.Command.Task
import Relink.Verdict

/-!
# Transforming

One pass, and the telling of its report: as one object for programs, or as a line for people with
a record for everything that was noticed.
-/

namespace Relink

/-- A warning as a record. -/
def Warning.record (warning : Warning) : Record :=
  { severity := .warning
    message := "warning[" ++ warning.concern.code ++ "]: " ++ warning.message }

/-- A failed write as a record. -/
def FailedWrite.record (failure : FailedWrite) : Record :=
  { severity := .error
    message := failure.problem.message
    fields := [("path", .plain failure.path.shown), ("code", .quoted failure.problem.code)] }

namespace Report

/-- What is told about a pass. -/
def records (report : Report) : List Record :=
  report.warnings.map Warning.record ++
    (report.written.map fun path =>
      { severity := .debug, message := "Rewrote file", fields := [("path", .plain path.shown)] }) ++
    report.failures.map FailedWrite.record

/-- The line that sums up a pass. -/
def summary (report : Report) : String :=
  "Transformed " ++ Nat.repr report.filesScanned ++ " files: " ++ Nat.repr report.replacements ++
    " specifiers rewritten in " ++ Nat.repr report.written.length ++ " files, " ++
    Nat.repr report.warnings.length ++ " warnings"

end Report

namespace Command

/-- Print a verdict. Nothing is printed of one that cannot be told. -/
def printVerdict (verdict : Verdict) : Task Unit :=
  if verdict.isTellable then Task.print verdict.value.render else Task.fail .pathNotText

/-- Tell the report of a pass to people. -/
def tellReport (report : Report) : Task Unit :=
  match report.skipped with
  | some reason => Task.tell .info ("Nothing to transform: " ++ reason) []
  | none => do
    Task.tellAll report.records
    Task.print report.summary

/-- Tell the report of a pass. Says whether the pass went well. -/
def announce (config : Config) (report : Report) : Task Bool := do
  if config.jsonLogs then printVerdict (.passed report) else tellReport report
  return report.isOk

/-- Make one pass and tell its report. Says whether it went well. -/
def transform (config : Config) : Task Bool := do
  Task.tell .debug "Starting transform pass" [("out_dir", .plain config.outputPath.shown)]
  let (result, after) := relinkOutput (← Task.host) config {}
  Task.setHost after
  match result with
  | .ok report => announce config report
  | .error problem =>
    if config.jsonLogs then do
      printVerdict (.refused problem)
      return false
    else Task.fail (.problem problem)

end Command
end Relink
