import Relink.Json.Printer
import Relink.Report
import Relink.Version

/-!
# Verdicts

The one object that a command prints when a program is to read its result.
-/

namespace Relink

open Json

/-- A path as a JSON value. -/
def Path.value (path : Path) : Value :=
  .string path.shown

/-- The members that say what a concern is. -/
def Concern.members : Concern -> List (String × Value)
  | unresolved => [("reason", .string "unresolved")]
  | unknownDependency package =>
    [("reason", .string "unknown_dependency"), ("package", .string package)]
  | invalidSpecifier => [("reason", .string "invalid_specifier")]
  | unknownBuiltin => [("reason", .string "unknown_builtin")]
  | bareBuiltin suggested =>
    [("reason", .string "bare_builtin"), ("suggested", .string suggested)]

/-- A warning as a JSON value. -/
def Warning.value (warning : Warning) : Value :=
  .object ([("file", warning.file.value), ("specifier", .string warning.specifier),
    ("line", .ofNat warning.line)] ++ warning.concern.members)

/-- The members that say what a problem is. -/
def Problem.members (problem : Problem) : List (String × Value) :=
  [("code", .string problem.code), ("message", .string problem.message)]

/-- A failed write as a JSON value. -/
def FailedWrite.value (failure : FailedWrite) : Value :=
  .object (("path", failure.path.value) :: failure.problem.members)

/-- The paths that a report tells. -/
def Report.paths (report : Report) : List Path :=
  report.written ++ report.warnings.map Warning.file ++ report.failures.map FailedWrite.path

/-- The members of a report. -/
def Report.members (report : Report) : List (String × Value) :=
  [("schema_version", .ofNat reportVersion)] ++
    (report.skipped.toList.map fun reason => ("skipped", .string reason)) ++
    [("files_scanned", .ofNat report.filesScanned), ("rewrites", .ofNat report.replacements),
      ("written", .array (report.written.map Path.value)),
      ("warnings", .array (report.warnings.map Warning.value)),
      ("failures", .array (report.failures.map FailedWrite.value))]

/-- What a command has to say to another program. -/
inductive Verdict where
  | version
  | passed (report : Report)
  | refused (problem : Problem)
  | cleaned (path : Path) (removed : Bool)
  | declared (path : Path) (succeeded : Bool)
deriving DecidableEq, Repr

namespace Verdict

/-- Whether a verdict is good. One about the version is neither good nor bad. -/
def isOk? : Verdict -> Option Bool
  | version => none
  | passed report => some report.isOk
  | refused _ => some false
  | cleaned _ _ => some true
  | declared _ succeeded => some succeeded

/-- Whether a verdict can be told in JSON. A report cannot if one of its paths is not Unicode. -/
def isTellable : Verdict -> Bool
  | passed report => report.paths.all Path.isUnicode
  | version | refused _ | cleaned _ _ | declared _ _ => true

/-- The members of a verdict, apart from whether it is good. -/
def details : Verdict -> List (String × Value)
  | version =>
    [("name", .string programName), ("version", .string programVersion),
      ("schema_version", .ofNat reportVersion)]
  | passed report => report.members
  | refused problem =>
    [("schema_version", .ofNat reportVersion), ("error", .object problem.members)]
  | cleaned path removed => [("path", .string path.shown), ("removed", .bool removed)]
  | declared path _ => [("path", .string path.shown)]

/-- A verdict as a JSON value. -/
def value (verdict : Verdict) : Value :=
  .object ((verdict.isOk?.toList.map fun good => ("ok", .bool good)) ++ verdict.details)

end Verdict
end Relink
