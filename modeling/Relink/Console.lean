import Relink.Launch
import Relink.Text

/-!
# Consoles

What a run has written so far. Results go to the output, and all that is told about the work goes
to the errors: records of its own, and the text of the programs that it runs.
-/

namespace Relink

/-- How much a record matters. -/
inductive Severity where
  | error
  | warning
  | info
  | debug
deriving DecidableEq, Repr

namespace Severity

/-- The name of a severity. -/
def label : Severity -> String
  | error => "ERROR"
  | warning => "WARN"
  | info => "INFO"
  | debug => "DEBUG"

/-- Whether records of a severity are told at the given verbosity. -/
def isShown (severity : Severity) (verbosity : Nat) : Bool :=
  severity != debug || 0 < verbosity

end Severity

/-- What a field of a record holds. -/
inductive Detail where
  /-- A text that stands as it is, such as a path or a number. -/
  | plain (text : String)
  /-- A text in quotes. -/
  | quoted (text : String)
deriving DecidableEq, Repr

/-- How a detail is written. -/
def Detail.text : Detail -> String
  | plain text => text
  | quoted text => "\"" ++ text ++ "\""

/-- Something that is told about the work. -/
structure Record where
  severity : Severity
  message : String
  fields : List (String × Detail) := []
deriving DecidableEq, Repr

/-- The line of a record: severity, message and fields. -/
def Record.line (record : Record) : String :=
  Text.intercalate " " (record.severity.label :: record.message ::
    record.fields.map fun (name, detail) => name ++ "=" ++ detail.text)

/-- One thing that was written. -/
inductive Emission where
  | text (stream : Stream) (text : String)
  | record (record : Record)
deriving DecidableEq, Repr

/-- What was written, in order. -/
structure Console where
  emitted : List Emission := []
  /-- How much is told. -/
  verbosity : Nat := 0
deriving DecidableEq, Repr, Inhabited

namespace Emission

/-- What an emission adds to the output. -/
def outputText : Emission -> String
  | text .output written => written
  | _ => ""

/-- The record that an emission is. -/
def record? : Emission -> Option Record
  | record told => some told
  | _ => none

/-- What an emission adds to the errors. -/
def errorText : Emission -> String
  | text .errors written => written
  | text .output _ => ""
  | record told => told.line ++ "\n"

end Emission

namespace Console

/-- The console after one more emission. -/
def emit (console : Console) (emission : Emission) : Console :=
  { console with emitted := console.emitted ++ [emission] }

/-- The console after a record, unless it is too fine to be told. -/
def tell (console : Console) (record : Record) : Console :=
  if record.severity.isShown console.verbosity then console.emit (.record record) else console

/-- The text of the output. -/
def output (console : Console) : String :=
  console.emitted.foldr (fun emission rest => emission.outputText ++ rest) ""

/-- The records, in order. -/
def records (console : Console) : List Record :=
  console.emitted.filterMap Emission.record?

/-- The text of the errors. -/
def errors (console : Console) : String :=
  console.emitted.foldr (fun emission rest => emission.errorText ++ rest) ""

/-- The console after another program has written to it. If `outputApart` holds, nothing of
that reaches the output. -/
def relay (console : Console) (outputApart : Bool) (written : List (Stream × String)) : Console :=
  written.foldl (fun current (stream, text) =>
    current.emit (.text (if outputApart then .errors else stream) text)) console

end Console
end Relink
