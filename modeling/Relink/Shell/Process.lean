import Relink.Host.Write
import Relink.Shell.Step

/-!
# Shell processes

The state of a running shell: its host, its parameters, what it wrote, and where the streams of
its commands lead to.
-/

namespace Relink.Shell

/-- Where a stream of a command leads to. -/
inductive Sink where
  | stream (stream : Stream)
  | file (location : Location)
  | nowhere
deriving DecidableEq, Repr

/-- Where the two streams of a command lead to. -/
structure Sinks where
  output : Sink := .stream .output
  errors : Sink := .stream .errors
deriving DecidableEq, Repr

namespace Sinks

/-- Lead a stream elsewhere. -/
def set (sinks : Sinks) (sink : Sink) : Stream -> Sinks
  | .output => { sinks with output := sink }
  | .errors => { sinks with errors := sink }

end Sinks

/-- How a shell ended. -/
inductive Exit where
  | status (status : Nat)
  | killed
deriving DecidableEq, Repr

/-- The status of an end. -/
def Exit.status? : Exit -> Option Nat
  | status value => some value
  | killed => none

/-- A running shell. -/
structure Process where
  host : Host
  environment : Environment
  /-- The name of the script. -/
  name : String
  arguments : List String
  /-- The status of the last command. -/
  status : Nat := 0
  /-- Whether a failing command ends the shell. -/
  strict : Bool := false
  emitted : List (Stream × String) := []
  exit : Option Exit := none

namespace Process

/-- Write to where a sink leads. -/
def writeTo (process : Process) (sink : Sink) (text : String) : Process :=
  match sink with
  | .nowhere => process
  | .stream stream => { process with emitted := process.emitted ++ [(stream, text)] }
  | .file location =>
    let (tree, changes) := process.host.tree.append location ⟨(Name.bytes text).toArray⟩
    { process with host := process.host.changed tree changes }

/-- The number of a shell. The program that started it has the number before. -/
def number (process : Process) : Nat :=
  process.host.processId + 1

/-- The value of a parameter that is one text. -/
def parameter (process : Process) (name : String) : String :=
  match name with
  | "#" => Nat.repr process.arguments.length
  | "?" => Nat.repr process.status
  | "$" => Nat.repr process.number
  | "PPID" => Nat.repr process.host.processId
  | "*" | "@" => Text.intercalate " " process.arguments
  | "0" => process.name
  | "PWD" => process.host.workingPath.text
  | _ =>
    match name.toNat? with
    | some position => (process.arguments[position - 1]?).getD ""
    | none => (process.environment.get? name).getD ""

/-- Whether a character separates words. -/
def isBlank (character : Char) : Bool :=
  character == ' ' || character == '\t' || character == '\n'

/-- Words that grow. `current` is the last one, if it is open. -/
structure Fields where
  closed : List String := []
  current : Option String := none

namespace Fields

/-- More text for the last word. -/
def extend (fields : Fields) (text : String) : Fields :=
  { fields with current := some (fields.current.getD "" ++ text) }

/-- The end of the last word. -/
def close (fields : Fields) : Fields :=
  ⟨fields.closed ++ fields.current.toList, none⟩

/-- Several words, of which the first goes on with the last one so far. -/
def extendAll (fields : Fields) : List String -> Fields
  | [] => fields
  | [text] => fields.extend text
  | text :: rest => (fields.extend text).close.extendAll rest

/-- A text that falls into words at its blanks. -/
def extendSplit (fields : Fields) (text : String) : Fields :=
  text.toList.foldl (fun known character =>
    if isBlank character then known.close else known.extend (String.ofList [character])) fields

end Fields

/-- One part of a word with the values of parameters put in. -/
def expandPart (process : Process) (fields : Fields) : Part -> Fields
  | .literal text => fields.extend text
  | .parameter "@" true => fields.extendAll process.arguments
  | .parameter name true => fields.extend (process.parameter name)
  | .parameter name false => fields.extendSplit (process.parameter name)

/-- The words that a word stands for. A word of quotes alone is an empty word. -/
def expand (process : Process) (word : Word) : List String :=
  if word.isEmpty then [""] else (word.foldl process.expandPart {}).close.closed

/-- The words that several words stand for. -/
def expandAll (process : Process) (words : List Word) : List String :=
  words.flatMap process.expand

/-- The text that a word stands for where only one is allowed. -/
def expandOne (process : Process) (word : Word) : String :=
  Text.intercalate " " (process.expand word)

/-- Lead the streams of a command to where its redirections say. -/
def redirect (process : Process) (sinks : Sinks) :
    List Redirection -> Except (Process × Sinks × String × Cause) (Process × Sinks)
  | [] => .ok (process, sinks)
  | redirection :: rest =>
    let target := process.expandOne redirection.target
    match redirection.redirect with
    | .duplicate =>
      let source := if target = "2" then sinks.errors else sinks.output
      redirect process (sinks.set source redirection.stream) rest
    | mode =>
      if target = "/dev/null" then redirect process (sinks.set .nowhere redirection.stream) rest
      else
        let opened :=
          if mode = .extend && process.host.isFile ⟨target⟩ then
            match process.host.tree.status process.host.directory ⟨target⟩ with
            | .ok (location, _) => .ok (process.host.tree, location, [])
            | .error cause => .error cause
          else process.host.tree.createFile process.host.directory ⟨target⟩
        match opened with
        | .error cause => .error (process, sinks, target, cause)
        | .ok (tree, location, changes) =>
          redirect { process with host := process.host.changed tree changes }
            (sinks.set (.file location) redirection.stream) rest

/-- End a command with a status. -/
def endCommand (process : Process) (status : Nat) : Process :=
  { process with status }

/-- Tell why a command failed, and end it. -/
def complain (process : Process) (sinks : Sinks) (message : String) (status : Nat) : Process :=
  (process.writeTo sinks.errors (message ++ "\n")).endCommand status

end Process
end Relink.Shell
