import Relink.Shell.Process
import Relink.Shell.Text

/-!
# Running shell scripts

A machine that runs shell scripts of simple commands: those that a shell has itself, and the
plain ones that work on files. The latter are found only if the search path names a directory
where they usually lie.
-/

namespace Relink.Shell

namespace Process

/-- Do one call on the tree. A call that fails is told, and counts as a failure. -/
def attempt (process : Process) (sinks : Sinks) (command subject : String)
    (call : Tree -> Location -> Except Cause (Tree × List Change)) : Process × Bool :=
  match process.host.perform call with
  | .ok host => ({ process with host }, true)
  | .error cause =>
    (process.writeTo sinks.errors
      (command ++ ": cannot work on '" ++ subject ++ "': " ++ cause.description ++ "\n"), false)

/-- Do something for every operand. The command fails if it fails for any of them. -/
def forEach (process : Process) (operands : List String)
    (act : Process -> String -> Process × Bool) : Process :=
  let (last, good) := operands.foldl (fun (current, good) operand =>
    let (next, fine) := act current operand
    (next, good && fine)) (process, true)
  last.endCommand (if good then 0 else 1)

/-- The letters of the options among arguments, and the operands. -/
def splitOptions (arguments : List String) : List Char × List String :=
  let (options, operands) := arguments.partition fun argument =>
    Text.startsWith argument "-" && argument != "-"
  (options.flatMap fun option => option.toList.drop 1, operands)

/-- Make directories. -/
def makeDirectories (process : Process) (sinks : Sinks) (arguments : List String) : Process :=
  let (options, operands) := splitOptions arguments
  process.forEach operands fun current operand =>
    current.attempt sinks "mkdir" operand fun tree base =>
      if options.contains 'p' then tree.makeDirectories base ⟨operand⟩
      else tree.makeDirectory base ⟨operand⟩

/-- Remove files, and directories if that is asked for. -/
def remove (process : Process) (sinks : Sinks) (arguments : List String) : Process :=
  let (options, operands) := splitOptions arguments
  let deep := options.contains 'r' || options.contains 'R'
  process.forEach operands fun current operand =>
    match current.host.tree.resolve current.host.directory false ⟨operand⟩ with
    | .ok ⟨_, some .directory⟩ =>
      if deep then
        match current.host.tree.removeAll current.host.directory ⟨operand⟩ with
        | (.ok (), tree, changes) =>
          ({ current with host := current.host.changed tree changes }, true)
        | (.error cause, tree, changes) =>
          (({ current with host := current.host.changed tree changes }).writeTo sinks.errors
            ("rm: cannot remove '" ++ operand ++ "': " ++ cause.description ++ "\n"), false)
      else current.attempt sinks "rm" operand fun tree base => tree.removeFile base ⟨operand⟩
    | .ok ⟨_, some _⟩ =>
      current.attempt sinks "rm" operand fun tree base => tree.removeFile base ⟨operand⟩
    | _ =>
      if options.contains 'f' then (current, true)
      else current.attempt sinks "rm" operand fun tree base => tree.removeFile base ⟨operand⟩

/-- Make empty files where there are none. -/
def touch (process : Process) (sinks : Sinks) (arguments : List String) : Process :=
  process.forEach (splitOptions arguments).2 fun current operand =>
    if current.host.isPresent ⟨operand⟩ then (current, true)
    else
      current.attempt sinks "touch" operand fun tree base =>
        match tree.createFile base ⟨operand⟩ with
        | .ok (made, _, changes) => .ok (made, changes)
        | .error cause => .error cause

/-- Write out files. -/
def concatenate (process : Process) (sinks : Sinks) (arguments : List String) : Process :=
  process.forEach (splitOptions arguments).2 fun current operand =>
    match current.host.readText ⟨operand⟩ with
    | .ok text => (current.writeTo sinks.output text, true)
    | .error fault =>
      (current.writeTo sinks.errors ("cat: " ++ operand ++ ": " ++ fault.message ++ "\n"), false)

/-- Where something goes that is moved or copied to a path: into a directory that is there, or to
the path itself. -/
def destination (process : Process) (source target : String) : Path :=
  if process.host.isDirectory ⟨target⟩ then
    (Path.mk target).join ⟨((Path.mk source).fileName?).getD source⟩
  else ⟨target⟩

/-- Move files or directories. -/
def move (process : Process) (sinks : Sinks) (arguments : List String) : Process :=
  let operands := (splitOptions arguments).2
  let target := operands.getLast?.getD ""
  process.forEach operands.dropLast fun current operand =>
    current.attempt sinks "mv" operand fun tree base =>
      tree.rename base ⟨operand⟩ (current.destination operand target)

/-- Copy files. -/
def copy (process : Process) (sinks : Sinks) (arguments : List String) : Process :=
  let operands := (splitOptions arguments).2
  let target := operands.getLast?.getD ""
  process.forEach operands.dropLast fun current operand =>
    match current.host.readBytes ⟨operand⟩ with
    | .error cause =>
      (current.writeTo sinks.errors
        ("cp: cannot stat '" ++ operand ++ "': " ++ cause.description ++ "\n"), false)
    | .ok bytes =>
      match current.host.overwrite (current.destination operand target) bytes with
      | .ok host => ({ current with host }, true)
      | .error cause =>
        (current.writeTo sinks.errors
          ("cp: cannot create '" ++ target ++ "': " ++ cause.description ++ "\n"), false)

/-- Make a symbolic link to the first operand: at the second one, or in that directory. -/
def linkTo (process : Process) (sinks : Sinks) (arguments : List String) : Process :=
  let operands := (splitOptions arguments).2
  let target := operands.getLast?.getD ""
  process.forEach operands.dropLast fun current operand =>
    current.attempt sinks "ln" operand fun tree base =>
      tree.makeLink base (current.destination operand target) ⟨operand⟩

/-- Work in another directory. -/
def changeDirectory (process : Process) (sinks : Sinks) (target : String) : Process :=
  match process.host.tree.status process.host.directory ⟨target⟩ with
  | .ok (directory, .directory) =>
    { process with host := { process.host with directory }, status := 0 }
  | _ => process.complain sinks ("cd: can't cd to " ++ target) 2

/-- Whether a condition holds. -/
def test (process : Process) : List String -> Bool
  | "!" :: rest => !process.test rest
  | ["-f", path] => process.host.isFile ⟨path⟩
  | ["-d", path] => process.host.isDirectory ⟨path⟩
  | ["-e", path] => process.host.isPresent ⟨path⟩
  | ["-x", path] => process.host.isProgram ⟨path⟩
  | ["-n", text] => !text.isEmpty
  | ["-z", text] => text.isEmpty
  | [first, "=", second] => first = second
  | [first, "!=", second] => first != second
  | [text] => !text.isEmpty
  | _ => false

/-- The status of a truth value. -/
def statusOf (truth : Bool) : Nat :=
  if truth then 0 else 1

/-- The end of the shell with a status. -/
def leave (process : Process) (arguments : List String) : Process :=
  let status := (arguments.head?.bind String.toNat?).getD process.status
  { process with status, exit := some (.status (status % 256)) }

/-- Whether the commands that work on files can be found. -/
def hasFileCommands (process : Process) : Bool :=
  process.environment.searchPath.any fun directory =>
    ["/bin", "/usr/bin"].contains directory.text

/-- Run a command that works on files, if it is one. -/
def fileCommand? (process : Process) (sinks : Sinks) (name : String) (arguments : List String) :
    Option Process :=
  match name with
  | "mkdir" => some (process.makeDirectories sinks arguments)
  | "rm" => some (process.remove sinks arguments)
  | "touch" => some (process.touch sinks arguments)
  | "cat" => some (process.concatenate sinks arguments)
  | "mv" => some (process.move sinks arguments)
  | "cp" => some (process.copy sinks arguments)
  | "ln" => if (splitOptions arguments).1.contains 's' then
      some (process.linkTo sinks arguments) else none
  | "sleep" => some (process.endCommand 0)
  | _ => none

/-- Run a command that the shell has itself, if it is one. -/
def ownCommand? (process : Process) (sinks : Sinks) (name : String) (arguments : List String) :
    Option Process :=
  match name with
  | ":" | "true" => some (process.endCommand 0)
  | "false" => some (process.endCommand 1)
  | "echo" => some ((process.writeTo sinks.output (echoed arguments)).endCommand 0)
  | "printf" => some ((process.writeTo sinks.output (printed arguments)).endCommand 0)
  | "pwd" =>
    some ((process.writeTo sinks.output (process.host.workingPath.text ++ "\n")).endCommand 0)
  | "cd" => some (process.changeDirectory sinks (arguments.head?.getD ""))
  | "exit" => some (process.leave arguments)
  | "set" => some { process with strict := arguments.contains "-e", status := 0 }
  | "test" => some (process.endCommand (statusOf (process.test arguments)))
  | "[" => some (process.endCommand (statusOf (process.test arguments.dropLast)))
  | "kill" =>
    if arguments.getLast? = some (Nat.repr process.number) then
      some { process with exit := some .killed }
    else some (process.complain sinks "kill: No such process" 1)
  | _ => none

/-- Run a command of the given words. -/
def runWords (process : Process) (sinks : Sinks) : List String -> Process
  | [] => process.endCommand 0
  | name :: arguments =>
    match process.ownCommand? sinks name arguments with
    | some ended => ended
    | none =>
      let found :=
        if process.hasFileCommands then process.fileCommand? sinks name arguments else none
      found.getD (process.complain sinks (process.name ++ ": " ++ name ++ ": not found") 127)

/-- Whether a command runs after those before it. -/
def allows (process : Process) : Condition -> Bool
  | .always => true
  | .afterSuccess => process.status = 0
  | .afterFailure => process.status != 0

/-- Run a command. -/
def runStep (process : Process) (step : Step) : Process :=
  if process.exit.isSome || !process.allows step.condition then process
  else
    let words := process.expandAll step.words
    match process.redirect {} step.redirections with
    | .error (stopped, sinks, target, _) =>
      stopped.complain sinks (process.name ++ ": cannot create " ++ target) 2
    | .ok (opened, sinks) => opened.runWords sinks words

/-- The steps of a script one after the other. With `strict` a failing command ends the script,
unless what follows depends on it. -/
def runSteps (process : Process) : List Step -> Process
  | [] => process
  | step :: rest =>
    let next := process.runStep step
    let tested := (rest.head?.map fun following => following.condition != .always).getD false
    if next.strict && next.status != 0 && !tested && next.exit.isNone then
      { next with exit := some (.status next.status) }
    else next.runSteps rest

end Process

/-- What a script is run by: the words of its first line, if that names a program. -/
def interpreter? (script : String) : Option (List String) :=
  (Text.after? script "#!").map fun rest =>
    let line := rest.toList.takeWhile (· != '\n')
    ((Text.splitAt ' ' line).map String.ofList).filter fun word => !word.isEmpty

/-- The options that a script gives to the shell that runs it. A script that is run by anything
else than a shell has none. -/
def shellOptions? : List String -> Option (List String)
  | [] => none
  | "/usr/bin/env" :: name :: options =>
    if ["sh", "bash", "dash"].contains name then some options else none
  | program :: options =>
    if ["/bin/sh", "/bin/bash", "/bin/dash", "/usr/bin/sh", "/usr/bin/bash", "/usr/bin/dash"].contains
        program then
      some options
    else none

/-- Run the script in a file. -/
def runScript (host : Host) (launch : Launch) (directory : Location) (script : String)
    (options : List String) : Execution :=
  let process : Process :=
    { host := { host with directory }
      environment := launch.environment
      name := launch.program.text
      arguments := launch.arguments
      strict := options.contains "-e" }
  let ended := process.runSteps (Step.ofScript script)
  { host := { ended.host with directory := host.directory }
    status := (ended.exit.getD (.status ended.status)).status?
    emitted := ended.emitted }

/-- The machine that runs shell scripts, and nothing else. -/
def machine : Machine := fun host launch =>
  match host.tree.status host.directory launch.directory with
  | .error cause => .error cause
  | .ok (directory, _) =>
    match host.tree.status directory launch.program with
    | .error cause => .error cause
    | .ok (_, .file content _) =>
      let script := Name.ofBytes content.toList
      match interpreter? script with
      | none => .error .notExecutable
      | some words =>
        match shellOptions? words with
        | none => .error .notFound
        | some options => .ok (runScript host launch directory script options)
    | .ok _ => .error .isDirectory

end Relink.Shell
