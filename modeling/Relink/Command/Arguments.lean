import Relink.Launch

/-!
# Arguments

How the command line is read. Options may stand before and after the name of the command, and
what stands after it counts for more. Arguments are read one by one, so that whoever asks for help
gets it unless something before that is wrong. The value of an option is only looked at when the
next option is read, or at the end.
-/

namespace Relink

/-- What the program can be asked to do. -/
inductive Action where
  | version
  | transform (watching : Bool)
  | compile (watching : Bool)
  | clean
  | declare (watching : Bool)
  | prepare
deriving DecidableEq, Repr

namespace Action

/-- The action of the given name, without watching. -/
def ofName? : String -> Option Action
  | "version" => some version
  | "transform" => some (transform false)
  | "compile" => some (compile false)
  | "clean" => some clean
  | "declare" => some (declare false)
  | "prepare" => some prepare
  | _ => none

/-- Whether an action can be asked to go on whenever something has changed. -/
def canWatch : Action -> Bool
  | transform _ | compile _ | declare _ => true
  | version | clean | prepare => false

/-- Whether an action goes on whenever something has changed. -/
def isWatching : Action -> Bool
  | transform watching | compile watching | declare watching => watching
  | version | clean | prepare => false

/-- An action that can watch, with or without watching. -/
def setWatching (watching : Bool) : Action -> Action
  | transform _ => transform watching
  | compile _ => compile watching
  | declare _ => declare watching
  | other => other

end Action

/-- What the arguments ask for. -/
structure Invocation where
  action : Action := .version
  json : Bool := false
  verbosity : Nat := 0
  directory : Option String := none
  output : Option String := none
deriving DecidableEq, Repr

/-- What is wrong with the arguments. -/
inductive Misuse where
  | unknownArgument (argument : String)
  | unknownCommand (name : String)
  | valueMissing (option : String)
  | valueUnexpected (option : String)
  | repeated (option : String)
deriving DecidableEq, Repr

/-- The wording of a misuse. -/
def Misuse.message : Misuse -> String
  | unknownArgument argument => "unexpected argument '" ++ argument ++ "' found"
  | unknownCommand name => "unrecognized subcommand '" ++ name ++ "'"
  | valueMissing option => "a value is required for '" ++ option ++ "' but none was supplied"
  | valueUnexpected option => "unexpected value for '" ++ option ++ "' found"
  | repeated option => "the argument '" ++ option ++ "' cannot be used multiple times"

/-- Why the arguments do not ask for an action. -/
inductive Interruption where
  | help
  | version
  | misuse (misuse : Misuse)
deriving DecidableEq, Repr

namespace Arguments

/-- The options that take a value. -/
inductive Setting where
  | directory
  | output
deriving DecidableEq, Repr

/-- How a setting is written. -/
def Setting.option : Setting -> String
  | directory => "--cwd"
  | output => "--out-dir"

/-- What the options ask for. -/
inductive Switch where
  | verbose
  | json
  | watch
  | help
  | version
  | setting (setting : Setting)
deriving DecidableEq, Repr

/-- Where an option stands. -/
inductive Place where
  | beforeCommand
  | after (action : Action)
deriving DecidableEq, Repr

/-- The option of the given long name, if it may stand in a place. -/
def longOption? (place : Place) (name : String) : Option Switch :=
  match place, name with
  | _, "verbose" => some .verbose
  | _, "json" => some .json
  | _, "help" => some .help
  | _, "cwd" => some (.setting .directory)
  | _, "out-dir" => some (.setting .output)
  | .beforeCommand, "version" => some .version
  | .after action, "watch" => if action.canWatch then some .watch else none
  | _, _ => none

/-- The option of the given letter, if it may stand in a place. -/
def shortOption? (place : Place) (letter : Char) : Option Switch :=
  match place, letter with
  | _, 'v' => some .verbose
  | _, 'h' => some .help
  | .beforeCommand, 'V' => some .version
  | _, _ => none

/-- What was read of an option that takes a value. -/
inductive Held where
  | nothing
  | awaited (setting : Setting)
  | value (setting : Setting) (text : String)
deriving DecidableEq, Repr

/-- The options that were read in one place. -/
structure Options where
  verbosity : Nat := 0
  json : Bool := false
  watching : Bool := false
  directory : Option String := none
  output : Option String := none
  held : Held := .nothing
deriving DecidableEq, Repr

namespace Options

/-- The value of a setting. -/
def get? (options : Options) : Setting -> Option String
  | .directory => options.directory
  | .output => options.output

/-- Options with the value of a setting. -/
def set (options : Options) (setting : Setting) (text : String) : Options :=
  match setting with
  | .directory => { options with directory := some text }
  | .output => { options with output := some text }

/-- Look at the value of a setting. There may be only one, and it must not be empty. -/
def take (options : Options) (setting : Setting) (text : String) : Except Interruption Options :=
  if (options.get? setting).isSome then .error (.misuse (.repeated setting.option))
  else if text.isEmpty then .error (.misuse (.valueMissing setting.option))
  else .ok (options.set setting text)

/-- Look at the value that is held. -/
def settle (options : Options) : Except Interruption Options :=
  match options.held with
  | .nothing => .ok options
  | .awaited setting => .error (.misuse (.valueMissing setting.option))
  | .value setting text => take { options with held := .nothing } setting text

/-- Read an option that stands without a value. -/
def apply (options : Options) (option : Switch) : Except Interruption Options := do
  let settled ← options.settle
  match option with
  | .verbose => return { settled with verbosity := settled.verbosity + 1 }
  | .json =>
    if settled.json then throw (.misuse (.repeated "--json"))
    else return { settled with json := true }
  | .watch =>
    if settled.watching then throw (.misuse (.repeated "--watch"))
    else return { settled with watching := true }
  | .help => throw .help
  | .version => throw .version
  | .setting setting => return { settled with held := .awaited setting }

/-- Read an option that stands with a value. -/
def applyWith (options : Options) (argument : String) (option : Switch) (text : String) :
    Except Interruption Options := do
  match option with
  | .setting setting => (← options.settle).take setting text
  | _ => throw (.misuse (.valueUnexpected argument))

/-- Read an argument that begins with two dashes. -/
def readLong (options : Options) (place : Place) (argument : String) :
    Except Interruption Options :=
  let (name, value) := (argument.toList.drop 2).span (· != '=')
  match longOption? place (String.ofList name), value with
  | none, _ => .error (.misuse (.unknownArgument argument))
  | some option, [] => options.apply option
  | some option, _ :: text => options.applyWith argument option (String.ofList text)

/-- Read an argument that begins with one dash: every letter is an option. -/
def readShort (options : Options) (place : Place) (argument : String) :
    Except Interruption Options :=
  (argument.toList.drop 1).foldlM (fun current letter =>
    match shortOption? place letter with
    | none => .error (.misuse (.unknownArgument argument))
    | some option => current.apply option) options

end Options

/-- Whether an argument is written as an option. A single dash is not. -/
def isOption (argument : String) : Bool :=
  Text.startsWith argument "-" && argument != "-"

/-- Whether a name may stand where the command is named. -/
def isCommand (name : String) : Bool :=
  name = "help" || (Action.ofName? name).isSome

/-- Read the options of one place. Before the command, its name ends them; the arguments from
there on are left over. -/
def readOptions (place : Place) (options : Options) :
    List String -> Except Interruption (Options × List String)
  | [] => .ok (options, [])
  | argument :: rest =>
    match options.held with
    | .awaited setting =>
      if isOption argument then .error (.misuse (.valueMissing setting.option))
      else readOptions place { options with held := .value setting argument } rest
    | _ =>
      if place = .beforeCommand && isCommand argument then .ok (options, argument :: rest)
      else if argument = "--" then
        match rest with
        | [] => .ok (options, [])
        | extra :: _ => .error (.misuse (.unknownArgument extra))
      else if Text.startsWith argument "--" then do
        readOptions place (← options.readLong place argument) rest
      else if isOption argument then do
        readOptions place (← options.readShort place argument) rest
      else if place = .beforeCommand then .error (.misuse (.unknownCommand argument))
      else .error (.misuse (.unknownArgument argument))

/-- Answer a request for help. `topics` are the commands that it is about, each one of the one
before it; no command has commands of its own. -/
def answerHelp : List String -> Interruption
  | [] => .help
  | topic :: [] => if isCommand topic then .help else .misuse (.unknownCommand topic)
  | topic :: next :: _ => .misuse (.unknownCommand (if isCommand topic then next else topic))

/-- A value that comes from a variable, for those who did not give one. -/
def Options.withDefault (options : Options) (fallback : Option String) :
    Except Interruption Options :=
  match options.output, fallback with
  | none, some text => options.take .output text
  | _, _ => .ok options

/-- What is asked for by an action, the options before its name and those after it. -/
def combine (action : Action) (before after : Options) (fallback : Option String) :
    Except Interruption Invocation := do
  let _ ← after.withDefault fallback
  let _ ← before.withDefault fallback
  return {
    action := action.setWatching after.watching
    json := before.json || after.json
    verbosity := if after.verbosity = 0 then before.verbosity else after.verbosity
    directory := after.directory <|> before.directory
    output := after.output <|> before.output <|> fallback
  }

/-- Read the arguments. `fallback` is the output directory for those who do not name one. -/
def read (arguments : List String) (fallback : Option String) :
    Except Interruption Invocation := do
  let (before, rest) ← readOptions .beforeCommand {} arguments
  match rest with
  | [] => do
    let settled ← before.settle
    combine .version settled settled fallback
  | name :: own =>
    match Action.ofName? name with
    | none => throw (answerHelp own)
    | some action => do
      let (after, _) ← readOptions (.after action) {} own
      let after ← after.settle
      let _ ← after.withDefault fallback
      combine action (← before.settle) after fallback

end Arguments

/-- Whether an invocation asks for one object and for many results at once. -/
def Invocation.isContradictory (invocation : Invocation) : Bool :=
  invocation.json && invocation.action.isWatching

end Relink
