import Relink.Host

/-!
# Launching programs

How another program is started, and what is seen of it. What a program does is not said here: a
`Machine` is any way to run one.
-/

namespace Relink

/-- The variables that a program is started with. -/
structure Environment where
  bindings : List (String × String) := []
deriving DecidableEq, Repr, Inhabited

namespace Environment

/-- The value of a variable. -/
def get? (environment : Environment) (name : String) : Option String :=
  environment.bindings.lookup name

/-- The directories that programs are looked for in, in order. -/
def searchPath (environment : Environment) : List Path :=
  match environment.get? "PATH" with
  | none => []
  | some text => (Text.splitAt ':' text.toList).map fun entry => ⟨String.ofList entry⟩

/-- The first program of the given name on the search path. -/
def program? (environment : Environment) (host : Host) (name : String) : Option Path :=
  (environment.searchPath.map fun directory => directory.join ⟨name⟩).find? host.isProgram

end Environment

/-- A program that is to be run. -/
structure Launch where
  program : Path
  arguments : List String
  /-- The directory that it works in. -/
  directory : Path
  environment : Environment

/-- Where a program writes to. -/
inductive Stream where
  | output
  | errors
deriving DecidableEq, Repr

/-- What a program leaves behind when it has ended. -/
structure Execution where
  host : Host
  /-- The status that it ended with. One that was killed has none. -/
  status : Option Nat
  /-- What it wrote, in order. -/
  emitted : List (Stream × String)

/-- Whether a program ended well. -/
def Execution.succeeded (execution : Execution) : Bool :=
  execution.status = some 0

/-- A way to run programs. -/
abbrev Machine := Host -> Launch -> Except Cause Execution

/-- What a command finds around it: its variables, and a way to run other programs. -/
structure Surroundings where
  environment : Environment
  machine : Machine

end Relink
