import Relink.Console
import Relink.Fatal

/-!
# Tasks

The steps of a command. A task changes the host, writes to the console, and either has a result
or ends the command. What it did before it ended the command stays done.
-/

namespace Relink

/-- What a command works on: its host, and its console. -/
structure Scene where
  host : Host
  console : Console := {}

/-- A step of a command. -/
abbrev Task (α : Type) := Scene -> Except Fatal α × Scene

namespace Task

/-- The task that does nothing and has the given result. -/
def done {α : Type} (result : α) : Task α :=
  fun scene => (.ok result, scene)

/-- The task that ends the command. -/
def fail {α : Type} (fatal : Fatal) : Task α :=
  fun scene => (.error fatal, scene)

/-- One task after another. The second is not begun if the first ends the command. -/
def andThen {α β : Type} (first : Task α) (second : α -> Task β) : Task β :=
  fun scene =>
    match first scene with
    | (.ok result, next) => second result next
    | (.error fatal, next) => (.error fatal, next)

instance : Monad Task where
  pure := done
  bind := andThen

/-- Have a result that may be a fatal error. -/
def ofExcept {α : Type} : Except Fatal α -> Task α
  | .ok result => done result
  | .error fatal => fail fatal

/-- The host as it is. -/
def host : Task Host :=
  fun scene => (.ok scene.host, scene)

/-- Replace the host. -/
def setHost (host : Host) : Task Unit :=
  fun scene => (.ok (), { scene with host })

/-- Print a line of the output. -/
def print (line : String) : Task Unit :=
  fun scene => (.ok (), { scene with console := scene.console.emit (.text .output (line ++ "\n")) })

/-- Tell a record. -/
def tellRecord (record : Record) : Task Unit :=
  fun scene => (.ok (), { scene with console := scene.console.tell record })

/-- Tell something about the work. -/
def tell (severity : Severity) (message : String) (fields : List (String × Detail)) : Task Unit :=
  tellRecord { severity, message, fields }

/-- Tell one thing after another. -/
def tellAll : List Record -> Task Unit
  | [] => done ()
  | record :: rest => andThen (tellRecord record) fun () => tellAll rest

/-- Pass on what another program wrote. -/
def relay (outputApart : Bool) (written : List (Stream × String)) : Task Unit :=
  fun scene => (.ok (), { scene with console := scene.console.relay outputApart written })

end Task
end Relink
