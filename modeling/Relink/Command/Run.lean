import Relink.Command.Arguments
import Relink.Command.Publish
import Relink.Command.Usage
import Relink.Watch

/-!
# Running a command

From the arguments to the end of the program. A command that watches has no end: it only gets to
the point where it waits for changes.
-/

namespace Relink

/-- How the program ends. -/
inductive Ending where
  /-- The work is done. `succeeded` says whether all of it went well. -/
  | finished (succeeded : Bool)
  | failed (fatal : Fatal)
  | misused (misuse : Misuse)
  /-- The arguments ask for one object and for many results at once. -/
  | contradicted
deriving DecidableEq, Repr

namespace Ending

/-- The status that the program ends with. -/
def status : Ending -> Nat
  | finished true => 0
  | finished false | failed _ => 1
  | misused _ | contradicted => 2

/-- How the end of the work follows from its result. -/
def ofResult : Except Fatal Bool -> Ending
  | .ok succeeded => finished succeeded
  | .error fatal => failed fatal

end Ending

/-- Why many results are refused where one object was asked for. -/
def contradictionMessage : String := "--watch and --json cannot be combined"

/-- How far the program gets by itself. -/
inductive Progress where
  | ended (ending : Ending) (scene : Scene)
  | watching (watching : Watching)

namespace Command

/-- The directory of the package that is worked on. One that is asked for is taken as it is.
Otherwise it is the nearest one, from the working directory up, that holds a manifest. -/
def packageDirectory (host : Host) (asked : Option String) : Path :=
  match asked with
  | some text => (host.tree.canonical? host.directory ⟨text⟩).getD ⟨text⟩
  | none => (host.packageRoot? host.workingPath).getD host.workingPath

/-- The configuration that an invocation asks for. -/
def configure (host : Host) (invocation : Invocation) : Config :=
  { directory := packageDirectory host invocation.directory
    output := ⟨invocation.output.getD "dist"⟩
    jsonLogs := invocation.json
    verbosity := invocation.verbosity }

/-- Do some work to its end. -/
def finish (work : Task Bool) (scene : Scene) : Progress :=
  let (result, last) := work scene
  .ended (Ending.ofResult result) last

/-- Do some work again and again. -/
def watch (scope : Scope) (work : Task Bool) (scene : Scene) : Progress :=
  match Watching.start scope work scene with
  | .ok watching => .watching watching
  | .error (fatal, last) => .ended (.failed fatal) last

/-- What is watched for a transformation. -/
def transformScope (config : Config) : Scope :=
  [config.outputPath]

/-- What is watched for a compilation. -/
def compileScope (config : Config) : Scope :=
  [config.directory.join ⟨"src"⟩, config.directory.join ⟨"tsconfig.json"⟩]

/-- Transform whenever the output changes. -/
def watchTransform (config : Config) (scene : Scene) : Progress :=
  watch (transformScope config) (transform config) scene

/-- Compile whenever a source changes. The toolchain is looked for only once. -/
def watchCompile (surroundings : Surroundings) (config : Config) (scene : Scene) : Progress :=
  match toolchain scene.host surroundings.environment config.directory with
  | .error fatal => .ended (.failed fatal) scene
  | .ok tools => watch (compileScope config) (compileWith surroundings config tools) scene

/-- Do what an action asks for. -/
def perform (surroundings : Surroundings) (config : Config) (action : Action) (scene : Scene) :
    Progress :=
  match action with
  | .version => finish (tellVersion config) scene
  | .transform false => finish (transform config) scene
  | .transform true => watchTransform config scene
  | .compile false => finish (compile surroundings config) scene
  | .compile true => watchCompile surroundings config scene
  | .clean => finish (clean config) scene
  | .declare watching => finish (declare surroundings config watching) scene
  | .prepare => finish (prepare surroundings config) scene

/-- Do what an invocation asks for. -/
def invoke (surroundings : Surroundings) (invocation : Invocation) (host : Host) : Progress :=
  if invocation.isContradictory then .ended .contradicted { host }
  else
    perform surroundings (configure host invocation) invocation.action
      { host, console := { verbosity := invocation.verbosity } }

/-- Run the program. -/
def run (surroundings : Surroundings) (arguments : List String) (host : Host) : Progress :=
  match Arguments.read arguments (surroundings.environment.get? "DISTFIX_OUT_DIR") with
  | .ok invocation => invoke surroundings invocation host
  | .error .help => finish (do Task.print usage; return true) { host }
  | .error .version => finish (do Task.print versionLine; return true) { host }
  | .error (.misuse misuse) => .ended (.misused misuse) { host }

end Command
end Relink
