import Relink.Command.Run
import Relink.Shell.Run
import Relink.Tree.Difference

/-!
# The program

Reads what a command may look at into a tree, lets the command work on it, and carries what has
changed back to the disk. All decisions are made by `Command.run` and `Watching`. A compiler is
run by the shell of this library, so it has to be a shell script.
-/

namespace Relink.Program

/-- The location of an absolute path that holds neither `.` nor `..`. -/
def locationOf (path : Path) : Location :=
  path.components.filterMap fun component =>
    match component with
    | .name text => some text
    | _ => none

/-- The largest file that is read as a program, in bytes. -/
def programLimit : Nat := 1000000

/-- The entry at a path, links not followed. Where a link leads is written without links. -/
def readEntry? (path : Path) : IO (Option Entry) := do
  let place := (← IO.currentDir) / path.text
  try
    match (← place.symlinkMetadata).type with
    | .dir => return some .directory
    | .symlink =>
      try return some (.link ⟨(← IO.FS.realPath place).toString⟩)
      catch _ => return some (.link ⟨""⟩)
    | .file =>
      let size := (← place.metadata).byteSize.toNat
      let content ← if size ≤ programLimit then IO.FS.readBinFile place else pure ByteArray.empty
      return some (.file content true)
    | .other => return none
  catch _ => return none

/-- Read a path, and all directories and links on the way to it. Where it ends is told. -/
partial def readPath (tree : Tree) (path : Path) : IO (Tree × Option Location) := do
  let target := locationOf path.normalize
  let rec follow (tree : Tree) (reached : Location) : List String -> IO (Tree × Option Location)
    | [] => return (tree, some reached)
    | name :: rest => do
      let here := reached ++ [name]
      match ← readEntry? here.path with
      | none => return (tree, none)
      | some (.link goal) => do
        let linked := tree.set here (.link goal)
        if goal.text.isEmpty then return (linked, none)
        else readPath linked (rest.foldl (fun path name => path.join ⟨name⟩) goal)
      | some entry => follow (tree.set here entry) here rest
  follow tree [] target

/-- Read what lies below a directory, and what the links in it lead to. -/
partial def readBelow (tree : Tree) (directory : Location) : IO Tree := do
  let entries ← ((← IO.currentDir) / directory.path.text).readDir
  entries.foldlM (fun tree found => do
    let here := directory ++ [found.fileName]
    match ← readEntry? here.path with
    | none => return tree
    | some .directory => readBelow (tree.set here .directory) here
    | some (.link goal) => do
      let linked := tree.set here (.link goal)
      let known := (linked.lookup (locationOf goal)).isSome
      let (next, reached) ← readPath linked goal
      match reached with
      | some location =>
        if !known && next.lookup location = some .directory then readBelow next location
        else return next
      | none => return next
    | some entry => return tree.set here entry) tree

/-- Read a path, and all that lies below it. -/
def readWhole (tree : Tree) (path : Path) : IO Tree := do
  match ← readPath tree path with
  | (next, some location) =>
    if next.lookup location = some .directory then readBelow next location else return next
  | (next, none) => return next

/-- Read several paths with all that lies below them. -/
def readEach (tree : Tree) (paths : List Path) : IO Tree :=
  paths.foldlM readWhole tree

/-- The manifests that a command may look for from a directory up. -/
def manifestPaths (directory : Path) : List Path :=
  directory.ancestors.map fun above => above.join ⟨"package.json"⟩

/-- What a command may look at. -/
def concernedPaths (host : Host) (environment : Environment) (config : Config) : List Path :=
  [config.manifestPath, config.outputPath, Command.compilerPath config.directory].map
      host.absolutize ++
    (Command.compileScope config).map host.absolutize ++
    environment.searchPath.map fun directory => host.absolutize (directory.join ⟨"node"⟩)

/-- Carry one change to the disk. -/
def carryOut (tree : Tree) (change : Change) : IO Unit := do
  let place (location : Location) := do return (← IO.currentDir) / location.path.text
  let write (location : Location) (content : ByteArray) := do
    let temporary := Host.temporaryPath location.path (← IO.rand 1 1000000000) 0
    IO.FS.writeBinFile temporary.text content
    IO.FS.rename temporary.text (← place location)
  match change with
  | .removed location true => IO.FS.removeDir (← place location)
  | .removed location false => IO.FS.removeFile (← place location)
  | .created location true => IO.FS.createDir (← place location)
  | .created location false | .written location =>
    match tree.lookup location with
    | some (.file content _) => write location content
    | _ => return
  | .moved source target _ => IO.FS.rename (← place source) (← place target)

/-- Carry the difference between two trees to the disk. -/
def save (before after : Tree) : IO Unit :=
  (before.changesTo after).forM (carryOut after)

/-- Show what was written to a console after its first `shown` emissions. -/
def present (console : Console) (shown : Nat) : IO Unit := do
  let news : Console := { console with emitted := console.emitted.drop shown }
  IO.print news.output
  (← IO.getStdout).flush
  IO.eprint news.errors

/-- Watch until the program is stopped. -/
partial def watch (reread : IO Tree) (shown : Nat) (watching : Watching) : IO Unit := do
  present watching.scene.console shown
  IO.sleep quietPeriod.toUInt32
  let host := watching.scene.host
  let tree ← reread
  let changes := host.tree.changesTo tree
  let next :=
    if changes.isEmpty then watching.pause
    else watching.disturb { host with tree, journal := changes.reverse }
  save tree next.scene.host.tree
  watch reread watching.scene.console.emitted.length next

/-- Tell why the program ends, if that is not told yet. -/
def explain : Ending -> IO Unit
  | .finished _ => return
  | .failed fatal => do
    let code := (fatal.code?.map fun code => code ++ ": ").getD ""
    IO.eprintln ("error: " ++ code ++ fatal.message)
    if let some advice := fatal.advice? then IO.eprintln ("help: " ++ advice)
  | .misused misuse => IO.eprintln ("error: " ++ misuse.message)
  | .contradicted => do
    IO.eprintln ("error: " ++ contradictionMessage)
    IO.eprintln
      "hint: --json requires exactly one output object; watch mode streams multiple results"

/-- The variables that a command looks at. -/
def readEnvironment : IO Environment := do
  let bindings ← ["PATH", "DISTFIX_OUT_DIR"].filterMapM fun name => do
    return (← IO.getEnv name).map fun value => (name, value)
  return ⟨bindings⟩

/-- Read what the arguments ask to look at. -/
def readTree (host : Host) (environment : Environment) (arguments : List String) : IO Tree := do
  let outline ← readEach host.tree (manifestPaths host.workingPath)
  match Arguments.read arguments (environment.get? "DISTFIX_OUT_DIR") with
  | .error _ => return outline
  | .ok invocation =>
    let asked := (invocation.directory.map Path.mk).toList.map host.absolutize
    let (tree, _) ← asked.foldlM (fun (tree, _) path => readPath tree path) (outline, none)
    let config := Command.configure { host with tree } invocation
    readEach tree (concernedPaths host environment config)

end Relink.Program

open Relink Relink.Program in
/-- Run the program. -/
def main (arguments : List String) : IO UInt32 := do
  let environment ← readEnvironment
  let here := locationOf ⟨(← IO.FS.realPath (← IO.currentDir)).toString⟩
  let (start, _) ← readPath Tree.empty here.path
  let bare : Host := { tree := start, directory := here }
  let tree ← readTree bare environment arguments
  let surroundings : Surroundings := { environment, machine := Shell.machine }
  match Command.run surroundings arguments { bare with tree } with
  | .ended ending scene => do
    save tree scene.host.tree
    present scene.console 0
    explain ending
    return ending.status.toUInt32
  | .watching watching => do
    save tree watching.scene.host.tree
    watch (readTree bare environment arguments) 0 watching
    return 0
