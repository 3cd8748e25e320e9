import Relink.Command.Transform

/-!
# Compiling

The package's own compiler is run by a program from the search path. A compiler that reports
errors may still have written output, so its failure does not keep the output from being
transformed.
-/

namespace Relink

/-- What is needed to compile a package. -/
structure Toolchain where
  /-- The program that runs the compiler. -/
  node : Path
  compiler : Path
deriving DecidableEq, Repr

namespace Command

/-- Where a package's compiler lies. -/
def compilerPath (directory : Path) : Path :=
  directory.join ⟨"node_modules/typescript/bin/tsc"⟩

/-- The toolchain of the package in a directory. -/
def toolchain (host : Host) (environment : Environment) (directory : Path) :
    Except Fatal Toolchain :=
  if host.isFile (compilerPath directory) then
    match environment.program? host "node" with
    | some node => .ok ⟨node, compilerPath directory⟩
    | none => .error .nodeMissing
  else .error (.compilerMissing (compilerPath directory))

/-- The toolchain of the package, as the host is now. -/
def locate (surroundings : Surroundings) (config : Config) : Task Toolchain := do
  Task.ofExcept (toolchain (← Task.host) surroundings.environment config.directory)

/-- How the status of a program is written. -/
def statusText : Option Nat -> String
  | some status => "Some(" ++ Nat.repr status ++ ")"
  | none => "None"

/-- Run the compiler in the root of the package. Says whether it ended well. Its output is kept
apart when ours is read by a program. -/
def runCompiler (surroundings : Surroundings) (config : Config) (tools : Toolchain)
    (arguments : List String) : Task Bool := do
  Task.tell .debug "Running tsc"
    [("node", .plain tools.node.shown), ("tsc", .plain tools.compiler.shown)]
  let launch : Launch :=
    { program := tools.node
      arguments := tools.compiler.text :: arguments
      directory := config.directory
      environment := surroundings.environment }
  match surroundings.machine (← Task.host) launch with
  | .error cause => Task.fail (.system cause)
  | .ok execution => do
    Task.setHost execution.host
    Task.relay config.jsonLogs execution.emitted
    if !execution.succeeded then
      Task.tell .error "tsc failed" [("code", .plain (statusText execution.status))]
    return execution.succeeded

/-- Compile the package with a toolchain, then transform the output. Says whether both went
well. -/
def compileWith (surroundings : Surroundings) (config : Config) (tools : Toolchain) :
    Task Bool := do
  let compiled ← runCompiler surroundings config tools []
  let transformed ← transform config
  return compiled && transformed

/-- Compile the package, then transform the output. -/
def compile (surroundings : Surroundings) (config : Config) : Task Bool := do
  compileWith surroundings config (← locate surroundings config)

/-- Where the bundled declarations of a package are written to. -/
def bundlePath (config : Config) : Path :=
  config.outputPath.join ⟨"index.d.ts"⟩

/-- What the compiler is told to bundle the declarations of a package. -/
def bundleArguments (config : Config) (watching : Bool) : List String :=
  ["--declaration", "--emitDeclarationOnly", "--outFile", (bundlePath config).text] ++
    if watching then ["--watch"] else []

/-- Bundle the declarations of the package into one file. With `watching` the compiler goes on
by itself, and ends when it is stopped. -/
def declare (surroundings : Surroundings) (config : Config) (watching : Bool) : Task Bool := do
  let tools ← locate surroundings config
  let succeeded ← runCompiler surroundings config tools (bundleArguments config watching)
  if config.jsonLogs then printVerdict (.declared (bundlePath config) succeeded)
  return succeeded

end Command
end Relink
