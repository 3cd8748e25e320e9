import Relink.Proofs.Command.Steps
import Relink.Proofs.Tree.Removal
import Relink.Proofs.Tree.Stops

/-!
# Preparing without a toolchain

A package is prepared by deleting its output and compiling it afresh, and the toolchain is looked
for before and after. What was found at first is found again if no way to it leads through the
output, and then a missing toolchain is noticed before anything is deleted.
-/

namespace Relink

/-- Whether a fatal error says that a part of the toolchain is missing. -/
def Fatal.IsMissing (fatal : Fatal) : Prop :=
  fatal.code? = some "TYPESCRIPT_MISSING" ∨ fatal.code? = some "NODE_NOT_FOUND"

instance (fatal : Fatal) : Decidable fatal.IsMissing :=
  inferInstanceAs (Decidable (_ ∨ _))

theorem Fatal.not_isMissing_system (cause : Cause) : ¬(system cause).IsMissing := by
  simp [IsMissing, code?]

theorem Fatal.not_isMissing_problem (problem : Problem) : ¬(Fatal.problem problem).IsMissing := by
  cases problem <;> simp [IsMissing, code?, Problem.code]

namespace Host

variable {host : Host}

/-- Whether the way to what a path names looks at nothing that is deleted under another path. -/
def Spares (host : Host) (deleted kept : Path) : Prop :=
  ∀ location entry, host.tree.resolve host.directory false deleted = .ok ⟨location, some entry⟩ ->
    entry.isFile = false ->
      ∀ stop ∈ host.tree.stopsOf host.directory true kept, ¬location <+: stop

/-- What is spared by a deletion is there afterwards. -/
theorem Spares.status_eq {deleted kept : Path} (spares : host.Spares deleted kept) :
    (host.removeDirectoryTree deleted).2.tree.status
        (host.removeDirectoryTree deleted).2.directory kept =
      host.tree.status host.directory kept := by
  have same : ∀ stop ∈ host.tree.stopsOf host.directory true kept,
      (host.removeDirectoryTree deleted).2.tree.lookup stop = host.tree.lookup stop := by
    intro stop member
    rw [tree_removeDirectoryTree]
    exact (Tree.removal_removeAll ..).lookup_eq fun location entry found solid =>
      spares location entry found solid stop member
  rw [directory_removeDirectoryTree, Tree.status, Tree.status, Tree.resolve_of_stops same]

end Host

namespace Command

variable {surroundings : Surroundings} {config : Config} {scene : Scene}

/-- What a toolchain consists of. -/
theorem toolchain_eq_ok {host : Host} {environment : Environment} {directory : Path}
    {tools : Toolchain} (found : toolchain host environment directory = .ok tools) :
    tools.compiler = compilerPath directory ∧ host.isFile tools.compiler = true ∧
      host.isProgram tools.node = true ∧
      tools.node ∈ environment.searchPath.map (·.join ⟨"node"⟩) := by
  unfold toolchain at found
  split at found
  · rename_i isFile
    split at found
    · rename_i node search
      obtain rfl := Except.ok.inj found
      exact ⟨rfl, isFile, List.find?_some search, List.mem_of_find?_eq_some search⟩
    · cases found
  · cases found

theorem exists_toolchain {host : Host} {environment : Environment} {directory node : Path}
    (isFile : host.isFile (compilerPath directory) = true)
    (isProgram : host.isProgram node = true)
    (listed : node ∈ environment.searchPath.map (·.join ⟨"node"⟩)) :
    ∃ tools, toolchain host environment directory = .ok tools := by
  unfold toolchain
  rw [if_pos isFile]
  cases search : environment.program? host "node" with
  | some node => exact ⟨_, rfl⟩
  | none => exact absurd isProgram (List.find?_eq_none.1 search node listed)

/-- A toolchain that a deletion spares is found again. -/
theorem exists_toolchain_of_spares {host : Host} {environment : Environment}
    {directory deleted : Path} {tools : Toolchain}
    (found : toolchain host environment directory = .ok tools)
    (compiler : host.Spares deleted tools.compiler) (node : host.Spares deleted tools.node) :
    ∃ tools, toolchain (host.removeDirectoryTree deleted).2 environment directory = .ok tools := by
  obtain ⟨place, isFile, isProgram, listed⟩ := toolchain_eq_ok found
  refine exists_toolchain (place ▸ ?_) ?_ listed
  · rw [Host.isFile, Tree.isFile, compiler.status_eq]
    exact isFile
  · rw [Host.isProgram, Tree.isProgram, node.status_eq]
    exact isProgram

/-- Once the toolchain is found, nothing that is missing ends a compilation. -/
theorem not_isMissing_of_compile {tools : Toolchain} {fatal : Fatal}
    (found : toolchain scene.host surroundings.environment config.directory = .ok tools)
    (failed : (compile surroundings config scene).1 = .error fatal) : ¬fatal.IsMissing := by
  have located := (locate_eq surroundings config scene).trans (by rw [found])
  obtain ⟨console, ran, -⟩ := exists_runCompiler surroundings config tools [] scene
  unfold compile compileWith at failed
  rw [Task.bind_ok _ located] at failed
  split at ran
  · rename_i cause _
    rw [Task.bind_error _ ran] at failed
    obtain rfl := Except.error.inj failed
    exact Fatal.not_isMissing_system cause
  · rename_i execution _
    rw [Task.bind_ok _ ran] at failed
    generalize passed : transform config { host := execution.host, console } = result at failed
    obtain ⟨outcome, after⟩ := result
    cases outcome with
    | ok good =>
      rw [Task.bind_ok _ passed] at failed
      cases failed
    | error fatal' =>
      rw [Task.bind_error _ passed] at failed
      obtain rfl := Except.error.inj failed
      obtain rfl | ⟨problem, rfl⟩ := exists_problem_of_transform (congrArg Prod.fst passed)
      · decide
      · exact Fatal.not_isMissing_problem problem

theorem prepare_of_located {tools : Toolchain}
    (found : toolchain scene.host surroundings.environment config.directory = .ok tools) :
    ∃ console, prepare surroundings config scene =
      (deleteOutput config >>= fun _ => compile surroundings config) { scene with console } :=
  ⟨_, Task.bind_ok _ ((locate_eq surroundings config scene).trans (by rw [found]))⟩

/-- A missing toolchain ends a preparation before it has done anything, unless the way to the
compiler or to the program that runs it leads through the output. -/
theorem prepare_missing
    (spares : ∀ tools,
      toolchain scene.host surroundings.environment config.directory = .ok tools ->
        scene.host.Spares config.outputPath tools.compiler ∧
          scene.host.Spares config.outputPath tools.node)
    {fatal : Fatal} {after : Scene}
    (ended : perform surroundings config .prepare scene = .ended (.failed fatal) after)
    (isMissing : fatal.IsMissing) :
    toolchain scene.host surroundings.environment config.directory = .error fatal ∧
      after = scene := by
  have failed : prepare surroundings config scene = (.error fatal, after) := by
    unfold perform finish at ended
    generalize prepare surroundings config scene = result at ended
    obtain ⟨outcome, last⟩ := result
    obtain ⟨ending, rfl⟩ := Progress.ended.inj ended
    cases outcome with
    | ok succeeded => cases ending
    | error fatal' => rw [Ending.failed.inj ending]
  -- Where the tools are there at first, they are found again after the output is deleted.
  cases found : toolchain scene.host surroundings.environment config.directory with
  | error fatal' =>
    have located := (locate_eq surroundings config scene).trans (by rw [found])
    unfold prepare at failed
    rw [Task.bind_error _ located] at failed
    obtain ⟨same, rfl⟩ := Prod.mk.inj failed
    exact ⟨congrArg Except.error (Except.error.inj same), rfl⟩
  | ok tools =>
    exfalso
    obtain ⟨compiler, node⟩ := spares tools found
    obtain ⟨tools', again⟩ := exists_toolchain_of_spares found compiler node
    obtain ⟨console, same⟩ := prepare_of_located found
    rw [same] at failed
    have deleted := deleteOutput_eq config { scene with console }
    cases outcome : (scene.host.removeDirectoryTree config.outputPath).1 with
    | error cause =>
      rw [outcome] at deleted
      rw [Task.bind_error _ deleted] at failed
      obtain rfl := Except.error.inj (Prod.mk.inj failed).1
      exact Fatal.not_isMissing_system cause isMissing
    | ok removed =>
      rw [outcome] at deleted
      rw [Task.bind_ok _ deleted] at failed
      exact @not_isMissing_of_compile surroundings config
        { host := (scene.host.removeDirectoryTree config.outputPath).2, console } tools' fatal again
        (congrArg Prod.fst failed) isMissing

/-- A package with a compiler, an output directory and a program that runs the compiler. -/
def sampleProject : Host where
  tree := ⟨[(["bin"], .directory),
    (["bin", "node"], .file ByteArray.empty true),
    (["p"], .directory),
    (["p", "package.json"], .file "\x7b\"main\":\"dist/index.js\"\x7d".toByteArray false),
    (["p", "dist"], .directory),
    (["p", "dist", "index.js"], .file ByteArray.empty false),
    (["p", "node_modules"], .directory),
    (["p", "node_modules", "typescript"], .directory),
    (["p", "node_modules", "typescript", "bin"], .directory),
    (["p", "node_modules", "typescript", "bin", "tsc"], .file ByteArray.empty false)]⟩
  directory := ["p"]

/-- A search path of one directory, and programs that do nothing but end with a status. -/
def sampleSurroundings (directory : String) (status : Nat) : Surroundings where
  environment := ⟨[("PATH", directory)]⟩
  machine host _ := .ok { host, status, emitted := [] }

/-- With its output in a directory of its own, the package spares its toolchain. Where the search
path has no program to run the compiler with, it is left as it was. -/
theorem prepare_missing_sampleProject :
    (∃ tools, toolchain sampleProject (sampleSurroundings "/bin" 0).environment ⟨"/p"⟩ = .ok tools ∧
      sampleProject.Spares ⟨"/p/dist"⟩ tools.compiler ∧
        sampleProject.Spares ⟨"/p/dist"⟩ tools.node) ∧
    ∃ after, perform (sampleSurroundings "/p" 0) { directory := ⟨"/p"⟩ } .prepare
        { host := sampleProject } = .ended (.failed .nodeMissing) after ∧
      Fatal.nodeMissing.IsMissing ∧ after = { host := sampleProject } := by
  have leads : sampleProject.tree.resolve sampleProject.directory false ⟨"/p/dist"⟩ =
      .ok ⟨["p", "dist"], some .directory⟩ := by decide
  have spares (kept : Path)
      (apart : ∀ stop ∈ sampleProject.tree.stopsOf sampleProject.directory true kept,
        ¬["p", "dist"] <+: stop) : sampleProject.Spares ⟨"/p/dist"⟩ kept := by
    intro location entry found _
    obtain ⟨rfl, -⟩ := Place.mk.inj (Except.ok.inj (leads.symm.trans found))
    exact apart
  refine ⟨⟨⟨⟨"/bin/node"⟩, compilerPath ⟨"/p"⟩⟩, by decide, spares _ (by decide),
    spares _ (by decide)⟩, ?_⟩
  have missing : toolchain sampleProject (sampleSurroundings "/p" 0).environment ⟨"/p"⟩ =
      .error .nodeMissing := by decide
  have ends : Ending.ofResult (prepare (sampleSurroundings "/p" 0) { directory := ⟨"/p"⟩ }
      { host := sampleProject }).1 = .failed .nodeMissing := by decide
  obtain ⟨after, ended⟩ : ∃ after, perform (sampleSurroundings "/p" 0) { directory := ⟨"/p"⟩ }
      .prepare { host := sampleProject } = .ended (.failed .nodeMissing) after :=
    ⟨_, congrArg (Progress.ended · _) ends⟩
  have isMissing : Fatal.nodeMissing.IsMissing := by decide
  refine ⟨after, ended, isMissing, (prepare_missing ?_ ended isMissing).2⟩
  intro tools found
  exact absurd (missing.symm.trans found) (by simp)

/-- A compiler that lies in the output is deleted before it is found missing. -/
theorem prepare_deletes_compiler :
    ¬∀ (surroundings : Surroundings) (config : Config) (scene after : Scene) (fatal : Fatal),
      perform surroundings config .prepare scene = .ended (.failed fatal) after ->
        fatal.IsMissing -> after.host.tree = scene.host.tree := by
  intro all
  have ends : Ending.ofResult (prepare (sampleSurroundings "/bin" 0)
      { directory := ⟨"/p"⟩, output := ⟨"node_modules"⟩ } { host := sampleProject }).1 =
        .failed (.compilerMissing ⟨"/p/node_modules/typescript/bin/tsc"⟩) := by
    decide
  have kept := all (sampleSurroundings "/bin" 0)
    { directory := ⟨"/p"⟩, output := ⟨"node_modules"⟩ } { host := sampleProject } _ _
    (congrArg (Progress.ended · _) ends) (by decide)
  revert kept
  decide

end Command
end Relink
