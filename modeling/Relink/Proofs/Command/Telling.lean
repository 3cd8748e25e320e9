import Relink.Proofs.Command.Preparing
import Relink.Proofs.Resolution
import Relink.Proofs.Verdict

/-!
# What a command tells another program

What a command whose result is read by a program has to say is one finding, and it follows from
the host and the surroundings alone. The command prints the object of its finding and nothing
else, unless something ends it before.
-/

namespace Relink

/-- A run that finished ends with zero exactly if it succeeded. -/
theorem Ending.status_finished_eq_zero (succeeded : Bool) :
    (finished succeeded).status = 0 ↔ succeeded = true := by
  cases succeeded <;> simp [status]

namespace Command

/-! ## Findings -/

/-- What a command has to say. -/
structure Finding where
  verdict : Verdict
  /-- Whether its compiler ended well, if it has run one. -/
  compiled : Bool := true
deriving DecidableEq

/-- Whether all went well. -/
def Finding.succeeded (finding : Finding) : Bool :=
  finding.compiled && finding.verdict.isOk?.getD true

/-- Unless the compiler ended badly and the verdict is good, the verdict says whether all went
well. -/
theorem Finding.ok_iff_succeeded (found : Finding) {ok : Json.Value}
    (judged : found.compiled = false -> found.verdict.isOk? = some false)
    (told : found.verdict.value.member? "ok" = some ok) :
    ok = .bool true ↔ found.succeeded = true := by
  rw [Verdict.member?_ok] at told
  obtain ⟨good, judges, rfl⟩ := Option.map_eq_some_iff.1 told
  rw [succeeded, judges, Option.getD_some, Bool.and_eq_true, Json.Value.bool.injEq]
  refine ⟨fun isGood => ⟨?_, isGood⟩, And.right⟩
  rw [← Bool.not_eq_false]
  intro failed
  rw [judged failed, isGood] at judges
  cases judges

/-- What is told about a pass. -/
def verdictOfPass : Except Problem Report -> Verdict
  | .ok report => .passed report
  | .error problem => .refused problem

/-- What the compiler of the package does. -/
def compilerRun (surroundings : Surroundings) (config : Config) (arguments : List String)
    (host : Host) : Except Fatal Execution := do
  let tools ← toolchain host surroundings.environment config.directory
  (surroundings.machine host (launchOf surroundings config tools arguments)).mapError Fatal.system

/-- What there is to say about a pass. A path in it that is not Unicode ends the command. -/
def findingOfPass (compiled : Bool) (result : Except Problem Report) : Except Fatal Finding :=
  if (verdictOfPass result).isTellable then .ok { verdict := verdictOfPass result, compiled }
  else .error .pathNotText

/-- What a compilation has to say. -/
def compilation (surroundings : Surroundings) (config : Config) (host : Host) :
    Except Fatal Finding := do
  let execution ← compilerRun surroundings config [] host
  findingOfPass execution.succeeded (relinkOutput execution.host config {}).1

/-- What an action has to say, or what ends it before. -/
def finding (surroundings : Surroundings) (config : Config) (host : Host) :
    Action -> Except Fatal Finding
  | .version => .ok { verdict := .version }
  | .transform _ => findingOfPass true (relinkOutput host config {}).1
  | .compile _ => compilation surroundings config host
  | .declare watching => do
    let execution ← compilerRun surroundings config (bundleArguments config watching) host
    return {
      verdict := .declared (bundlePath config) execution.succeeded
      compiled := execution.succeeded }
  | .clean => do
    let removed ← (host.removeDirectoryTree config.outputPath).1.mapError Fatal.system
    return { verdict := .cleaned config.outputPath removed }
  | .prepare => do
    let _ ← toolchain host surroundings.environment config.directory
    let _ ← (host.removeDirectoryTree config.outputPath).1.mapError Fatal.system
    compilation surroundings config (host.removeDirectoryTree config.outputPath).2

/-- The text that is printed of a finding. -/
def told : Except Fatal Finding -> String
  | .ok finding => finding.verdict.value.render ++ "\n"
  | .error _ => ""

/-- Whether a task comes to a finding: it ends accordingly, and prints that and nothing else. -/
structure ComesTo (task : Task Bool) (finding : Except Fatal Finding) (scene : Scene) : Prop where
  ends : (task scene).1 = finding.map Finding.succeeded
  prints : (task scene).2.console.output = scene.console.output ++ told finding

variable {α : Type} {surroundings : Surroundings} {config : Config} {scene next : Scene}

/-- A step that prints nothing leaves it to the next ones to come to a finding. -/
theorem ComesTo.after {first : Task α} {value : α} {rest : α -> Task Bool}
    {finding : Except Fatal Finding} (done : first scene = (.ok value, next))
    (quiet : next.console.output = scene.console.output)
    (comesTo : ComesTo (rest value) finding next) : ComesTo (first >>= rest) finding scene where
  ends := by rw [Task.bind_ok _ done, comesTo.ends]
  prints := by rw [Task.bind_ok _ done, comesTo.prints, quiet]

/-- A task comes to the error that its first step ends with, if that step printed nothing. -/
theorem ComesTo.of_error {first : Task α} {fatal : Fatal} (rest : α -> Task Bool)
    (failed : first scene = (.error fatal, next))
    (quiet : next.console.output = scene.console.output) :
    ComesTo (first >>= rest) (.error fatal) scene where
  ends := by
    rw [Task.bind_error _ failed]
    rfl
  prints := by
    rw [Task.bind_error _ failed, told, String.append_empty]
    exact quiet

/-- A task that prints its verdict at the end has come to that, if it can be told. -/
theorem ComesTo.printed (finding : Finding) (scene : Scene) :
    ComesTo (do printVerdict finding.verdict; return finding.succeeded)
      (if finding.verdict.isTellable then .ok finding else .error .pathNotText) scene := by
  by_cases tellable : finding.verdict.isTellable = true
  · have printed : printVerdict finding.verdict scene =
        Task.print finding.verdict.value.render scene := by
      rw [printVerdict, if_pos tellable]
    rw [if_pos tellable]
    constructor
    · rw [Task.bind_ok _ printed]
      rfl
    · rw [Task.bind_ok _ printed]
      exact Console.output_emit ..
  · rw [if_neg tellable]
    exact .of_error _ (printVerdict_of_not_isTellable tellable scene) rfl

/-- How the compiler ended counts for how a compilation ends, and not for what it prints. -/
theorem ComesTo.afterCompiler {task : Task Bool} {result : Except Problem Report}
    (comesTo : ComesTo task (findingOfPass true result) scene) (compiled : Bool) :
    ComesTo (do let transformed ← task; return compiled && transformed)
      (findingOfPass compiled result) scene := by
  obtain ⟨ends, prints⟩ := comesTo
  generalize passed : task scene = done at ends prints
  obtain ⟨outcome, after⟩ := done
  unfold findingOfPass at ends prints ⊢
  by_cases tellable : (verdictOfPass result).isTellable = true
  · rw [if_pos tellable] at ends prints ⊢
    obtain rfl : outcome = _ := ends
    constructor
    · rw [Task.bind_ok _ passed]
      exact congrArg (fun good => Except.ok (compiled && good)) (Bool.true_and _)
    · rw [Task.bind_ok _ passed]
      exact prints
  · rw [if_neg tellable] at ends prints ⊢
    obtain rfl : outcome = .error .pathNotText := ends
    constructor
    · rw [Task.bind_error _ passed]
      rfl
    · rw [Task.bind_error _ passed]
      exact prints

/-! ## What the commands come to -/

section

variable (json : config.jsonLogs = true)

include json

/-- What `transform` comes to. -/
theorem transform_comesTo (scene : Scene) :
    ComesTo (transform config) (findingOfPass true (relinkOutput scene.host config {}).1)
      scene := by
  generalize made : relinkOutput scene.host config {} = pass
  obtain ⟨result, after⟩ := pass
  refine .after rfl (Console.output_tell ..) (.after rfl rfl ?_)
  dsimp only
  rw [made]
  refine .after rfl rfl ?_
  cases result with
  | ok report =>
    dsimp only [announce]
    rw [if_pos json]
    exact .printed { verdict := .passed report } _
  | error problem =>
    dsimp only
    rw [if_pos json]
    exact .printed { verdict := .refused problem } _

/-- What is done with the compiler's run decides what a task comes to. -/
theorem ComesTo.of_compilerRun {arguments : List String} {rest : Bool -> Task Bool}
    {finding : Execution -> Except Fatal Finding}
    (comesTo : ∀ execution console,
      ComesTo (rest execution.succeeded) (finding execution)
        { host := execution.host, console }) (scene : Scene) :
    ComesTo
      (locate surroundings config >>= fun tools =>
        runCompiler surroundings config tools arguments >>= rest)
      (compilerRun surroundings config arguments scene.host >>= finding) scene := by
  have located := locate_eq surroundings config scene
  unfold compilerRun
  cases found : toolchain scene.host surroundings.environment config.directory with
  | error fatal =>
    rw [found] at located
    exact .of_error _ located rfl
  | ok tools =>
    rw [found] at located
    refine .after located rfl ?_
    obtain ⟨console, ran, quiet⟩ := exists_runCompiler surroundings config tools arguments scene
    change ComesTo _ ((surroundings.machine scene.host
      (launchOf surroundings config tools arguments)).mapError Fatal.system >>= finding) scene
    cases done : surroundings.machine scene.host (launchOf surroundings config tools arguments) with
    | error cause =>
      rw [done] at ran
      exact .of_error rest ran (quiet json)
    | ok execution =>
      rw [done] at ran
      exact .after ran (quiet json) (comesTo execution console)

/-- What `compile` comes to. -/
theorem compile_comesTo (scene : Scene) :
    ComesTo (compile surroundings config) (compilation surroundings config scene.host) scene := by
  refine ComesTo.of_compilerRun json (fun execution console => ?_) scene
  exact (transform_comesTo json { host := execution.host, console }).afterCompiler _

/-- What `declare` comes to. -/
theorem declare_comesTo (watching : Bool) (scene : Scene) :
    ComesTo (declare surroundings config watching)
      (finding surroundings config scene.host (.declare watching)) scene := by
  refine ComesTo.of_compilerRun json (fun execution console => ?_) scene
  rw [if_pos json]
  have printed := ComesTo.printed
    { verdict := .declared (bundlePath config) execution.succeeded
      compiled := execution.succeeded } { host := execution.host, console }
  rwa [Finding.succeeded, Verdict.isOk?, Option.getD_some, Bool.and_self] at printed

/-- What `clean` comes to. -/
theorem clean_comesTo (scene : Scene) :
    ComesTo (clean config) (finding surroundings config scene.host .clean) scene := by
  have deleted := deleteOutput_eq config scene
  unfold finding
  cases outcome : (scene.host.removeDirectoryTree config.outputPath).1 with
  | error cause =>
    rw [outcome] at deleted
    exact .of_error _ deleted rfl
  | ok removed =>
    rw [outcome] at deleted
    refine .after deleted rfl ?_
    dsimp only
    rw [if_pos json]
    exact .printed { verdict := .cleaned config.outputPath removed } _

/-- What `prepare` comes to. -/
theorem prepare_comesTo (scene : Scene) :
    ComesTo (prepare surroundings config) (finding surroundings config scene.host .prepare)
      scene := by
  have located := locate_eq surroundings config scene
  unfold finding
  cases found : toolchain scene.host surroundings.environment config.directory with
  | error fatal =>
    rw [found] at located
    exact .of_error _ located rfl
  | ok tools =>
    rw [found] at located
    refine .after located rfl (.after rfl (Console.output_tell ..) ?_)
    have deleted := deleteOutput_eq config
      (Task.tell .info "Cleaning before compile" [("path", .plain config.outputPath.shown)] scene).2
    change deleteOutput config _ =
      ((scene.host.removeDirectoryTree config.outputPath).1.mapError Fatal.system, _) at deleted
    cases outcome : (scene.host.removeDirectoryTree config.outputPath).1 with
    | error cause =>
      rw [outcome] at deleted
      exact .of_error _ deleted rfl
    | ok removed =>
      rw [outcome] at deleted
      refine .after deleted rfl ?_
      exact compile_comesTo json { host := _, console := _ }

/-- What the question for the version comes to. -/
theorem tellVersion_comesTo (scene : Scene) :
    ComesTo (tellVersion config) (.ok { verdict := .version }) scene := by
  unfold tellVersion
  rw [if_pos json]
  exact .printed { verdict := .version } scene

/-- Every action but watching is one task, with what it comes to told at its end. -/
theorem perform_comesTo (action : Action) (resting : action.isWatching = false) (scene : Scene) :
    ∃ task, perform surroundings config action scene = finish task scene ∧
      ComesTo task (finding surroundings config scene.host action) scene := by
  cases action with
  | version => exact ⟨tellVersion config, rfl, tellVersion_comesTo json scene⟩
  | transform watching =>
    obtain rfl : watching = false := resting
    exact ⟨transform config, rfl, transform_comesTo json scene⟩
  | compile watching =>
    obtain rfl : watching = false := resting
    exact ⟨compile surroundings config, rfl, compile_comesTo json scene⟩
  | clean => exact ⟨clean config, rfl, clean_comesTo json scene⟩
  | declare watching =>
    exact ⟨declare surroundings config watching, rfl, declare_comesTo json watching scene⟩
  | prepare => exact ⟨prepare surroundings config, rfl, prepare_comesTo json scene⟩

end

/-! ## What a run tells -/

variable {arguments : List String} {host : Host} {invocation : Invocation}

/-- A run that is asked for an object ends as its finding says, and prints that and nothing else.
-/
theorem run_comesTo
    (parsed : Arguments.read arguments (surroundings.environment.get? "DISTFIX_OUT_DIR") =
      .ok invocation)
    (json : invocation.json = true) (resting : invocation.action.isWatching = false) :
    ∃ scene,
      run surroundings arguments host =
          .ended (.ofResult ((finding surroundings (configure host invocation) host
            invocation.action).map Finding.succeeded)) scene ∧
        scene.console.output =
          told (finding surroundings (configure host invocation) host invocation.action) := by
  have agrees : invocation.isContradictory = false := by
    rw [Invocation.isContradictory, resting, Bool.and_false]
  obtain ⟨task, performs, ends, prints⟩ := @perform_comesTo surroundings
    (configure host invocation) json invocation.action resting
    { host, console := { verbosity := invocation.verbosity } }
  refine ⟨_, ?_, prints.trans (String.empty_append ..)⟩
  rw [run, parsed]
  dsimp only
  rw [invoke, agrees, ← ends]
  exact performs

/-- A run whose action finds something prints it, and ends as it says. -/
theorem run_of_found {found : Finding}
    (parsed : Arguments.read arguments (surroundings.environment.get? "DISTFIX_OUT_DIR") =
      .ok invocation)
    (json : invocation.json = true) (resting : invocation.action.isWatching = false)
    (finds : finding surroundings (configure host invocation) host invocation.action = .ok found) :
    ∃ scene, run surroundings arguments host = .ended (.finished found.succeeded) scene ∧
      scene.console.output = found.verdict.value.render ++ "\n" := by
  have comesTo := @run_comesTo surroundings arguments host _ parsed json resting
  rwa [finds] at comesTo

/-- Where one object and many results are asked for, nothing is done. -/
theorem run_of_watching
    (parsed : Arguments.read arguments (surroundings.environment.get? "DISTFIX_OUT_DIR") =
      .ok invocation)
    (json : invocation.json = true) (watches : invocation.action.isWatching = true) :
    run surroundings arguments host = .ended .contradicted { host } := by
  rw [run, parsed]
  dsimp only
  rw [invoke, Invocation.isContradictory, json, watches]
  rfl

/-- A run that is asked for an object, and that nothing ends before it has something to say,
prints one object and nothing else. -/
theorem run_tells_object {found : Finding}
    (parsed : Arguments.read arguments (surroundings.environment.get? "DISTFIX_OUT_DIR") =
      .ok invocation)
    (json : invocation.json = true) (resting : invocation.action.isWatching = false)
    (finds : finding surroundings (configure host invocation) host invocation.action = .ok found) :
    ∃ scene members,
      run surroundings arguments host = .ended (.finished found.succeeded) scene ∧
        (members.map Prod.fst).Nodup ∧
        (∀ value : Json.Value,
          value.IsWrittenBy scene.console.output ↔ value = .object members) ∧
        Json.read? scene.console.output =
          if (Json.Value.object members).tokens.all Json.Token.fits then some (.object members)
          else none := by
  obtain ⟨scene, ended, printed⟩ := @run_of_found surroundings arguments host _ _ parsed json
    resting finds
  refine ⟨scene, _, ended, found.verdict.nodup_memberNames, ?_, ?_⟩
  · rw [printed]
    exact fun value => found.verdict.isWrittenBy_line_iff
  · rw [printed]
    exact found.verdict.read?_line

/-- What is asked for when the result of a compilation is to be read by a program. -/
def sampleInvocation : Invocation where
  action := .compile false
  json := true

theorem read_sampleInvocation (directory : String) (status : Nat) :
    Arguments.read ["compile", "--json"]
        ((sampleSurroundings directory status).environment.get? "DISTFIX_OUT_DIR") =
      .ok sampleInvocation :=
  rfl

/-- What is found when the project is compiled: its script needs no change. -/
def sampleFinding (compiled : Bool) : Finding where
  verdict := .passed { filesScanned := 1 }
  compiled

theorem finding_sampleProject :
    finding (sampleSurroundings "/bin" 0) (configure sampleProject sampleInvocation) sampleProject
      sampleInvocation.action = .ok (sampleFinding true) := by
  decide +kernel

/-- A package with a compiler is compiled, and one object is printed. -/
theorem run_tells_object_sampleProject :
    finding (sampleSurroundings "/bin" 0) (configure sampleProject sampleInvocation) sampleProject
        sampleInvocation.action = .ok (sampleFinding true) ∧
      ∃ scene members,
        run (sampleSurroundings "/bin" 0) ["compile", "--json"] sampleProject =
            .ended (.finished true) scene ∧
          ∀ value : Json.Value,
            value.IsWrittenBy scene.console.output ↔ value = .object members := by
  obtain ⟨scene, members, ended, -, written, -⟩ :=
    run_tells_object (read_sampleInvocation "/bin" 0) rfl rfl finding_sampleProject
  exact ⟨finding_sampleProject, scene, members, ended, written⟩

/-- Where the compiler is missing, nothing is printed. -/
theorem run_tells_nothing :
    ¬∀ (surroundings : Surroundings) (arguments : List String) (host : Host)
      (invocation : Invocation) (ending : Ending) (scene : Scene),
      Arguments.read arguments (surroundings.environment.get? "DISTFIX_OUT_DIR") =
          .ok invocation ->
        invocation.json = true -> invocation.action.isWatching = false ->
          run surroundings arguments host = .ended ending scene ->
            ∃ members, (Json.Value.object members).IsWrittenBy scene.console.output := by
  intro all
  have missing : finding (sampleSurroundings "/bin" 0)
      (configure Snapshot.samplePackage sampleInvocation) Snapshot.samplePackage
      sampleInvocation.action =
        .error (.compilerMissing ⟨"/p/node_modules/typescript/bin/tsc"⟩) := by
    decide
  obtain ⟨scene, ended, printed⟩ := @run_comesTo _ _ Snapshot.samplePackage _
    (read_sampleInvocation "/bin" 0) rfl rfl
  rw [missing] at printed
  obtain ⟨members, written⟩ := all _ _ _ _ _ _ (read_sampleInvocation "/bin" 0) rfl rfl ended
  rw [printed] at written
  exact Json.Value.not_isWrittenBy_empty _ written

/-- Where a run prints an object that says whether all is good, the status says the same, unless
the compiler ended badly and the pass over its output went well. -/
theorem ok_iff_status {ending : Ending} {scene : Scene} {value ok : Json.Value}
    (parsed : Arguments.read arguments (surroundings.environment.get? "DISTFIX_OUT_DIR") =
      .ok invocation)
    (json : invocation.json = true) (ended : run surroundings arguments host = .ended ending scene)
    (judged : ∀ found,
      finding surroundings (configure host invocation) host invocation.action = .ok found ->
        found.compiled = false -> found.verdict.isOk? = some false)
    (printed : value.IsWrittenBy scene.console.output)
    (told : value.member? "ok" = some ok) : ok = .bool true ↔ ending.status = 0 := by
  by_cases watches : invocation.action.isWatching = true
  · rw [run_of_watching parsed json watches] at ended
    obtain ⟨-, rfl⟩ := Progress.ended.inj ended
    exact absurd printed value.not_isWrittenBy_empty
  rw [Bool.not_eq_true] at watches
  obtain ⟨last, ended', tells⟩ := @run_comesTo surroundings arguments host _ parsed json watches
  obtain ⟨rfl, rfl⟩ := Progress.ended.inj (ended.symm.trans ended')
  rw [tells] at printed
  cases finds : finding surroundings (configure host invocation) host invocation.action with
  | error fatal =>
    rw [finds] at printed
    exact absurd printed value.not_isWrittenBy_empty
  | ok found =>
    rw [finds] at printed
    obtain rfl := found.verdict.isWrittenBy_line_iff.1 printed
    exact (found.ok_iff_succeeded (judged found finds) told).trans
      (Ending.status_finished_eq_zero _).symm

/-- A project with a compiler that ends well or badly: the pass goes well. -/
theorem run_sampleProject {status : Nat} {compiled : Bool}
    (finds : finding (sampleSurroundings "/bin" status)
      (configure sampleProject sampleInvocation) sampleProject sampleInvocation.action =
        .ok (sampleFinding compiled)) :
    ∃ (scene : Scene) (value : Json.Value),
      run (sampleSurroundings "/bin" status) ["compile", "--json"] sampleProject =
          .ended (.finished (compiled && true)) scene ∧
        value.IsWrittenBy scene.console.output ∧ value.member? "ok" = some (.bool true) := by
  obtain ⟨scene, ended, printed⟩ := @run_of_found _ _ sampleProject _ _
    (read_sampleInvocation "/bin" status) rfl rfl finds
  refine ⟨scene, _, ended, ?_, Verdict.member?_ok (.passed { filesScanned := 1 })⟩
  rw [printed]
  exact (Verdict.isWrittenBy_line_iff _).2 rfl

/-- In a project whose compiler ends well, the object and the status agree. -/
theorem ok_iff_status_sampleProject :
    ∃ (ending : Ending) (scene : Scene) (value : Json.Value),
      run (sampleSurroundings "/bin" 0) ["compile", "--json"] sampleProject =
          .ended ending scene ∧
        value.IsWrittenBy scene.console.output ∧ value.member? "ok" = some (.bool true) ∧
          ending.status = 0 := by
  obtain ⟨scene, value, ended, written, tells⟩ := run_sampleProject finding_sampleProject
  refine ⟨_, scene, value, ended, written, tells, ?_⟩
  refine (ok_iff_status (read_sampleInvocation "/bin" 0) rfl ended ?_ written tells).1 rfl
  intro found finds failed
  obtain rfl := Except.ok.inj (finding_sampleProject.symm.trans finds)
  cases failed

/-- A compiler that fails makes the status bad, but what is printed is about the pass alone. -/
theorem ok_of_failed_compiler :
    ¬∀ (surroundings : Surroundings) (arguments : List String) (host : Host)
      (invocation : Invocation) (ending : Ending) (scene : Scene) (value ok : Json.Value),
      Arguments.read arguments (surroundings.environment.get? "DISTFIX_OUT_DIR") =
          .ok invocation ->
        invocation.json = true -> run surroundings arguments host = .ended ending scene ->
          value.IsWrittenBy scene.console.output -> value.member? "ok" = some ok ->
            (ok = .bool true ↔ ending.status = 0) := by
  intro all
  have finds : finding (sampleSurroundings "/bin" 3) (configure sampleProject sampleInvocation)
      sampleProject sampleInvocation.action = .ok (sampleFinding false) := by
    decide +kernel
  obtain ⟨scene, value, ended, written, tells⟩ := run_sampleProject finds
  have agrees := all _ _ _ _ _ _ _ _ (read_sampleInvocation "/bin" 3) rfl ended written tells
  exact absurd (agrees.1 rfl) (by decide)

end Command
end Relink
