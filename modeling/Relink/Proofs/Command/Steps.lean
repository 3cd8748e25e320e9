import Relink.Command.Run

/-!
# What the steps of a command do

One equation for each step that commands share: what it results in, and what it leaves of the host
and of the console. A command is then taken apart step by step. What is printed only matters where
the output is to be read by a program.
-/

namespace Relink

namespace Host

/-- Removing a directory leaves the working directory. -/
theorem directory_removeDirectoryTree (host : Host) (path : Path) :
    (host.removeDirectoryTree path).2.directory = host.directory := by
  unfold removeDirectoryTree
  split <;> rfl

/-- Removing a directory leaves the tree without what was removed. -/
theorem tree_removeDirectoryTree (host : Host) (path : Path) :
    (host.removeDirectoryTree path).2.tree = (host.tree.removeAll host.directory path).2.1 := by
  unfold removeDirectoryTree
  split <;> rename_i done <;> rw [done] <;> rfl

end Host

namespace Console

/-- What is emitted is put behind the output. -/
theorem output_emit (console : Console) (emission : Emission) :
    (console.emit emission).output = console.output ++ emission.outputText := by
  have run (emitted : List Emission) (last : String) :
      emitted.foldr (fun first rest => first.outputText ++ rest) last =
        emitted.foldr (fun first rest => first.outputText ++ rest) "" ++ last := by
    induction emitted with
    | nil => exact String.empty_append.symm
    | cons first rest ih => rw [List.foldr_cons, List.foldr_cons, ih, String.append_assoc]
  rw [emit, output, List.foldr_append, run, List.foldr_cons, List.foldr_nil, String.append_empty]
  rfl

/-- What is told does not reach the output. -/
theorem output_tell (console : Console) (record : Record) :
    (console.tell record).output = console.output := by
  unfold tell
  split
  · rw [output_emit]
    exact String.append_empty
  · rfl

/-- What another program writes does not reach an output that is kept apart. -/
theorem output_relay (console : Console) (written : List (Stream × String)) :
    (console.relay true written).output = console.output := by
  induction written generalizing console with
  | nil => rfl
  | cons first rest ih =>
    refine (ih _).trans ((output_emit ..).trans ?_)
    exact String.append_empty

end Console

namespace Task

variable {α β : Type} {scene next : Scene}

/-- A task whose first step is done goes on with the second. -/
theorem bind_ok {first : Task α} {value : α} (second : α -> Task β)
    (done : first scene = (.ok value, next)) : (first >>= second) scene = second value next := by
  change andThen first second scene = _
  rw [andThen, done]

/-- A task whose first step ends with an error ends with it. -/
theorem bind_error {first : Task α} {fatal : Fatal} (second : α -> Task β)
    (failed : first scene = (.error fatal, next)) :
    (first >>= second) scene = (.error fatal, next) := by
  change andThen first second scene = _
  rw [andThen, failed]

/-- Whether a task has a result wherever it is done. -/
def Yields (task : Task α) (value : α) : Prop :=
  ∀ scene, (task scene).1 = .ok value

/-- Two tasks that have results have that of the second. -/
theorem Yields.andThen {first : Task α} {second : α -> Task β} {value : α} {value' : β}
    (yields : first.Yields value) (yields' : (second value).Yields value') :
    (first.andThen second).Yields value' := by
  intro scene
  have before := yields scene
  unfold Task.andThen
  generalize first scene = done at before ⊢
  obtain ⟨outcome, next⟩ := done
  obtain rfl : outcome = .ok value := before
  exact yields' next

/-- Records can always be told. -/
theorem yields_tellAll (records : List Record) : (tellAll records).Yields () := by
  induction records with
  | nil => exact fun _ => rfl
  | cons record records ih => exact Yields.andThen (fun _ => rfl) ih

end Task

namespace Command

/-- Looking for the tools changes nothing. -/
theorem locate_eq (surroundings : Surroundings) (config : Config) (scene : Scene) :
    locate surroundings config scene =
      (toolchain scene.host surroundings.environment config.directory, scene) := by
  change Task.ofExcept _ scene = _
  cases toolchain scene.host surroundings.environment config.directory <;> rfl

/-- Deleting the output directory is the host's removal of it. -/
theorem deleteOutput_eq (config : Config) (scene : Scene) :
    deleteOutput config scene =
      ((scene.host.removeDirectoryTree config.outputPath).1.mapError Fatal.system,
        { scene with host := (scene.host.removeDirectoryTree config.outputPath).2 }) := by
  simp only [deleteOutput, bind, Task.andThen, Task.host, Task.setHost]
  cases (scene.host.removeDirectoryTree config.outputPath).1 <;> rfl

/-- How the compiler is started. -/
def launchOf (surroundings : Surroundings) (config : Config) (tools : Toolchain)
    (arguments : List String) : Launch where
  program := tools.node
  arguments := tools.compiler.text :: arguments
  directory := config.directory
  environment := surroundings.environment

/-- Running the compiler leaves the machine's host, and prints what it has to. -/
theorem exists_runCompiler (surroundings : Surroundings) (config : Config) (tools : Toolchain)
    (arguments : List String) (scene : Scene) :
    ∃ console, runCompiler surroundings config tools arguments scene =
        (match surroundings.machine scene.host (launchOf surroundings config tools arguments) with
        | .error cause => (.error (.system cause), { scene with console })
        | .ok execution => (.ok execution.succeeded, { host := execution.host, console })) ∧
      (config.jsonLogs = true -> console.output = scene.console.output) := by
  simp only [runCompiler, bind, Task.andThen, Task.tell, Task.tellRecord, Task.host, launchOf]
  cases surroundings.machine scene.host
      { program := tools.node, arguments := tools.compiler.text :: arguments,
        directory := config.directory, environment := surroundings.environment } with
  | error cause => exact ⟨_, rfl, fun _ => Console.output_tell ..⟩
  | ok execution =>
    dsimp only [Task.setHost, Task.relay]
    cases execution.succeeded with
    | true =>
      refine ⟨_, rfl, fun json => ?_⟩
      dsimp only
      rw [json, Console.output_relay, Console.output_tell]
    | false =>
      refine ⟨_, rfl, fun json => ?_⟩
      dsimp only
      rw [Console.output_tell, json, Console.output_relay, Console.output_tell]

/-- Telling a report to people ends the command in no case. -/
theorem yields_tellReport (report : Report) : (tellReport report).Yields () := by
  unfold tellReport
  cases report.skipped with
  | some reason => exact fun _ => rfl
  | none => exact (Task.yields_tellAll _).andThen fun _ => rfl

/-- A verdict with a path that is no text is not printed. -/
theorem printVerdict_of_not_isTellable {verdict : Verdict} (untellable : ¬verdict.isTellable = true)
    (scene : Scene) : printVerdict verdict scene = (.error .pathNotText, scene) := by
  rw [printVerdict, if_neg untellable]
  rfl

/-- Only a path that is not Unicode keeps a report from being told. -/
theorem eq_pathNotText_of_announce {config : Config} {report : Report} {scene : Scene}
    {fatal : Fatal} (failed : (announce config report scene).1 = .error fatal) :
    fatal = .pathNotText := by
  unfold announce at failed
  by_cases json : config.jsonLogs = true
  · rw [if_pos json] at failed
    by_cases tellable : (Verdict.passed report).isTellable = true
    · rw [printVerdict, if_pos tellable] at failed
      cases failed
    · rw [Task.bind_error _ (printVerdict_of_not_isTellable tellable scene)] at failed
      exact (Except.error.inj failed).symm
  · rw [if_neg json] at failed
    have yields : ((tellReport report).andThen fun _ => Task.done report.isOk).Yields
        report.isOk :=
      (yields_tellReport report).andThen fun _ => rfl
    cases (yields scene).symm.trans failed

/-- Only a problem of the pass, or a path in it that is not Unicode, ends a transformation. -/
theorem exists_problem_of_transform {config : Config} {scene : Scene} {fatal : Fatal}
    (failed : (transform config scene).1 = .error fatal) :
    fatal = .pathNotText ∨ ∃ problem, fatal = .problem problem := by
  simp only [transform, bind, Task.andThen, Task.tell, Task.tellRecord, Task.host,
    Task.setHost] at failed
  cases made : (relinkOutput scene.host config {}).1 with
  | ok report =>
    rw [made] at failed
    exact .inl (eq_pathNotText_of_announce failed)
  | error problem =>
    rw [made] at failed
    cases json : config.jsonLogs with
    | true => rw [json] at failed; cases failed
    | false =>
      rw [json] at failed
      exact .inr ⟨problem, (Except.error.inj failed).symm⟩

end Command
end Relink
