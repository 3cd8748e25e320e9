import Relink.Command.Transform
import Relink.Proofs.Recurrence
import Relink.Watch

/-!
# A command that transforms and watches

Such a command makes a pass whenever something in its scope has changed. A pass that writes nothing
leaves nothing to take note of, so the command is idle after two quiet periods in which nobody else
changes anything.
-/

namespace Relink

/-- Whether a task leaves its host as it is. -/
def Task.Keeps {α : Type} (task : Task α) : Prop :=
  ∀ scene, (task scene).2.host = scene.host

namespace Task

/-- Two tasks that keep the host, one after the other, keep it. -/
theorem Keeps.andThen {α β : Type} {first : Task α} {second : α -> Task β} (keeps : first.Keeps)
    (keeps' : ∀ value, (second value).Keeps) : (first.andThen second).Keeps := by
  intro scene
  have before := keeps scene
  unfold Task.andThen
  generalize first scene = done at before ⊢
  obtain ⟨outcome, next⟩ := done
  cases outcome with
  | error fatal => exact before
  | ok value => exact (keeps' value next).trans before

/-- Telling records keeps the host. -/
theorem keeps_tellAll (records : List Record) : (tellAll records).Keeps := by
  induction records with
  | nil => exact fun _ => rfl
  | cons record records ih => exact Keeps.andThen (fun _ => rfl) fun _ => ih

end Task

namespace Command

/-- Announcing a report keeps the host. -/
theorem keeps_announce (config : Config) (report : Report) : (announce config report).Keeps := by
  have tells : (tellReport report).Keeps := by
    unfold tellReport
    cases report.skipped with
    | some reason => exact fun _ => rfl
    | none => exact Task.Keeps.andThen (Task.keeps_tellAll _) fun _ _ => rfl
  unfold announce
  cases config.jsonLogs with
  | true =>
    refine Task.Keeps.andThen (fun scene => ?_) fun _ _ => rfl
    rw [printVerdict]
    split <;> rfl
  | false => exact tells.andThen fun _ _ => rfl

/-- Transforming makes a pass, and does nothing else to the host. -/
theorem host_transform (config : Config) (scene : Scene) :
    (transform config scene).2.host = (relinkOutput scene.host config {}).2 := by
  unfold transform
  generalize made : relinkOutput scene.host config {} = pass
  obtain ⟨result, after⟩ := pass
  simp only [bind, Task.andThen, Task.tell, Task.tellRecord, Task.host, Task.setHost, made]
  cases result with
  | ok report => exact keeps_announce config report _
  | error problem => cases config.jsonLogs <;> rfl

/-- Whether a task fails makes no difference for what it did to the host. -/
theorem host_attempt (work : Task Bool) (scene : Scene) :
    (attempt work scene).2.host = (work scene).2.host := by
  unfold attempt
  generalize work scene = worked
  obtain ⟨outcome, next⟩ := worked
  match outcome with
  | .ok true => rfl
  | .ok false => rfl
  | .error fatal => rfl

end Command

namespace Watching

variable {watching : Watching} {config : Config}

/-- With nothing pending, a pause changes nothing. -/
theorem pause_of_idle (idle : watching.coalescer = {}) : watching.pause = watching := by
  obtain ⟨scene, work, scope, points, coalescer⟩ := watching
  obtain rfl : coalescer = {} := idle
  rfl

/-- With nothing pending, quiet periods change nothing. -/
theorem settle_of_idle (idle : watching.coalescer = {}) (periods : Nat) :
    watching.settle periods = watching := by
  induction periods with
  | zero => rfl
  | succ periods ih =>
    rw [settle, pause_of_idle idle]
    exact ih

/-- Quiet periods follow one another. -/
theorem settle_add (watching : Watching) (periods later : Nat) :
    watching.settle (periods + later) = (watching.settle periods).settle later := by
  induction periods generalizing watching with
  | zero => rw [Nat.zero_add]; rfl
  | succ periods ih =>
    rw [Nat.succ_add]
    exact ih watching.pause

/-- A quiet period starts a run, or it leaves an idle command. -/
theorem pause_cases (watching : Watching) :
    watching.pause = { watching with coalescer := {} } ∨
      watching.pause = { watching with coalescer := {} }.rerun := by
  unfold pause Coalescer.step
  cases watching.coalescer.isIdle with
  | true => exact .inl rfl
  | false => exact .inr rfl

/-- Where nothing was changed, nothing becomes pending. -/
theorem coalescer_observe (unchanged : watching.scene.host.journal = []) :
    watching.observe.coalescer = watching.coalescer := by
  unfold observe
  dsimp only
  rw [unchanged]
  exact congrArg Coalescer.mk (List.append_nil _)

/-- A run of a command that transforms makes a pass, and then takes note of what the pass did. -/
theorem rerun_eq (transforms : watching.work = Command.transform config) :
    ∃ scene, watching.rerun = { watching with scene }.observe ∧
      scene.host = (relinkOutput watching.scene.host config {}).2 := by
  refine ⟨(Command.attempt watching.work (Task.print divider watching.scene).2).2, rfl, ?_⟩
  rw [Command.host_attempt, transforms, Command.host_transform]
  rfl

/-- A command that watches and transforms is idle after two quiet periods. -/
theorem settle_transform (transforms : watching.work = Command.transform config)
    (orderly : watching.scene.host.IsOrderly config) (clear : watching.scene.host.IsClear)
    (periods : Nat) : watching.settle (2 + periods) = watching.settle 2 := by
  rw [settle_add]
  refine settle_of_idle ?_ periods
  change watching.pause.pause.coalescer = {}
  rcases watching.pause_cases with first | first
  · rw [first, pause_of_idle rfl]
  · obtain ⟨scene, ran, host_eq⟩ :=
      @rerun_eq { watching with coalescer := {} } config transforms
    generalize done : relinkOutput watching.scene.host config {} = pass at host_eq
    obtain ⟨result, after⟩ := pass
    obtain ⟨ticket, again⟩ := orderly.pass_again clear done []
    rw [first, ran]
    rcases pause_cases { watching with scene, coalescer := {} }.observe with idle | second
    · rw [idle]
    · obtain ⟨scene', ran', host_eq'⟩ := @rerun_eq
        { { watching with scene, coalescer := {} }.observe with coalescer := {} } config transforms
      have quiet : scene'.host.journal = [] := by
        have same : relinkOutput { scene.host with journal := [] } config {} =
            (result.map Report.again, { scene.host with journal := [], ticket }) := by
          rw [host_eq]
          exact again
        rw [host_eq', observe]
        dsimp only
        rw [same]
      rw [second, ran']
      exact coalescer_observe quiet

end Watching
end Relink
