import Relink.Proofs.Host.Writing
import Relink.Report

/-!
# Relinking one file

A file whose text relinking does not change is not touched. Any other one is replaced as a whole,
or it cannot be, and stays as it is. Which of these happens is decided by the text that the
snapshot holds and by what bears the name of the temporary file.
-/

namespace Relink

namespace Snapshot

/-- A tracked file, with the text that a snapshot holds of it. -/
structure Task where
  role : FileRole
  file : Path
  text : String
deriving DecidableEq, Repr

/-- The tracked files of a role. -/
def tasksOf (snapshot : Snapshot) (role : FileRole) : List Task :=
  (snapshot.tracked role).files.map fun (file, text) => ⟨role, file, text⟩

/-- Every tracked file, declarations first. -/
def tasks (snapshot : Snapshot) : List Task :=
  snapshot.tasksOf .declaration ++ snapshot.tasksOf .script

/-- The text of a tracked file after relinking. -/
def relinkTask (snapshot : Snapshot) (task : Task) : RelinkedText :=
  snapshot.relinkText task.role task.file task.text

/-- What a tracked file holds once it was written. -/
def contentOf (snapshot : Snapshot) (task : Task) : ByteArray :=
  (snapshot.relinkTask task).text.toByteArray

/-- Whether relinking changes the text of a tracked file. -/
def changes (snapshot : Snapshot) (task : Task) : Bool :=
  (snapshot.relinkTask task).text != task.text

/-- A file whose text changes holds something else once it was written. -/
theorem contentOf_ne {snapshot : Snapshot} {task : Task} (differs : snapshot.changes task = true) :
    snapshot.contentOf task ≠ task.text.toByteArray := by
  intro same
  have decoded := congrArg Utf8.text? same
  rw [contentOf, Utf8.text?_toByteArray, Utf8.text?_toByteArray] at decoded
  rw [changes, Option.some.inj decoded, bne_self_eq_false] at differs
  cases differs

/-- What is told of a tracked file that is as it should be. -/
def outcomeOf (snapshot : Snapshot) (task : Task) : FileResult where
  path := task.file
  role := task.role
  replacements := (snapshot.relinkTask task).replacements
  written := snapshot.changes task
  warnings := (snapshot.relinkTask task).warnings

/-- Relink a tracked file. -/
def attempt (snapshot : Snapshot) (host : Host) (task : Task) :
    Except FailedWrite FileResult × Host :=
  snapshot.relinkFile host task.role task.file task.text

/-- Relink tracked files one after the other. -/
def relinkTasks (snapshot : Snapshot) (host : Host) :
    List Task -> List (Except FailedWrite FileResult) × Host
  | [] => ([], host)
  | task :: rest =>
    let (result, next) := snapshot.attempt host task
    let (results, last) := snapshot.relinkTasks next rest
    (result :: results, last)

variable {snapshot : Snapshot} {task : Task}

/-- What relinking a tracked file comes to is what writing it comes to, if its text changes. -/
theorem attempt_eq (host : Host) (task : Task) :
    snapshot.attempt host task =
      if snapshot.changes task then
        match host.writeWhole task.file (snapshot.contentOf task) with
        | (.ok (), after) => (.ok (snapshot.outcomeOf task), after)
        | (.error cause, after) => (.error ⟨task.file, cause.message⟩, after)
      else (.ok (snapshot.outcomeOf task), host) := by
  unfold attempt relinkFile outcomeOf contentOf changes relinkTask
  generalize snapshot.relinkText task.role task.file task.text = relinked
  refine if_congr Iff.rfl ?_ rfl
  generalize host.writeWhole task.file relinked.text.toByteArray = written
  obtain ⟨result, after⟩ := written
  cases result <;> rfl

/-- A host after a tracked file was relinked. -/
theorem attempt_snd (host : Host) (task : Task) :
    (snapshot.attempt host task).2 =
      if snapshot.changes task then (host.writeWhole task.file (snapshot.contentOf task)).2
      else host := by
  rw [attempt_eq]
  cases snapshot.changes task with
  | false => rfl
  | true =>
    rw [if_pos rfl, if_pos rfl]
    obtain ⟨result, after⟩ := host.writeWhole task.file (snapshot.contentOf task)
    cases result <;> rfl

/-- Relinking a file takes one name at most. -/
theorem ticket_attempt (host : Host) (task : Task) :
    (snapshot.attempt host task).2.ticket ≤ host.ticket + 1 := by
  rw [attempt_snd]
  split
  · exact (host.ticket_writeWhole task.file).le
  · exact Nat.le_succ _

/-- An attempt gives no ticket back. -/
theorem le_ticket_attempt (host : Host) (task : Task) :
    host.ticket ≤ (snapshot.attempt host task).2.ticket := by
  rw [attempt_snd]
  split
  · rw [host.ticket_writeWhole task.file]
    exact Nat.le_succ _
  · exact le_refl _

/-- Tasks for files of one role are carried out as these files are relinked. -/
theorem relinkTasks_map (role : FileRole) (host : Host) (files : List (Path × String)) :
    snapshot.relinkTasks host (files.map fun (file, text) => ⟨role, file, text⟩) =
      snapshot.relinkFiles role host files := by
  induction files generalizing host with
  | nil => rfl
  | cons pair files ih =>
    simp only [List.map_cons, relinkTasks, relinkFiles, ih]
    rfl

/-- Tasks behind tasks are carried out after them. -/
theorem relinkTasks_append (host : Host) (tasks later : List Task) :
    snapshot.relinkTasks host (tasks ++ later) =
      ((snapshot.relinkTasks host tasks).1 ++
        (snapshot.relinkTasks (snapshot.relinkTasks host tasks).2 later).1,
      (snapshot.relinkTasks (snapshot.relinkTasks host tasks).2 later).2) := by
  induction tasks generalizing host with
  | nil => rfl
  | cons task tasks ih =>
    simp only [List.cons_append, relinkTasks, ih]

/-- Relinking all files is relinking them one after the other, and making a report of it. -/
theorem relinkAll_eq (host : Host) :
    snapshot.relinkAll host =
      ((snapshot.relinkTasks host snapshot.tasks).1.foldl Report.record {},
        (snapshot.relinkTasks host snapshot.tasks).2) := by
  have declared := @relinkTasks_map snapshot .declaration host snapshot.declarations.files
  rw [relinkAll, tasks, relinkTasks_append]
  unfold tasksOf
  rw [show (snapshot.tracked .declaration).files = snapshot.declarations.files from rfl,
    show (snapshot.tracked .script).files = snapshot.scripts.files from rfl, declared,
    relinkTasks_map]

/-- The tasks of a role are its files. -/
theorem mem_tasksOf {role : FileRole} :
    task ∈ snapshot.tasksOf role ↔
      task.role = role ∧ (task.file, task.text) ∈ (snapshot.tracked role).files := by
  obtain ⟨taskRole, file, text⟩ := task
  rw [tasksOf, List.mem_map]
  constructor
  · rintro ⟨pair, member, same⟩
    cases same
    exact ⟨rfl, member⟩
  · rintro ⟨rfl, member⟩
    exact ⟨(file, text), member, rfl⟩

/-- The tasks of a snapshot are its files. -/
theorem mem_tasks :
    task ∈ snapshot.tasks ↔ (task.file, task.text) ∈ (snapshot.tracked task.role).files := by
  rw [tasks, List.mem_append, mem_tasksOf, mem_tasksOf]
  constructor
  · rintro (⟨same, member⟩ | ⟨same, member⟩)
    · rwa [same]
    · rwa [same]
  · intro member
    cases same : task.role with
    | declaration => exact .inl ⟨rfl, by rwa [same] at member⟩
    | script => exact .inr ⟨rfl, by rwa [same] at member⟩

/-- A tracked file as an entry of a directory: the path of the directory, where the directory lies,
and the name of the entry there. The entry may be a link. -/
structure Seat (host : Host) (file : Path) (outer : List String) (directory : Location)
    (name : String) : Prop where
  areNames : AreNames (outer ++ [name])
  path : file = Location.path (outer ++ [name])
  isUnicode : Name.isUnicode name = true
  visible : isHiddenName name = false
  reached : host.tree.status host.directory (Location.path outer) = .ok (directory, .directory)

/-- What relinking a file can come to. -/
inductive Attempt (snapshot : Snapshot) (task : Task) (outer : List String)
    (directory : Location) (name : String) (now : Host) :
    Except FailedWrite FileResult -> Host -> Prop
  | kept (same : snapshot.changes task = false) :
      Attempt snapshot task outer directory name now (.ok (snapshot.outcomeOf task)) now
  | refused {cause : Cause} (differs : snapshot.changes task = true)
      (refusal : now.refusal? directory outer name = some cause) :
      Attempt snapshot task outer directory name now (.error ⟨task.file, cause.message⟩)
        { now with ticket := now.ticket + 1 }
  | replaced {journal : List Change} (differs : snapshot.changes task = true)
      (open_ : now.refusal? directory outer name = none) :
      Attempt snapshot task outer directory name now (.ok (snapshot.outcomeOf task))
        { now with
          tree := now.replaced directory name (snapshot.contentOf task)
          ticket := now.ticket + 1
          journal }

/-- Relinking a file that is an entry of a directory. Neither is the entry a directory, nor is
there a link that bears the name of the temporary file. -/
theorem Seat.attempt {now : Host} {outer : List String} {directory : Location} {name : String}
    (seat : Seat now task.file outer directory name)
    (there : now.tree.lookup (directory ++ [name]) ≠ some .directory)
    (solid : ∀ target, now.tree.lookup (now.temporaryAt directory name) ≠ some (.link target)) :
    Attempt snapshot task outer directory name now (snapshot.attempt now task).1
      (snapshot.attempt now task).2 := by
  rw [attempt_eq]
  cases differs : snapshot.changes task with
  | false =>
    rw [if_neg (by decide)]
    exact .kept differs
  | true =>
    rw [if_pos rfl]
    cases refusal : now.refusal? directory outer name with
    | some cause =>
      have failed := @Host.writeWhole_refused now directory outer name (snapshot.contentOf task)
        cause seat.areNames seat.reached solid refusal
      rw [← seat.path] at failed
      rw [failed]
      exact .refused differs refusal
    | none =>
      obtain ⟨journal, done⟩ := @Host.writeWhole_replaces now directory outer name
        (snapshot.contentOf task) seat.areNames seat.isUnicode seat.reached there refusal
      rw [← seat.path] at done
      rw [done]
      exact .replaced differs refusal

/-- What can be told of a tracked file. -/
inductive Tells (snapshot : Snapshot) (task : Task) : Except FailedWrite FileResult -> Prop
  | ok : Tells snapshot task (.ok (snapshot.outcomeOf task))
  | failed (cause : Cause) (differs : snapshot.changes task = true) :
      Tells snapshot task (.error ⟨task.file, cause.message⟩)

/-- Whatever becomes of a tracked file is told of it. -/
theorem tells_attempt (host : Host) (task : Task) :
    Tells snapshot task (snapshot.attempt host task).1 := by
  rw [attempt_eq]
  cases differs : snapshot.changes task with
  | false =>
    rw [if_neg (by decide)]
    exact .ok
  | true =>
    rw [if_pos rfl]
    obtain ⟨result, after⟩ := host.writeWhole task.file (snapshot.contentOf task)
    cases result with
    | ok done => exact .ok
    | error cause => exact .failed cause differs

/-- The first task is carried out before the others. -/
theorem relinkTasks_cons (host : Host) (task : Task) (todo : List Task) :
    snapshot.relinkTasks host (task :: todo) =
      ((snapshot.attempt host task).1 ::
        (snapshot.relinkTasks (snapshot.attempt host task).2 todo).1,
      (snapshot.relinkTasks (snapshot.attempt host task).2 todo).2) :=
  rfl

/-- Relinking files takes one name for each of them at most. -/
theorem ticket_relinkTasks (host : Host) (todo : List Task) :
    (snapshot.relinkTasks host todo).2.ticket ≤ host.ticket + todo.length := by
  induction todo generalizing host with
  | nil => exact le_refl _
  | cons task todo ih =>
    have taken := @ticket_attempt snapshot host task
    have others := ih (snapshot.attempt host task).2
    rw [relinkTasks_cons, List.length_cons]
    change (snapshot.relinkTasks (snapshot.attempt host task).2 todo).2.ticket ≤ _
    omega

/-- Carrying out tasks gives no ticket back. -/
theorem le_ticket_relinkTasks (host : Host) (todo : List Task) :
    host.ticket ≤ (snapshot.relinkTasks host todo).2.ticket := by
  induction todo generalizing host with
  | nil => exact le_refl _
  | cons task todo ih =>
    have taken := @le_ticket_attempt snapshot host task
    have others := ih (snapshot.attempt host task).2
    rw [relinkTasks_cons]
    exact taken.trans others

/-- Every file has its result. -/
theorem forall₂_relinkTasks (host : Host) (todo : List Task) :
    List.Forall₂ (Tells snapshot) todo (snapshot.relinkTasks host todo).1 := by
  induction todo generalizing host with
  | nil => exact .nil
  | cons task todo ih => exact .cons (tells_attempt host task) (ih _)

end Snapshot
end Relink
