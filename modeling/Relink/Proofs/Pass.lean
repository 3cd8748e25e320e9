import Relink.Proofs.Attempt
import Relink.Proofs.Relinking

/-!
# What a pass does to its host

A pass writes relinked files and nothing else that lasts: directories, links and names stay as
they are. Its report tells which files were written, and those hold their relinked text in the
end. Every other tracked file holds what it held.
-/

namespace Relink

namespace Report

/-- The file that was written, if one was. -/
def writtenPath? : Except FailedWrite FileResult -> Option Path
  | .ok outcome => if outcome.written then some outcome.path else none
  | .error _ => none

/-- The file that could not be written, if one could not. -/
def failure? : Except FailedWrite FileResult -> Option FailedWrite
  | .ok _ => none
  | .error failure => some failure

/-- What a report tells of files, in the order of their results. -/
theorem foldl_record (results : List (Except FailedWrite FileResult)) (report : Report) :
    (results.foldl record report).skipped = report.skipped ∧
      (results.foldl record report).filesScanned = report.filesScanned + results.length ∧
      (results.foldl record report).written =
        report.written ++ results.filterMap writtenPath? ∧
      (results.foldl record report).failures =
        report.failures ++ results.filterMap failure? := by
  induction results generalizing report with
  | nil => simp
  | cons result results ih =>
    obtain ⟨skipped, scanned, written, failures⟩ := ih (report.record result)
    rw [List.foldl_cons, skipped, scanned, written, failures, List.filterMap_cons,
      List.filterMap_cons, List.length_cons]
    cases result with
    | ok outcome =>
      cases told : outcome.written <;> simp [record, writtenPath?, failure?, told] <;> omega
    | error failure =>
      simp [record, writtenPath?, failure?]
      omega

/-- A report without failures tells of no file that could not be written. -/
theorem ok_of_failures {results : List (Except FailedWrite FileResult)}
    (none_ : (results.foldl record {}).failures = []) :
    ∀ result ∈ results, ∃ outcome, result = .ok outcome := by
  obtain ⟨-, -, -, failures⟩ := foldl_record results {}
  rw [none_, eq_comm, List.nil_append, List.filterMap_eq_nil_iff] at failures
  intro result member
  cases result with
  | ok outcome => exact ⟨outcome, rfl⟩
  | error failure => exact absurd (failures _ member) (by simp [failure?])

end Report

namespace Snapshot

variable {host now after : Host} {config : Config} {layout : Layout} {snapshot : Snapshot}
  {output : List String} {out : Location} {written : List Path}

/-- The output directory of a snapshot: where it is written, and where it lies. -/
structure OutputAt (host : Host) (config : Config) (layout : Layout) (snapshot : Snapshot)
    (output : List String) (out : Location) : Prop where
  taken : Taken host config layout snapshot
  named : host.tree.Named
  areOutput : AreNames output
  output_eq : outputDirectory host config = Location.path output
  reached : host.tree.status host.directory (Location.path output) = .ok (out, .directory)
  free : host.tree.LinkFree out

/-- A snapshot has an output directory. -/
theorem exists_outputAt (taken : Taken host config layout snapshot) (named : host.tree.Named)
    (linkFree : ∀ out, host.tree.status host.directory (outputDirectory host config) =
      .ok (out, .directory) -> host.tree.LinkFree out) :
    ∃ output out, OutputAt host config layout snapshot output out := by
  obtain ⟨output, areOutput, output_eq⟩ := exists_outputDirectory host config
  have isDirectory := taken.isDirectory
  rw [Host.isDirectory, Tree.isDirectory] at isDirectory
  split at isDirectory
  · rename_i out reached
    have free := linkFree out reached
    rw [output_eq] at reached
    exact ⟨output, out, taken, named, areOutput, output_eq, reached, free⟩
  · cases isDirectory

/-- A tracked file lies below the output directory, where it is written. -/
theorem OutputAt.tracked (at_ : OutputAt host config layout snapshot output out) {task : Task}
    (member : task ∈ snapshot.tasks) :
    ∃ rest executable, IsTracked host layout output task.role task.file task.text rest ∧
      host.tree.status host.directory task.file =
        .ok (out ++ rest, .file task.text.toByteArray executable) := by
  obtain ⟨rest, isTracked⟩ :=
    at_.taken.isTracked at_.named at_.areOutput at_.output_eq (mem_tasks.1 member)
  obtain ⟨location, content, executable, found, decoded⟩ := readText_eq_ok_iff.1 isTracked.text
  have path_eq : task.file = Location.path (output ++ rest) := isTracked.path
  have resolved := Tree.status_eq_ok_iff.1 found
  dsimp only at resolved
  rw [path_eq] at resolved
  refine ⟨rest, executable, isTracked, ?_⟩
  rw [Utf8.toByteArray_of_text? decoded]
  dsimp only at found
  rw [found]
  rcases at_.free.resolve isTracked.areNames isTracked.ne_nil at_.reached true with
    ⟨cause, blocked⟩ | arrived
  · rw [blocked] at resolved
    cases resolved
  · rw [arrived] at resolved
    rw [(Place.mk.inj (Except.ok.inj resolved)).1]

/-- A tracked file is an entry of a directory below the output directory. -/
theorem OutputAt.seat (at_ : OutputAt host config layout snapshot output out) {task : Task}
    (member : task ∈ snapshot.tasks) :
    ∃ inner name, IsTracked host layout output task.role task.file task.text (inner ++ [name]) ∧
      Seat host task.file (output ++ inner) (out ++ inner) name := by
  obtain ⟨rest, executable, isTracked, found⟩ := at_.tracked member
  obtain ⟨inner, name, rfl⟩ := (List.eq_nil_or_concat rest).resolve_left isTracked.ne_nil
  rw [List.concat_eq_append] at isTracked found
  have areNames := isTracked.areNames
  have path_eq := isTracked.path
  rw [← List.append_assoc] at areNames path_eq
  refine ⟨inner, name, isTracked, areNames, path_eq,
    isUnicode_of_roleOf? areNames (path_eq ▸ isTracked.role),
    isTracked.areVisible name (by simp), ?_⟩
  by_cases top : inner = []
  · rw [top, List.append_nil, List.append_nil]
    exact at_.reached
  · rw [path_eq] at found
    obtain ⟨directory, reached⟩ := Tree.exists_status_outer areNames found
    rw [Tree.status_eq_ok_iff] at reached ⊢
    rcases at_.free.resolve areNames.left top at_.reached true with ⟨cause, blocked⟩ | arrived
    · rw [blocked] at reached
      cases reached
    · rw [arrived] at reached ⊢
      obtain ⟨rfl, entry⟩ := Place.mk.inj (Except.ok.inj reached)
      rw [entry]

/-- A file is told to be written when relinking changes its text. -/
theorem writtenPath?_outcomeOf (task : Task) :
    Report.writtenPath? (.ok (snapshot.outcomeOf task)) =
      if snapshot.changes task then some task.file else none :=
  rfl

/-! ## The run -/

/-- A file is tracked once. -/
theorem OutputAt.task_eq (at_ : OutputAt host config layout snapshot output out)
    {task other : Task} (member : task ∈ snapshot.tasks) (member' : other ∈ snapshot.tasks)
    (same : other.file = task.file) : other = task := by
  obtain ⟨rest, -, isTracked, -⟩ := at_.tracked member
  obtain ⟨rest', -, isTracked', -⟩ := at_.tracked member'
  have role := isTracked'.role
  have text := isTracked'.text
  rw [same] at role text
  obtain ⟨otherRole, otherFile, otherText⟩ := other
  obtain ⟨taskRole, taskFile, taskText⟩ := task
  obtain rfl : otherFile = taskFile := same
  obtain rfl : taskRole = otherRole := Option.some.inj (isTracked.role.symm.trans role)
  obtain rfl : taskText = otherText := Except.ok.inj (isTracked.text.symm.trans text)
  rfl

/-- The content of a tracked file that was written. -/
def IsRelinked (snapshot : Snapshot) (output : List String) (out : Location)
    (written : List Path) (location : Location) (content : ByteArray) : Prop :=
  ∃ task ∈ snapshot.tasks, task.file ∈ written ∧ ∃ rest, AreNames (output ++ rest) ∧
    task.file = Location.path (output ++ rest) ∧ location = out ++ rest ∧
    content = snapshot.contentOf task

/-- What lies at the place of a tracked file is written as the file's text only. -/
theorem OutputAt.isRelinked_iff (at_ : OutputAt host config layout snapshot output out)
    {task : Task} (member : task ∈ snapshot.tasks) {rest : List String}
    (isTracked : IsTracked host layout output task.role task.file task.text rest)
    {content : ByteArray} :
    IsRelinked snapshot output out written (out ++ rest) content ↔
      task.file ∈ written ∧ content = snapshot.contentOf task := by
  constructor
  · rintro ⟨other, member', told, rest', areNames, path_eq, located, rfl⟩
    obtain rfl := List.append_cancel_left located
    obtain rfl := at_.task_eq member member' (path_eq.trans isTracked.path.symm)
    exact ⟨told, rfl⟩
  · rintro ⟨told, rfl⟩
    exact ⟨task, member, told, rest, isTracked.areNames, isTracked.path, rfl, rfl⟩

/-- Whether a tracked file holds its relinked text. -/
def Holds (snapshot : Snapshot) (output : List String) (out : Location) (tree : Tree)
    (task : Task) : Prop :=
  ∃ rest executable, AreNames (output ++ rest) ∧ task.file = Location.path (output ++ rest) ∧
    tree.lookup (out ++ rest) = some (.file (snapshot.contentOf task) executable)

/-- What lies where a tracked file is that holds its relinked text. -/
theorem Holds.lookup {tree : Tree} {task : Task} (holds : Holds snapshot output out tree task)
    {rest : List String}
    (isTracked : IsTracked host layout output task.role task.file task.text rest) :
    ∃ executable, tree.lookup (out ++ rest) =
      some (.file (snapshot.contentOf task) executable) := by
  obtain ⟨rest', executable, areNames, same, found⟩ := holds
  obtain rfl := isTracked.rest_eq areNames same
  exact ⟨executable, found⟩

/-- Whether a location is the one of a temporary file through which a file was written, by a host
that has taken `ticket` names in the end. -/
def IsSpent (snapshot : Snapshot) (output : List String) (out : Location) (written : List Path)
    (host : Host) (ticket : Nat) (location : Location) : Prop :=
  ∃ task ∈ snapshot.tasks, task.file ∈ written ∧ ∃ inner name number,
    AreNames (output ++ (inner ++ [name])) ∧
    task.file = Location.path (output ++ (inner ++ [name])) ∧
    host.ticket ≤ number ∧ number < ticket ∧
    location = out ++ inner ++ [Host.temporaryName name host.processId number]

/-- A temporary file that a pass spent bears a name for a ticket of the pass. -/
theorem IsSpent.isTemporary {ticket : Nat} {location : Location}
    (spent : IsSpent snapshot output out written host ticket location) :
    IsTemporary host.processId host.ticket location := by
  obtain ⟨-, -, -, inner, name, number, -, -, taken, -, located⟩ := spent
  exact ⟨out ++ inner, name, number, taken, located⟩

/-- What is spent stays spent as more is written. -/
theorem IsSpent.mono {ticket ticket' : Nat} {location : Location}
    (spent : IsSpent snapshot output out written host ticket location) {more : List Path}
    (within : ∀ file ∈ written, file ∈ more) (later : ticket ≤ ticket') :
    IsSpent snapshot output out more host ticket' location := by
  obtain ⟨task, member, told, inner, name, number, areNames, path_eq, taken, used, located⟩ :=
    spent
  exact ⟨task, member, within _ told, inner, name, number, areNames, path_eq, taken,
    used.trans_le later, located⟩

/-- What a part of a pass has done to its host. The files that it told were written are
`written`. -/
structure Progress (snapshot : Snapshot) (output : List String) (out : Location)
    (written : List Path) (host now : Host) : Prop where
  directory : now.directory = host.directory
  processId : now.processId = host.processId
  ticket : host.ticket ≤ now.ticket
  spends : Tree.Rewrites (IsSpent snapshot output out written host now.ticket)
    (IsRelinked snapshot output out written) host.tree now.tree
  holds : ∀ task ∈ snapshot.tasks, task.file ∈ written ->
    Holds snapshot output out now.tree task
  /-- A file can be run only if it could be, or if one could be that bore a temporary name. -/
  runnable : ∀ location content, now.tree.lookup location = some (.file content true) ->
    host.tree.lookup location = some (.file content true) ∨
      ∃ temporary, IsSpent snapshot output out written host now.ticket temporary ∧
        host.tree.isExecutableAt temporary = true

/-- A pass begins with nothing written. -/
theorem Progress.start : Progress snapshot output out [] host host :=
  ⟨rfl, rfl, le_refl _, .refl, fun _ _ impossible => absurd impossible List.not_mem_nil,
    fun _ _ found => .inl found⟩

/-- What was done up to now rewrites the tree. -/
theorem Progress.rewrites (progress : Progress snapshot output out written host now) :
    Tree.Rewrites (IsTemporary host.processId host.ticket)
      (IsRelinked snapshot output out written) host.tree now.tree :=
  progress.spends.mono (fun _ => IsSpent.isTemporary) fun _ _ => id

/-- A visible location is not one of a temporary file. -/
theorem not_isTemporary {processId ticket : Nat} {rest : List String} (filled : rest ≠ [])
    (areVisible : Tree.AreVisible rest) : ¬IsTemporary processId ticket (out ++ rest) := by
  intro temporary
  exact areVisible.not_isHidden filled out temporary.isHidden

/-- What lies where a tracked file is, while a pass runs: the file as it was, or relinked. -/
theorem OutputAt.lookup (at_ : OutputAt host config layout snapshot output out)
    {ticket : Nat} {tree : Tree}
    (rewrites : Tree.Rewrites (IsTemporary host.processId ticket)
      (IsRelinked snapshot output out written) host.tree tree)
    {task : Task} (member : task ∈ snapshot.tasks) {rest : List String}
    (isTracked : IsTracked host layout output task.role task.file task.text rest) :
    ∃ content executable, tree.lookup (out ++ rest) = some (.file content executable) ∧
      tree.status host.directory task.file = .ok (out ++ rest, .file content executable) ∧
      (content = task.text.toByteArray ∨
        task.file ∈ written ∧ content = snapshot.contentOf task) := by
  obtain ⟨rest', executable, isTracked', found⟩ := at_.tracked member
  obtain rfl := isTracked.rest_eq isTracked'.areNames isTracked'.path
  obtain ⟨content, executable', there, status, was⟩ := rewrites.status_file found
    (not_isTemporary isTracked.ne_nil isTracked.areVisible)
  refine ⟨content, executable', there, status, was.imp_right fun new => ?_⟩
  exact (at_.isRelinked_iff member isTracked).1 new

/-- A seat stays where it is while a pass runs. -/
theorem Progress.seat (progress : Progress snapshot output out written host now) {file : Path}
    {outer : List String} {directory : Location} {name : String}
    (seat : Seat host file outer directory name) : Seat now file outer directory name := by
  refine ⟨seat.areNames, seat.path, seat.isUnicode, seat.visible, ?_⟩
  rw [progress.directory]
  exact progress.rewrites.status_directory seat.reached

/-- No link bears the name of a temporary file, while a pass runs. -/
theorem OutputAt.solid (at_ : OutputAt host config layout snapshot output out)
    (progress : Progress snapshot output out written host now) (inner : List String)
    (name : String) (target : Path) :
    now.tree.lookup (now.temporaryAt (out ++ inner) name) ≠ some (.link target) := by
  rw [Host.temporaryAt, List.append_assoc]
  exact progress.rewrites.linkFree at_.free _ target (by simp)

/-- What relinking a file comes to, while a pass runs. -/
theorem OutputAt.attempt (at_ : OutputAt host config layout snapshot output out)
    (progress : Progress snapshot output out written host now) {task : Task}
    (member : task ∈ snapshot.tasks) {inner : List String} {name : String}
    (isTracked : IsTracked host layout output task.role task.file task.text (inner ++ [name]))
    (seat : Seat host task.file (output ++ inner) (out ++ inner) name) :
    Attempt snapshot task (output ++ inner) (out ++ inner) name now
      (snapshot.attempt now task).1 (snapshot.attempt now task).2 := by
  refine (progress.seat seat).attempt ?_ (at_.solid progress inner name)
  obtain ⟨content, executable, there, -⟩ := at_.lookup progress.rewrites member isTracked
  rw [List.append_assoc, there]
  simp

/-- What is relinked stays relinked as more is written. -/
theorem IsRelinked.mono {location : Location} {content : ByteArray}
    (isRelinked : IsRelinked snapshot output out written location content) {more : List Path}
    (within : ∀ file ∈ written, file ∈ more) :
    IsRelinked snapshot output out more location content := by
  obtain ⟨task, member, told, rest⟩ := isRelinked
  exact ⟨task, member, within _ told, rest⟩

/-- The name of the temporary file for an entry is taken for one. -/
theorem Progress.isTemporary (progress : Progress snapshot output out written host now)
    (directory : Location) (name : String) :
    IsTemporary host.processId host.ticket (now.temporaryAt directory name) :=
  ⟨directory, name, now.ticket, progress.ticket, by rw [Host.temporaryAt, progress.processId]⟩

/-- Once a file is replaced, it holds its relinked text, and those that did go on to do so. -/
theorem OutputAt.holds_replaced (at_ : OutputAt host config layout snapshot output out)
    (progress : Progress snapshot output out written host now) {task : Task}
    (member : task ∈ snapshot.tasks) {inner : List String} {name : String}
    (isTracked : IsTracked host layout output task.role task.file task.text (inner ++ [name]))
    {other : Task} (member' : other ∈ snapshot.tasks) (told : other.file ∈ written ++ [task.file]) :
    Holds snapshot output out
      (now.replaced (out ++ inner) name (snapshot.contentOf task)) other := by
  have located : out ++ inner ++ [name] = out ++ (inner ++ [name]) := List.append_assoc ..
  obtain ⟨rest, -, isTracked', -⟩ := at_.tracked member'
  by_cases same : other.file = task.file
  · obtain rfl := at_.task_eq member member' same
    refine ⟨inner ++ [name], now.tree.isExecutableAt (now.temporaryAt (out ++ inner) name),
      isTracked.areNames, isTracked.path, ?_⟩
    rw [Host.lookup_replaced, if_pos located.symm]
  · have known : other.file ∈ written := by
      rw [List.mem_append, List.mem_singleton] at told
      exact told.resolve_right same
    obtain ⟨executable, found⟩ := (progress.holds other member' known).lookup isTracked'
    refine ⟨rest, executable, isTracked'.areNames, isTracked'.path, ?_⟩
    have elsewhere : out ++ rest ≠ out ++ inner ++ [name] := by
      rw [located, ne_eq, List.append_right_inj]
      rintro rfl
      exact same (isTracked'.path.trans isTracked.path.symm)
    have shown : out ++ rest ≠ now.temporaryAt (out ++ inner) name := by
      intro hidden
      exact not_isTemporary isTracked'.ne_nil isTracked'.areVisible
        (hidden ▸ progress.isTemporary (out ++ inner) name)
    rw [Host.lookup_replaced, if_neg elsewhere, if_neg shown, found]

/-- A file can be run only if it could before, also as more is written. -/
theorem Progress.runnable_mono (progress : Progress snapshot output out written host now)
    {location : Location} {content : ByteArray}
    (found : now.tree.lookup location = some (.file content true)) {more : List Path}
    (within : ∀ file ∈ written, file ∈ more) :
    host.tree.lookup location = some (.file content true) ∨
      ∃ temporary, IsSpent snapshot output out more host (now.ticket + 1) temporary ∧
        host.tree.isExecutableAt temporary = true := by
  refine (progress.runnable location content found).imp_right ?_
  rintro ⟨temporary, spent, runs⟩
  exact ⟨temporary, spent.mono within (Nat.le_succ _), runs⟩

/-- After one more file is replaced, a file can be run only if it could before. -/
theorem Progress.runnable_replaced (progress : Progress snapshot output out written host now)
    {directory location : Location} {name : String} {bytes content : ByteArray}
    (found : (now.replaced directory name bytes).lookup location = some (.file content true))
    {more : List Path} (within : ∀ file ∈ written, file ∈ more)
    (spent : IsSpent snapshot output out more host (now.ticket + 1)
      (now.temporaryAt directory name)) :
    host.tree.lookup location = some (.file content true) ∨
      ∃ temporary, IsSpent snapshot output out more host (now.ticket + 1) temporary ∧
        host.tree.isExecutableAt temporary = true := by
  rw [Host.lookup_replaced] at found
  split at found
  · obtain ⟨-, executable⟩ := Entry.file.inj (Option.some.inj found)
    unfold Tree.isExecutableAt at executable
    split at executable
    · rename_i old executable' bears
      subst executable
      rcases progress.runnable_mono bears within with bore | other
      · exact .inr ⟨_, spent, by rw [Tree.isExecutableAt, bore]⟩
      · exact .inr other
    · cases executable
  · split at found
    · cases found
    · exact progress.runnable_mono found within

/-- Replacing a file takes a pass further. -/
theorem OutputAt.replaced (at_ : OutputAt host config layout snapshot output out)
    (progress : Progress snapshot output out written host now) {task : Task}
    (member : task ∈ snapshot.tasks) {inner : List String} {name : String}
    (isTracked : IsTracked host layout output task.role task.file task.text (inner ++ [name]))
    (open_ : now.refusal? (out ++ inner) (output ++ inner) name = none) (journal : List Change) :
    Progress snapshot output out (written ++ [task.file]) host
      { now with
        tree := now.replaced (out ++ inner) name (snapshot.contentOf task)
        ticket := now.ticket + 1
        journal } := by
  obtain ⟨content, executable, there, -⟩ := at_.lookup progress.rewrites member isTracked
  rw [← List.append_assoc] at there
  have step := @Host.rewrites_replaced now _ _ _ (snapshot.contentOf task) _ _ there open_
  have within : ∀ file ∈ written, file ∈ written ++ [task.file] :=
    fun file told => List.mem_append_left _ told
  have spent : IsSpent snapshot output out (written ++ [task.file]) host (now.ticket + 1)
      (now.temporaryAt (out ++ inner) name) :=
    ⟨task, member, by simp, inner, name, now.ticket, isTracked.areNames, isTracked.path,
      progress.ticket, Nat.lt_succ_self _, by rw [Host.temporaryAt, progress.processId]⟩
  refine ⟨progress.directory, progress.processId, progress.ticket.trans (Nat.le_succ _), ?_,
    fun other member' told => at_.holds_replaced progress member isTracked member' told,
    fun location content found => progress.runnable_replaced found within spent⟩
  have before := progress.spends.mono (fun _ spent => spent.mono within (Nat.le_succ _))
    fun _ _ new => new.mono within
  refine before.trans (step.mono ?_ ?_)
  · rintro _ rfl
    exact spent
  · rintro _ _ ⟨rfl, rfl⟩
    rw [List.append_assoc, at_.isRelinked_iff member isTracked]
    exact ⟨by simp, rfl⟩

/-- Relinking a file takes a pass further. -/
theorem OutputAt.progress (at_ : OutputAt host config layout snapshot output out)
    (progress : Progress snapshot output out written host now) {task : Task}
    (member : task ∈ snapshot.tasks) :
    Progress snapshot output out
      (written ++ (Report.writtenPath? (snapshot.attempt now task).1).toList) host
      (snapshot.attempt now task).2 := by
  obtain ⟨inner, name, isTracked, seat⟩ := at_.seat member
  have attempted := at_.attempt progress member isTracked seat
  generalize (snapshot.attempt now task).1 = result at attempted ⊢
  generalize (snapshot.attempt now task).2 = after at attempted ⊢
  cases attempted with
  | kept same =>
    rw [writtenPath?_outcomeOf, same, if_neg (by decide), Option.toList_none, List.append_nil]
    exact progress
  | refused _ _ =>
    rw [Report.writtenPath?, Option.toList_none, List.append_nil]
    have spends := progress.spends.mono
      (fun _ spent => spent.mono (fun _ => id) (Nat.le_succ now.ticket)) fun _ _ => id
    exact ⟨progress.directory, progress.processId, progress.ticket.trans (Nat.le_succ _), spends,
      progress.holds, fun _ _ found => progress.runnable_mono found fun _ => id⟩
  | replaced differs open_ =>
    rw [writtenPath?_outcomeOf, differs, if_pos rfl, Option.toList_some]
    exact at_.replaced progress member isTracked open_ _

/-- What relinking any file preserves, when its result is told, holds after files were relinked. -/
theorem relinkTasks_induction {invariant : List Path -> Host -> Prop}
    (step : ∀ written now, ∀ task ∈ snapshot.tasks, invariant written now ->
      invariant (written ++ (Report.writtenPath? (snapshot.attempt now task).1).toList)
        (snapshot.attempt now task).2)
    {todo : List Task} (among : ∀ task ∈ todo, task ∈ snapshot.tasks)
    (holds : invariant written now) :
    invariant (written ++ (snapshot.relinkTasks now todo).1.filterMap Report.writtenPath?)
      (snapshot.relinkTasks now todo).2 := by
  induction todo generalizing now written with
  | nil =>
    rw [Snapshot.relinkTasks, List.filterMap_nil, List.append_nil]
    exact holds
  | cons task todo ih =>
    obtain ⟨member, among⟩ := List.forall_mem_cons.1 among
    have last := ih among (step written now task member holds)
    rw [relinkTasks_cons, List.filterMap_cons]
    cases told : Report.writtenPath? (snapshot.attempt now task).1 with
    | none => simpa [told] using last
    | some file => simpa [told] using last

/-- Relinking files takes a pass as far as their results tell. -/
theorem OutputAt.relinkTasks (at_ : OutputAt host config layout snapshot output out)
    {todo : List Task} (among : ∀ task ∈ todo, task ∈ snapshot.tasks) :
    Progress snapshot output out
      ((snapshot.relinkTasks host todo).1.filterMap Report.writtenPath?) host
      (snapshot.relinkTasks host todo).2 := by
  have step : ∀ written now, ∀ task ∈ snapshot.tasks,
      Progress snapshot output out written host now ->
        Progress snapshot output out
          (written ++ (Report.writtenPath? (snapshot.attempt now task).1).toList) host
          (snapshot.attempt now task).2 :=
    fun _ _ _ member progress => at_.progress progress member
  exact relinkTasks_induction step among .start

/-- What a pass has done in the end, and what it tells. -/
theorem OutputAt.pass (at_ : OutputAt host config layout snapshot output out) {report : Report}
    (done : snapshot.relinkAll host = (report, after)) :
    ∃ results, List.Forall₂ (Tells snapshot) snapshot.tasks results ∧
      report = results.foldl Report.record {} ∧
      Progress snapshot output out report.written host after := by
  rw [relinkAll_eq] at done
  obtain ⟨rfl, rfl⟩ := Prod.mk.inj done
  refine ⟨_, forall₂_relinkTasks host snapshot.tasks, rfl, ?_⟩
  rw [(Report.foldl_record _ {}).2.2.1]
  exact at_.relinkTasks fun _ => id

/-- What a tracked file holds after a pass. -/
theorem OutputAt.readBytes (at_ : OutputAt host config layout snapshot output out)
    {written : List Path} (progress : Progress snapshot output out written host after)
    {task : Task} (member : task ∈ snapshot.tasks) :
    after.readBytes task.file =
      .ok (if task.file ∈ written then snapshot.contentOf task else task.text.toByteArray) := by
  obtain ⟨rest, -, isTracked, -⟩ := at_.tracked member
  obtain ⟨content, executable, there, status, was⟩ :=
    at_.lookup progress.rewrites member isTracked
  rw [Host.readBytes, Tree.read, progress.directory, status]
  dsimp only
  split
  · rename_i told
    obtain ⟨executable', holds⟩ := (progress.holds task member told).lookup isTracked
    obtain ⟨rfl, -⟩ := Entry.file.inj (Option.some.inj (there.symm.trans holds))
    rfl
  · rename_i silent
    rw [was.resolve_right fun ⟨told, _⟩ => silent told]

end Snapshot

/-- A pass that was not skipped has taken a snapshot. -/
theorem exists_take_of_relinkOutput {host after : Host} {config : Config} {layout : Layout}
    {report : Report} (done : relinkOutput host config layout = (.ok report, after))
    (ran : report.isSkipped = false) :
    ∃ snapshot, Snapshot.take host config layout = .ok snapshot ∧
      snapshot.relinkAll host = (report, after) := by
  unfold relinkOutput at done
  split at done
  · rename_i snapshot taken
    obtain ⟨same, rfl⟩ := Prod.mk.inj done
    obtain rfl := Except.ok.inj same
    exact ⟨snapshot, taken, rfl⟩
  · split at done
    · obtain ⟨same, -⟩ := Prod.mk.inj done
      obtain rfl := Except.ok.inj same
      cases ran
    · cases done

/-- A pass that takes a snapshot relinks its files. -/
theorem relinkOutput_of_take {host after : Host} {config : Config} {layout : Layout}
    {snapshot : Snapshot} {report : Report}
    (taken : Snapshot.take host config layout = .ok snapshot)
    (all : snapshot.relinkAll host = (report, after)) :
    relinkOutput host config layout = (.ok report, after) := by
  unfold relinkOutput
  split
  · rename_i snapshot' taken'
    obtain rfl := Except.ok.inj (taken.symm.trans taken')
    rw [all]
  · rename_i problem failed
    rw [taken] at failed
    cases failed

/-- A pass that takes no snapshot does nothing. -/
theorem relinkOutput_of_error {host : Host} {config : Config} {layout : Layout} {problem : Problem}
    (failed : Snapshot.take host config layout = .error problem) :
    relinkOutput host config layout =
      (if problem.isSoft then .ok (Report.ofSkipped problem.message) else .error problem,
        host) := by
  unfold relinkOutput
  rw [failed]
  dsimp only
  split <;> rfl

/-- What a pass over the small package tells. -/
def sampleReport : Report where
  filesScanned := 3
  replacements := 2
  written := [⟨"/p/dist/index.d.ts"⟩, ⟨"/p/dist/index.js"⟩]

theorem Snapshot.samplePackage_linkFree (base : Location) : samplePackage.tree.LinkFree base :=
  Tree.linkFree_of_entries (by simp [samplePackage]) base

theorem samplePackage_relinkOutput :
    relinkOutput Snapshot.samplePackage Snapshot.sampleConfig {} =
      (.ok sampleReport, (Snapshot.sampleSnapshot.relinkAll Snapshot.samplePackage).2) := by
  have told : (Snapshot.sampleSnapshot.relinkAll Snapshot.samplePackage).1 = sampleReport := by
    decide +kernel
  rw [← told]
  exact relinkOutput_of_take Snapshot.samplePackage_take Prod.mk.eta.symm

end Relink
