import Relink.Proofs.Repetition
import Relink.Proofs.Trace
import Relink.Proofs.Tracked

/-!
# Pass after pass

In a tree without links a pass leaves fewer files that relinking changes: those that it has
written. One that it could not write it cannot write the next time either, because the name of the
temporary file is too long, and such names do not get shorter. Only a directory that bears the
name is in the way once and not again.
-/

namespace Relink

/-- Whether no directory bears a name that a host may still take for a temporary file. -/
def Host.IsClear (host : Host) : Prop :=
  ∀ location, IsTemporary host.processId host.ticket location ->
    host.tree.lookup location ≠ some .directory

namespace Snapshot

variable {host now after : Host} {config : Config} {snapshot : Snapshot} {output : List String}
  {out : Location} {written : List Path} {task : Task}

/-- A snapshot is taken of the tree, and not of what happened to it. -/
theorem take_journal (host : Host) (config : Config) (layout : Layout) (journal : List Change) :
    take { host with journal } config layout = take host config layout := by
  have absolute (path : Path) : { host with journal }.absolutize path = host.absolutize path := rfl
  have output : outputDirectory { host with journal } config = outputDirectory host config := rfl
  have isDirectory (path : Path) : { host with journal }.isDirectory path = host.isDirectory path :=
    rfl
  have manifest (path : Path) : readManifest { host with journal } path = readManifest host path :=
    rfl
  have files (path : Path) : listOutput { host with journal } path = listOutput host path := rfl
  have texts (paths : List Path) : readFiles { host with journal } paths = readFiles host paths :=
    rfl
  unfold take
  simp only [absolute, output, isDirectory, manifest, files, texts]

/-! ## Writes that fail -/

/-- Every result is what relinking the file comes to while the pass runs. -/
theorem OutputAt.forall₂_attempt (at_ : OutputAt host config {} snapshot output out)
    (progress : Progress snapshot output out written host now) {todo : List Task}
    (among : ∀ task ∈ todo, task ∈ snapshot.tasks) :
    List.Forall₂ (fun task result => ∃ written between,
        Progress snapshot output out written host between ∧
        between.ticket ≤ (snapshot.relinkTasks now todo).2.ticket ∧
        (snapshot.attempt between task).1 = result)
      todo (snapshot.relinkTasks now todo).1 := by
  induction todo generalizing now written with
  | nil => exact .nil
  | cons task todo ih =>
    obtain ⟨member, among⟩ := List.forall_mem_cons.1 among
    have later := @le_ticket_relinkTasks snapshot now (task :: todo)
    have rest := ih (at_.progress progress member) among
    rw [relinkTasks_cons] at later ⊢
    exact .cons ⟨written, now, progress, later, rfl⟩ rest

/-- A tracked file that cannot be replaced has a temporary name that is too long, if no directory
bears it. -/
theorem OutputAt.tooLong (at_ : OutputAt host config {} snapshot output out)
    (proper : host.tree.IsProper) (clear : host.IsClear)
    (progress : Progress snapshot output out written host now) (member : task ∈ snapshot.tasks)
    {inner : List String} {name : String}
    (isTracked : IsTracked host {} output task.role task.file task.text (inner ++ [name]))
    {cause : Cause} (refusal : now.refusal? (out ++ inner) (output ++ inner) name = some cause) :
    cause = .nameTooLong ∧
      Tree.IsTooLong (output ++ inner) (Host.temporaryName name host.processId now.ticket) := by
  have start : Progress snapshot output out [] host host := .start
  obtain ⟨content, executable, there, -⟩ := at_.lookup start.rewrites member isTracked
  rw [← List.append_assoc] at there
  have holder := proper.lookup_outer (by simp) there
  unfold Host.refusal? at refusal
  rw [progress.processId, progress.rewrites.refusal?_eq proper] at refusal
  refine Tree.tooLong_of_refusal holder ?_ ?_ refusal
  · exact clear _ ⟨out ++ inner, name, now.ticket, progress.ticket, rfl⟩
  · intro target
    rw [List.append_assoc]
    exact at_.free _ target (by simp)

/-- What a tracked file came to comes again. -/
theorem OutputAt.recurs (at_ : OutputAt host config {} snapshot output out)
    (proper : host.tree.IsProper) (clear : host.IsClear) {later : Host}
    (last : Progress snapshot output out written host later) {part : List Path}
    (progress : Progress snapshot output out part host now) (member : task ∈ snapshot.tasks)
    (earlier : now.ticket ≤ later.ticket)
    (told : Report.writtenPath? (snapshot.attempt now task).1 = some task.file ->
      task.file ∈ written)
    (failed : Report.failure? (snapshot.attempt now task).1 ≠ none -> task.file ∉ written) :
    Recurs snapshot written later task (snapshot.attempt now task).1 := by
  obtain ⟨inner, name, isTracked, seat⟩ := at_.seat member
  have attempted := at_.attempt progress member isTracked seat
  generalize (snapshot.attempt now task).1 = result at attempted told failed ⊢
  generalize (snapshot.attempt now task).2 = next at attempted
  -- A write is refused only where the temporary name is too long, and later names are no shorter.
  cases attempted with
  | kept same =>
    refine .ok fun differs => ?_
    rw [same] at differs
    cases differs
  | replaced differs open_ =>
    refine .ok fun _ => told ?_
    rw [writtenPath?_outcomeOf, if_pos differs]
  | refused differs refusal =>
    obtain ⟨rfl, tooLong⟩ := at_.tooLong proper clear progress member isTracked refusal
    refine .failed differs (failed (by simp [Report.failure?])) fun ticket lower => ?_
    have longer := tooLong.mono (temporaryName_mono name host.processId (earlier.trans lower))
    have seat' := last.seat seat
    have refusal' : { later with ticket }.refusal? (out ++ inner) (output ++ inner) name =
        some .nameTooLong := by
      unfold Host.refusal? Tree.refusal?
      rw [last.processId]
      exact if_pos longer
    rw [seat'.path]
    refine Host.writeWhole_refused seat'.areNames seat'.reached ?_ refusal'
    intro target
    rw [Host.temporaryAt, List.append_assoc]
    exact last.rewrites.linkFree at_.free _ target (by simp)

/-- What tracked files came to comes again, in a host that differs in its journal only. -/
theorem OutputAt.forall₂_recurs (at_ : OutputAt host config {} snapshot output out)
    (proper : host.tree.IsProper) (clear : host.IsClear)
    {results : List (Except FailedWrite FileResult)}
    (done : snapshot.relinkTasks host snapshot.tasks = (results, after)) (journal : List Change) :
    List.Forall₂ (Recurs snapshot (results.filterMap Report.writtenPath?) { after with journal })
      snapshot.tasks results := by
  have tells := @forall₂_relinkTasks snapshot host snapshot.tasks
  have attempts := at_.forall₂_attempt .start fun _ => id
  have progress := at_.relinkTasks fun _ => id
  rw [done] at tells attempts progress
  have last : Progress snapshot output out (results.filterMap Report.writtenPath?) host
      { after with journal } :=
    ⟨progress.directory, progress.processId, progress.ticket, progress.spends, progress.holds,
      progress.runnable⟩
  have disjoint := disjoint_written_failed tells (at_.taken.nodup_tasks proper)
  refine (forall₂_with_mem attempts).imp ?_
  rintro task _ ⟨⟨part, between, reached, earlier, rfl⟩, member, inside⟩
  refine at_.recurs proper clear last reached member earlier (fun told => ?_) (fun failed => ?_)
  · exact List.mem_filterMap.2 ⟨_, inside, told⟩
  · obtain ⟨failure, found⟩ := Option.ne_none_iff_exists'.1 failed
    have path_eq : failure.path = task.file := by
      have tells_ := @tells_attempt snapshot between task
      generalize (snapshot.attempt between task).1 = result at found tells_
      cases tells_ with
      | ok => cases found
      | failed cause _ =>
        obtain rfl := Option.some.inj found
        rfl
    intro told
    refine disjoint told (List.mem_map.2 ⟨failure, ?_, path_eq⟩)
    exact List.mem_filterMap.2 ⟨_, inside, found⟩

/-! ## Files that are left -/

/-- A file that is written is one fewer that relinking changes. -/
theorem OutputAt.countP_changes_again (at_ : OutputAt host config {} snapshot output out)
    (proper : host.tree.IsProper) (ways : snapshot.HasLegibleWays)
    {results : List (Except FailedWrite FileResult)}
    (tells : List.Forall₂ (Tells snapshot) snapshot.tasks results)
    (written_eq : results.filterMap Report.writtenPath? = written) :
    (snapshot.rewritten written).tasks.countP (snapshot.rewritten written).changes +
        written.length = snapshot.tasks.countP snapshot.changes := by
  have once := at_.taken.nodup_tasks proper
  have sublist := sublist_written tells
  have differ : ∀ task ∈ snapshot.tasks, task.file ∈ written -> snapshot.changes task = true := by
    rw [← written_eq]
    exact fun task => changes_of_written tells once
  rw [written_eq] at sublist
  have told : (snapshot.tasks.filter (·.file ∈ written)).length = written.length := by
    have perm : ((snapshot.tasks.map Task.file).filter (· ∈ written)).Perm written := by
      refine (List.perm_ext_iff_of_nodup (once.filter _) (once.sublist sublist)).2 fun file => ?_
      rw [List.mem_filter, decide_eq_true_iff]
      exact and_iff_right_of_imp fun inside => sublist.subset inside
    rw [← perm.length_eq, List.filter_map, List.length_map]
    rfl
  have left : (snapshot.rewritten written).tasks.countP (snapshot.rewritten written).changes =
      (snapshot.tasks.filter (·.file ∉ written)).countP snapshot.changes := by
    rw [tasks_rewritten, List.countP_map, List.countP_filter]
    refine List.countP_congr fun task member => ?_
    rw [Function.comp_apply, at_.changes_again ways member]
  have all : (snapshot.tasks.filter (·.file ∈ written)).countP snapshot.changes =
      (snapshot.tasks.filter (·.file ∈ written)).length := by
    refine List.countP_eq_length.2 fun task member => ?_
    obtain ⟨inside, here⟩ := List.mem_filter.1 member
    exact differ task inside (of_decide_eq_true here)
  have parts := List.countP_eq_countP_filter_add snapshot.tasks snapshot.changes (·.file ∈ written)
  rw [left, ← told, ← all, parts, Nat.add_comm]
  simp

theorem HasLegibleWays.rewritten (ways : snapshot.HasLegibleWays) (written : List Path) :
    (snapshot.rewritten written).HasLegibleWays := by
  have known (role : FileRole) (pair : Path × String)
      (member : pair ∈ ((snapshot.rewritten written).tracked role).files) :
      ∃ pair' ∈ (snapshot.tracked role).files, pair'.1 = pair.1 := by
    rw [tracked_rewritten] at member
    obtain ⟨pair, inside, rfl⟩ := List.mem_map.1 member
    exact ⟨pair, inside, rfl⟩
  constructor
  · intro role pair member
    obtain ⟨pair', inside, same⟩ := known role pair member
    rw [← same]
    exact ways.quotable role pair' inside
  · intro role pair member
    obtain ⟨pair', inside, same⟩ := known role pair member
    rw [← same]
    exact ways.unicode role pair' inside

end Snapshot

/-! ## Passes -/

/-- What it takes for a pass to leave what other passes can go on from: no link lies anywhere, and
what is added to specifiers can be read again. -/
structure Host.IsOrderly (host : Host) (config : Config) : Prop where
  proper : host.tree.IsProper
  linkFree : host.tree.LinkFree []
  ways : ∀ snapshot, Snapshot.take host config {} = .ok snapshot -> snapshot.HasLegibleWays

/-- How many files of the output relinking changes. -/
def Host.unsettled (host : Host) (config : Config) : Nat :=
  match Snapshot.take host config {} with
  | .ok snapshot => snapshot.tasks.countP snapshot.changes
  | .error _ => 0

/-- The files that a pass has written. -/
def writtenFiles : Except Problem Report -> List Path
  | .ok report => report.written
  | .error _ => []

variable {host after : Host} {config : Config} {result : Except Problem Report}

/-- A pass takes a snapshot and relinks its files, or it does nothing. -/
theorem relinkOutput_cases (done : relinkOutput host config {} = (result, after)) :
    (∃ snapshot report, Snapshot.take host config {} = .ok snapshot ∧ result = .ok report ∧
        snapshot.relinkAll host = (report, after)) ∨
      (∃ problem, Snapshot.take host config {} = .error problem) ∧ after = host ∧
        writtenFiles result = [] ∧ result.map Report.again = result := by
  cases taken : Snapshot.take host config {} with
  | ok snapshot =>
    rw [relinkOutput_of_take taken rfl] at done
    obtain ⟨rfl, rfl⟩ := Prod.mk.inj done
    exact .inl ⟨snapshot, _, rfl, rfl, rfl⟩
  | error problem =>
    rw [relinkOutput_of_error taken] at done
    obtain ⟨rfl, rfl⟩ := Prod.mk.inj done
    refine .inr ⟨⟨problem, rfl⟩, rfl, ?_⟩
    cases problem.isSoft <;> exact ⟨rfl, rfl⟩

namespace Host.IsOrderly

theorem exists_outputAt (orderly : host.IsOrderly config) {snapshot : Snapshot}
    (taken : Snapshot.take host config {} = .ok snapshot) :
    ∃ output out, Snapshot.OutputAt host config {} snapshot output out :=
  Snapshot.exists_outputAt (Snapshot.take_eq_ok_iff.1 taken) orderly.proper.named
    fun out _ => orderly.linkFree.below out

/-- After a pass, another one can go on. Each file that was written is one fewer that relinking
changes. -/
theorem pass (orderly : host.IsOrderly config)
    (done : relinkOutput host config {} = (result, after)) :
    after.IsOrderly config ∧
      after.unsettled config + (writtenFiles result).length = host.unsettled config := by
  rcases relinkOutput_cases done with ⟨snapshot, report, taken, rfl, all⟩ | ⟨-, rfl, none_, -⟩
  · obtain ⟨output, out, at_⟩ := orderly.exists_outputAt taken
    obtain ⟨results, tells, told, progress⟩ := at_.pass all
    have written : results.filterMap Report.writtenPath? = report.written := by
      rw [told, (Report.foldl_record results {}).2.2.1, List.nil_append]
    have ways := orderly.ways snapshot taken
    have taken' : Snapshot.take after config {} = .ok (snapshot.rewritten report.written) :=
      Snapshot.take_eq_ok_iff.2 (at_.taken_again (.of_linkFree orderly.linkFree) progress rfl rfl)
    refine ⟨⟨progress.rewrites.isProper orderly.proper,
      progress.rewrites.linkFree orderly.linkFree, fun snapshot' again => ?_⟩, ?_⟩
    · obtain rfl := Except.ok.inj (taken'.symm.trans again)
      exact ways.rewritten report.written
    · have count := at_.countP_changes_again orderly.proper ways tells written
      unfold unsettled writtenFiles
      rw [taken, taken']
      exact count
  · rw [none_, List.length_nil, Nat.add_zero]
    exact ⟨orderly, rfl⟩

/-- Where no directory is in the way, a pass after another one writes nothing, and tells what the
other one told. What could not be written cannot be. -/
theorem pass_again (orderly : host.IsOrderly config) (clear : host.IsClear)
    (done : relinkOutput host config {} = (result, after)) (journal : List Change) :
    ∃ ticket, relinkOutput { after with journal } config {} =
      (result.map Report.again, { after with journal, ticket }) := by
  rcases relinkOutput_cases done with ⟨snapshot, report, taken, rfl, all⟩ | ⟨failed, rfl, -, same⟩
  · obtain ⟨output, out, at_⟩ := orderly.exists_outputAt taken
    have progress := at_.relinkTasks fun _ => id
    have recur := at_.forall₂_recurs orderly.proper clear Prod.mk.eta.symm journal
    rw [Snapshot.relinkAll_eq] at all
    generalize snapshot.relinkTasks host snapshot.tasks = worked at progress recur all
    obtain ⟨results, last⟩ := worked
    obtain ⟨rfl, rfl⟩ := Prod.mk.inj all
    exact ⟨_, at_.pass_again (orderly.ways snapshot taken) (.of_linkFree orderly.linkFree)
      progress { last with journal } rfl rfl recur⟩
  · obtain ⟨problem, failed⟩ := failed
    have failed' := (Snapshot.take_journal after config {} journal).trans failed
    rw [relinkOutput_of_error failed] at done
    rw [relinkOutput_of_error failed', same, (Prod.mk.inj done).1]
    exact ⟨after.ticket, rfl⟩

end Host.IsOrderly

/-! ## One pass after the other -/

/-- What passes come to that are made one after the other. -/
abbrev Passes (config : Config) : Host -> List (Except Problem Report) -> Host -> Prop :=
  Trace fun host result after => relinkOutput host config {} = (result, after)

namespace Passes

variable {results : List (Except Problem Report)}

/-- Passes leave a host from which others can go on, and relinking changes one file fewer for each
that was written. -/
theorem orderly (passes : Passes config host results after) (orderly : host.IsOrderly config) :
    after.IsOrderly config ∧
      after.unsettled config + (results.flatMap writtenFiles).length = host.unsettled config := by
  induction passes with
  | nil =>
    rw [List.flatMap_nil, List.length_nil, Nat.add_zero]
    exact ⟨orderly, rfl⟩
  | concat _ done ih =>
    obtain ⟨before, count⟩ := ih
    obtain ⟨next, fewer⟩ := before.pass done
    rw [List.flatMap_append, List.length_append, List.flatMap_singleton, ← count, ← fewer]
    exact ⟨next, by omega⟩

/-- The second of two passes writes nothing, if no directory is in the way. -/
theorem second {again : Except Problem Report} (orderly : host.IsOrderly config)
    (clear : host.IsClear) (passes : Passes config host [result, again] after) :
    ∃ now ticket, relinkOutput host config {} = (result, now) ∧ after = { now with ticket } ∧
      again = result.map Report.again := by
  have both : Passes config host ([result] ++ [again]) after := passes
  obtain ⟨now, before, done⟩ := both.split_concat
  have first := before.step_of_singleton
  obtain ⟨ticket, same⟩ := orderly.pass_again clear first now.journal
  obtain ⟨rfl, rfl⟩ := Prod.mk.inj (done.symm.trans same)
  exact ⟨now, ticket, first, rfl, rfl⟩

end Passes

theorem writtenFiles_again (result : Except Problem Report) :
    writtenFiles (result.map Report.again) = [] := by
  cases result <;> rfl

end Relink
