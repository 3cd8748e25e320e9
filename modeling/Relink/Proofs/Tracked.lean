import Relink.Proofs.Pass

/-!
# Which files a pass is about

The tracked files of a snapshot are the visible files below the output directory that have a role,
each of them once. What a report tells is told of them, in their order.
-/

namespace Relink.Snapshot

variable {host : Host} {config : Config} {layout : Layout} {snapshot : Snapshot}
  {output : List String} {out : Location} {task : Task}

/-! ## What is tracked -/

/-- The files that a snapshot lists are those that lie below the output directory. -/
theorem OutputAt.files_eq (at_ : OutputAt host config layout snapshot output out) :
    snapshot.files =
      host.tree.visibleBelow host.tree.listingDepth (Location.path output) out := by
  have listed := at_.taken.files
  unfold listOutput Host.visibleFiles at listed
  rw [at_.output_eq, at_.free.list at_.reached] at listed
  exact (Except.ok.inj listed).symm

theorem OutputAt.mem_files (at_ : OutputAt host config layout snapshot output out)
    (proper : host.tree.IsProper) {file : Path} :
    file ∈ snapshot.files ↔ ∃ rest, host.tree.IsVisible output out file rest := by
  rw [at_.files_eq]
  constructor
  · intro member
    exact Tree.exists_of_mem_visibleBelow at_.named at_.areOutput member
  · rintro ⟨rest, isVisible⟩
    exact isVisible.mem_visibleBelow proper (Tree.countBelow_le out)

/-- The files of a role are listed in the order of all files. -/
theorem Taken.map_fst_tracked (taken : Taken host config layout snapshot) (role : FileRole) :
    (snapshot.tracked role).files.map Prod.fst =
      snapshot.files.filter fun file => roleOf? layout file = some role := by
  refine List.forall₂_eq_eq_eq ▸ List.forall₂_map_left_iff.2 ?_
  exact (forall₂_readFiles (taken.tracked role)).flip.imp fun _ _ both => both.1

/-- The tracked files are the declarations, and then the scripts, in the order of all files. -/
theorem Taken.map_file_tasks (taken : Taken host config layout snapshot) :
    snapshot.tasks.map Task.file =
      (snapshot.files.filter fun file => roleOf? layout file = some .declaration) ++
        snapshot.files.filter fun file => roleOf? layout file = some .script := by
  rw [← taken.map_fst_tracked, ← taken.map_fst_tracked, tasks, tasksOf, tasksOf, List.map_append,
    List.map_map, List.map_map]
  rfl

theorem Taken.nodup_files (taken : Taken host config layout snapshot)
    (proper : host.tree.IsProper) : snapshot.files.Nodup := by
  have listed := taken.files
  unfold listOutput at listed
  split at listed
  · rename_i files done
    obtain rfl := Except.ok.inj listed
    exact Tree.nodup_list proper done
  · cases listed

/-- No file is tracked twice. -/
theorem Taken.nodup_tasks (taken : Taken host config layout snapshot)
    (proper : host.tree.IsProper) : (snapshot.tasks.map Task.file).Nodup := by
  have nodup := taken.nodup_files proper
  rw [taken.map_file_tasks, List.nodup_append]
  refine ⟨nodup.filter _, nodup.filter _, ?_⟩
  rintro file declared _ emitted rfl
  have first := of_decide_eq_true (List.mem_filter.1 declared).2
  have second := of_decide_eq_true (List.mem_filter.1 emitted).2
  rw [first] at second
  cases second

/-- What a tracked file is: a visible file with a role, below the output directory, whose content
is the text. -/
structure IsTask (host : Host) (layout : Layout) (output : List String) (out : Location)
    (task : Task) (rest : List String) : Prop where
  isVisible : host.tree.IsVisible output out task.file rest
  role : roleOf? layout task.file = some task.role
  found : ∃ executable,
    host.tree.lookup (out ++ rest) = some (.file task.text.toByteArray executable)

/-- Every file is tracked that should be, and no other one. -/
theorem OutputAt.mem_tasks_iff (at_ : OutputAt host config layout snapshot output out)
    (proper : host.tree.IsProper) :
    task ∈ snapshot.tasks ↔ ∃ rest, IsTask host layout output out task rest := by
  constructor
  · intro member
    obtain ⟨rest, executable, isTracked, status⟩ := at_.tracked member
    have found := Tree.lookup_of_status status
    refine ⟨rest, ⟨isTracked.ne_nil, isTracked.areNames, isTracked.areVisible, isTracked.path, ?_⟩,
      isTracked.role, executable, found⟩
    exact ⟨_, found, rfl⟩
  · rintro ⟨rest, isVisible, role, executable, found⟩
    have listed := (at_.mem_files proper).2 ⟨rest, isVisible⟩
    have inRole : task.file ∈ (snapshot.tracked task.role).files.map Prod.fst := by
      rw [at_.taken.map_fst_tracked]
      exact List.mem_filter.2 ⟨listed, decide_eq_true role⟩
    rw [List.mem_map] at inRole
    obtain ⟨⟨file, text⟩, member, same⟩ := inRole
    obtain rfl : file = task.file := same
    have known : ⟨task.role, task.file, text⟩ ∈ snapshot.tasks := mem_tasks.2 member
    obtain ⟨rest', executable', isTracked, status⟩ := at_.tracked known
    obtain rfl := isTracked.rest_eq isVisible.areNames isVisible.path
    have there := found.symm.trans (Tree.lookup_of_status status)
    obtain ⟨content_eq, -⟩ := Entry.file.inj (Option.some.inj there)
    have text_eq : task.text = text := by
      have decoded := congrArg Utf8.text? content_eq
      rw [Utf8.text?_toByteArray, Utf8.text?_toByteArray] at decoded
      exact Option.some.inj decoded
    rw [← text_eq] at known
    exact known

/-! ## What is told -/

variable {todo : List Task} {results : List (Except FailedWrite FileResult)}

/-- What is told to be written is the file, when relinking changes its text. -/
theorem Tells.file_eq {result : Except FailedWrite FileResult} (tells : Tells snapshot task result)
    {file : Path} (told : Report.writtenPath? result = some file) :
    file = task.file ∧ snapshot.changes task = true := by
  cases tells with
  | ok =>
    rw [writtenPath?_outcomeOf] at told
    split at told
    · rename_i differs
      exact ⟨(Option.some.inj told).symm, differs⟩
    · cases told
  | failed cause _ => cases told

/-- Written files are told in the order of the files. -/
theorem sublist_written (tells : List.Forall₂ (Tells snapshot) todo results) :
    (results.filterMap Report.writtenPath?).Sublist (todo.map Task.file) := by
  induction tells with
  | nil => exact .slnil
  | @cons task result todo results told _ ih =>
    rw [List.filterMap_cons, List.map_cons]
    cases told with
    | ok =>
      rw [writtenPath?_outcomeOf]
      cases snapshot.changes task with
      | true => exact ih.cons_cons _
      | false => exact ih.cons _
    | failed cause differs => exact ih.cons _

/-- Files that could not be written are told in the order of the files. -/
theorem sublist_failed (tells : List.Forall₂ (Tells snapshot) todo results) :
    ((results.filterMap Report.failure?).map FailedWrite.path).Sublist (todo.map Task.file) := by
  induction tells with
  | nil => exact .slnil
  | cons told _ ih =>
    rw [List.filterMap_cons, List.map_cons]
    cases told with
    | ok => exact ih.cons _
    | failed cause differs => exact ih.cons_cons _

/-- No file that was written is told to have failed. -/
theorem disjoint_written_failed (tells : List.Forall₂ (Tells snapshot) todo results)
    (once : (todo.map Task.file).Nodup) :
    (results.filterMap Report.writtenPath?).Disjoint
      ((results.filterMap Report.failure?).map FailedWrite.path) := by
  induction tells with
  | nil => exact List.disjoint_nil_left _
  | @cons task result todo results told later ih =>
    obtain ⟨absent, once⟩ := List.nodup_cons.1 once
    have others := ih once
    rw [List.filterMap_cons, List.filterMap_cons]
    cases told with
    | ok =>
      rw [writtenPath?_outcomeOf]
      cases snapshot.changes task with
      | true =>
        refine List.disjoint_cons_left.2 ⟨fun failed => ?_, others⟩
        exact absent ((sublist_failed later).subset failed)
      | false => exact others
    | failed cause differs =>
      refine List.disjoint_cons_right.2 ⟨fun written => ?_, others⟩
      exact absent ((sublist_written later).subset written)

/-- A file whose text relinking changes is written, or told to have failed. -/
theorem written_or_failed (tells : List.Forall₂ (Tells snapshot) todo results)
    (member : task ∈ todo) (differs : snapshot.changes task = true) :
    task.file ∈ results.filterMap Report.writtenPath? ∨
      task.file ∈ (results.filterMap Report.failure?).map FailedWrite.path := by
  obtain ⟨result, inside, told⟩ := exists_of_mem_forall₂ tells.flip member
  cases told with
  | ok =>
    refine .inl (List.mem_filterMap.2 ⟨_, inside, ?_⟩)
    rw [writtenPath?_outcomeOf, differs, if_pos rfl]
  | failed cause _ =>
    exact .inr (List.mem_map.2 ⟨_, List.mem_filterMap.2 ⟨_, inside, rfl⟩, rfl⟩)

/-- Relinking changes the text of a file that is written. -/
theorem changes_of_written (tells : List.Forall₂ (Tells snapshot) todo results)
    (once : (todo.map Task.file).Nodup) (member : task ∈ todo)
    (written : task.file ∈ results.filterMap Report.writtenPath?) :
    snapshot.changes task = true := by
  obtain ⟨result, inside, path_eq⟩ := List.mem_filterMap.1 written
  obtain ⟨other, member', told⟩ := exists_of_mem_forall₂ tells inside
  obtain ⟨same, differs⟩ := told.file_eq path_eq
  rwa [List.inj_on_of_nodup_map once member member' same]

end Relink.Snapshot
