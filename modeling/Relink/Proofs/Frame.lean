import Relink.Proofs.Tracked

/-!
# What a pass leaves alone

A pass that fails or is skipped does nothing. Any other one tries every tracked file once, and
what it does to its host can be read from its report: the files that it tells were written hold
their relinked text, and everything else is as it was. The one exception is a file that bore the
name of a temporary file through which another file was written.
-/

namespace Relink

namespace Snapshot

variable {host after : Host} {config : Config} {layout : Layout} {snapshot : Snapshot}
  {output : List String} {out : Location} {report : Report}

/-- Whether a tracked file that was written lies at a location. -/
def IsWritten (host : Host) (layout : Layout) (snapshot : Snapshot) (output : List String)
    (out : Location) (written : List Path) (location : Location) : Prop :=
  ∃ task ∈ snapshot.tasks, task.file ∈ written ∧
    ∃ rest, IsTask host layout output out task rest ∧ location = out ++ rest

/-- What a pass that ran has done and tells. `out` is where the output directory lies, and
`output` is how it is written. -/
structure Frame (host after : Host) (layout : Layout) (snapshot : Snapshot)
    (output : List String) (out : Location) (report : Report) : Prop where
  /-- The tracked files are the visible files with a role below the output directory. -/
  tracked : ∀ task, task ∈ snapshot.tasks ↔ ∃ rest, IsTask host layout output out task rest
  /-- Declarations come before scripts, and both come as they are listed. -/
  listed : snapshot.tasks.map Task.file =
    (snapshot.files.filter fun file => roleOf? layout file = some .declaration) ++
      snapshot.files.filter fun file => roleOf? layout file = some .script
  once : (snapshot.tasks.map Task.file).Nodup
  /-- Every tracked file is tried in its turn, and has a result in the report. -/
  tried : ∃ results, snapshot.relinkTasks host snapshot.tasks = (results, after) ∧
    List.Forall₂ (Tells snapshot) snapshot.tasks results ∧
    report = results.foldl Report.record {}
  scanned : report.filesScanned = snapshot.tasks.length
  /-- A tracked file holds its relinked text if it is told to be written, and what it held
  otherwise. -/
  content : ∀ task ∈ snapshot.tasks, after.readBytes task.file =
    .ok (if task.file ∈ report.written then
        (snapshot.relinkText task.role task.file task.text).text.toByteArray
      else task.text.toByteArray)
  /-- A file that is not written is as it should be, or is told to have failed. -/
  unwritten : ∀ task ∈ snapshot.tasks, task.file ∉ report.written ->
    (snapshot.relinkText task.role task.file task.text).text = task.text ∨
      task.file ∈ report.failures.map FailedWrite.path
  /-- Nothing else changes, except that a file is gone if it bore the name of a temporary file. -/
  elsewhere : ∀ location, ¬IsWritten host layout snapshot output out report.written location ->
    after.tree.lookup location = host.tree.lookup location ∨
      IsSpent snapshot output out report.written host after.ticket location ∧
        after.tree.lookup location = none ∧
        ∃ content executable, host.tree.lookup location = some (.file content executable)
  /-- No temporary file is left. -/
  nothingNew : ∀ location, host.tree.lookup location = none -> after.tree.lookup location = none
  written : report.written.Sublist (snapshot.tasks.map Task.file)
  failed : (report.failures.map FailedWrite.path).Sublist (snapshot.tasks.map Task.file)
  disjoint : report.written.Disjoint (report.failures.map FailedWrite.path)

/-- What was written anew is a tracked file that was written. -/
theorem OutputAt.isWritten (at_ : OutputAt host config layout snapshot output out)
    (proper : host.tree.IsProper) {written : List Path} {location : Location}
    {content : ByteArray} (isRelinked : IsRelinked snapshot output out written location content) :
    IsWritten host layout snapshot output out written location := by
  obtain ⟨task, member, told, rest, areNames, path_eq, rfl, -⟩ := isRelinked
  obtain ⟨rest', isTask⟩ := (at_.mem_tasks_iff proper).1 member
  have same := Location.path_inj areNames isTask.isVisible.areNames
    (congrArg Path.components (path_eq.symm.trans isTask.isVisible.path))
  obtain rfl := List.append_cancel_left same
  exact ⟨task, member, told, rest, isTask, rfl⟩

theorem OutputAt.elsewhere (at_ : OutputAt host config layout snapshot output out)
    (proper : host.tree.IsProper) {written : List Path}
    (progress : Progress snapshot output out written host after) {location : Location}
    (apart : ¬IsWritten host layout snapshot output out written location) :
    after.tree.lookup location = host.tree.lookup location ∨
      IsSpent snapshot output out written host after.ticket location ∧
        after.tree.lookup location = none ∧
        ∃ content executable, host.tree.lookup location = some (.file content executable) := by
  have turns := progress.spends.turns location
  generalize host.tree.lookup location = entry at turns ⊢
  generalize after.tree.lookup location = entry' at turns ⊢
  cases turns with
  | same => exact .inl rfl
  | written new => exact absurd (at_.isWritten proper new) apart
  | gone spent => exact .inr ⟨spent, rfl, _, _, rfl⟩

/-- A pass that took a snapshot is not skipped. -/
theorem isSkipped_relinkAll : (snapshot.relinkAll host).1.isSkipped = false := by
  rw [relinkAll_eq, Report.isSkipped, (Report.foldl_record _ {}).1]
  rfl

/-- What a pass comes to that took a snapshot. -/
theorem OutputAt.frame (at_ : OutputAt host config layout snapshot output out)
    (proper : host.tree.IsProper) (done : snapshot.relinkAll host = (report, after)) :
    Frame host after layout snapshot output out report := by
  rw [relinkAll_eq] at done
  obtain ⟨rfl, rfl⟩ := Prod.mk.inj done
  -- What is told of each task, and what the tasks have done to the tree.
  have tells := @forall₂_relinkTasks snapshot host snapshot.tasks
  have progress := at_.relinkTasks fun _ => id
  obtain ⟨-, scanned, written, failures⟩ :=
    Report.foldl_record (snapshot.relinkTasks host snapshot.tasks).1 {}
  dsimp only at scanned written failures
  rw [List.nil_append] at written failures
  rw [Nat.zero_add, ← tells.length_eq] at scanned
  have once := at_.taken.nodup_tasks proper
  exact {
    tracked := fun task => at_.mem_tasks_iff proper
    listed := at_.taken.map_file_tasks
    once
    tried := ⟨_, rfl, tells, rfl⟩
    scanned
    content := by
      intro task member
      rw [written]
      exact at_.readBytes progress member
    unwritten := by
      intro task member silent
      rw [written] at silent
      rw [failures]
      cases differs : snapshot.changes task with
      | false => exact .inl (bne_eq_false_iff_eq.1 differs)
      | true => exact .inr ((written_or_failed tells member differs).resolve_left silent)
    elsewhere := by
      intro location apart
      rw [written] at apart ⊢
      exact at_.elsewhere proper progress apart
    nothingNew := fun _ none_ => progress.spends.lookup_eq_none none_
    written := by
      rw [written]
      exact sublist_written tells
    failed := by
      rw [failures]
      exact sublist_failed tells
    disjoint := by
      rw [written, failures]
      exact disjoint_written_failed tells once }

end Snapshot

/-- A pass that fails or is skipped leaves its host as it was. Any other one does what its report
tells, and nothing else. No link may lie in the output directory. -/
theorem relinkOutput_frame {host after : Host} {config : Config} {layout : Layout}
    {result : Except Problem Report} (proper : host.tree.IsProper)
    (linkFree : ∀ out, host.tree.status host.directory (Snapshot.outputDirectory host config) =
      .ok (out, .directory) -> host.tree.LinkFree out)
    (done : relinkOutput host config layout = (result, after)) :
    ((∀ report, result = .ok report -> report.isSkipped = true) -> after = host) ∧
      ∀ report, result = .ok report -> report.isSkipped = false ->
        ∃ snapshot output out, Snapshot.OutputAt host config layout snapshot output out ∧
          Snapshot.Frame host after layout snapshot output out report := by
  constructor
  · intro idle
    cases taken : Snapshot.take host config layout with
    | ok snapshot =>
      have ran := (Prod.mk.inj ((relinkOutput_of_take taken rfl).symm.trans done)).1
      have skipped := idle (snapshot.relinkAll host).1 ran.symm
      rw [Snapshot.isSkipped_relinkAll] at skipped
      cases skipped
    | error problem =>
      unfold relinkOutput at done
      rw [taken] at done
      dsimp only at done
      split at done <;> exact (Prod.mk.inj done).2.symm
  · rintro report rfl ran
    obtain ⟨snapshot, taken, all⟩ := exists_take_of_relinkOutput done ran
    obtain ⟨output, out, at_⟩ :=
      Snapshot.exists_outputAt (Snapshot.take_eq_ok_iff.1 taken) proper.named linkFree
    exact ⟨snapshot, output, out, at_, at_.frame proper all⟩

/-- In the small package, the pass writes the declaration and one of the scripts, and leaves
everything else alone. -/
theorem relinkOutput_frame_samplePackage :
    ∃ after, relinkOutput Snapshot.samplePackage Snapshot.sampleConfig {} =
        (.ok sampleReport, after) ∧
      ∃ snapshot output out,
        Snapshot.OutputAt Snapshot.samplePackage Snapshot.sampleConfig {} snapshot output out ∧
        Snapshot.Frame Snapshot.samplePackage after {} snapshot output out sampleReport := by
  have proper : Snapshot.samplePackage.tree.IsProper := by decide
  have done := samplePackage_relinkOutput
  have frame := relinkOutput_frame proper (fun out _ => Snapshot.samplePackage_linkFree out) done
  exact ⟨_, done, frame.2 sampleReport rfl rfl⟩

namespace Snapshot

/-! ## Something in the way -/

/-- The small package with an entry that bears the name of the first temporary file. -/
def crowdedPackage (entry : Entry) : Host :=
  { samplePackage with
    tree := ⟨(["p", "dist", ".index.d.ts.tmp.1.0"], entry) :: samplePackage.tree.entries⟩ }

/-- A file that an earlier process left, a link to one of the scripts, and a directory. -/
def leftovers : List Entry :=
  [.file "stays".toByteArray false, .link ⟨"b.js"⟩, .directory]

/-- Nothing that a pass reads of the small package is in the way. -/
theorem crowdedPackage_readText {entry : Entry} (member : entry ∈ leftovers) {path : Path}
    {location : Location} {text : String}
    (found : ∀ entry ∈ leftovers, (crowdedPackage entry).tree.status ["p"] path =
      .ok (location, .file text.toByteArray false)) :
    (crowdedPackage entry).readText path = .ok text :=
  readText_of_status (found entry member)

theorem crowdedPackage_take : ∀ entry ∈ leftovers,
    take (crowdedPackage entry) sampleConfig {} = .ok sampleSnapshot := by
  intro entry member
  have found : ∀ entry ∈ leftovers, (crowdedPackage entry).tree.status ["p"] ⟨"/p/dist"⟩ =
      .ok (["p", "dist"], .directory) := by
    decide
  have children : (crowdedPackage entry).tree.children ["p", "dist"] =
      [".index.d.ts.tmp.1.0", "b.js", "index.d.ts", "index.js"] := by
    change [".index.d.ts.tmp.1.0", "b.js", "index.d.ts", "index.js"].mergeSort Name.le = _
    exact List.mergeSort_of_pairwise (by decide)
  have listed : ∀ entry ∈ leftovers,
      ([".index.d.ts.tmp.1.0", "b.js", "index.d.ts", "index.js"].mapM
        ((crowdedPackage entry).tree.listEntry 63 [] ⟨⟨"/p/dist"⟩, ["p", "dist"]⟩)).map
          List.flatten = .ok sampleSnapshot.files := by
    decide
  exact take_sampleSnapshot rfl (found entry member)
    (visibleFiles_of_children rfl (found entry member) children rfl (listed entry member))
    (@crowdedPackage_readText _ member _ ["p", "package.json"] _ (by decide))
    (@crowdedPackage_readText _ member _ ["p", "dist", "b.js"] _ (by decide))
    (@crowdedPackage_readText _ member _ ["p", "dist", "index.js"] _ (by decide))
    (@crowdedPackage_readText _ member _ ["p", "dist", "index.d.ts"] _ (by decide))

end Snapshot

/-- A hidden file that no pass is about is gone after a pass over the tree of a file system
without links, because it bore the name of a temporary file. -/
theorem relinkOutput_stale :
    ∃ host config report after, host.tree.IsProper ∧ (∀ out, host.tree.LinkFree out) ∧
      relinkOutput host config {} = (.ok report, after) ∧ report.isSkipped = false ∧
      ∃ location, Tree.IsHidden location ∧
        host.tree.lookup location = some (.file "stays".toByteArray false) ∧
        after.tree.lookup location = none := by
  let stale := Snapshot.crowdedPackage (.file "stays".toByteArray false)
  have taken : Snapshot.take stale Snapshot.sampleConfig {} = .ok Snapshot.sampleSnapshot :=
    Snapshot.crowdedPackage_take _ (by simp [Snapshot.leftovers])
  have told : (Snapshot.sampleSnapshot.relinkAll stale).1 = sampleReport := by decide +kernel
  have done : Snapshot.sampleSnapshot.relinkAll stale =
      (sampleReport, (Snapshot.sampleSnapshot.relinkAll stale).2) := by
    rw [← told]
  refine ⟨stale, Snapshot.sampleConfig, sampleReport, _, by decide, ?_,
    relinkOutput_of_take taken done, rfl, ["p", "dist", ".index.d.ts.tmp.1.0"], ?_,
    by decide +kernel, by decide +kernel⟩
  · exact Tree.linkFree_of_entries
      (by simp [stale, Snapshot.crowdedPackage, Snapshot.samplePackage])
  · exact ⟨["p", "dist"], ".index.d.ts.tmp.1.0", rfl, by decide⟩

end Relink
