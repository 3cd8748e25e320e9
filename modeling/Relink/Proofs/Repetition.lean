import Relink.Proofs.Pass
import Relink.Proofs.Path.Below

/-!
# Relinking the output again

What a second pass knows is what the first one knew, but for the texts of the tracked files, and
relinking those again changes nothing. So it replaces nothing, writes nothing, and tells the same.
-/

namespace Relink

/-- What becomes of a file that is relinked already. -/
def FileResult.again (result : FileResult) : FileResult :=
  { result with replacements := 0, written := false }

namespace Report

/-- The report of a pass that finds the work of another one done. -/
def again (report : Report) : Report :=
  { report with replacements := 0, written := [] }

/-- A report of results that come again is the report again. -/
theorem foldl_again (results : List (Except FailedWrite FileResult)) (report : Report) :
    (results.map (Except.map FileResult.again)).foldl record report.again =
      (results.foldl record report).again := by
  induction results generalizing report with
  | nil => rfl
  | cons result results ih =>
    rw [List.map_cons, List.foldl_cons, List.foldl_cons, ← ih]
    cases result <;> rfl

end Report

namespace Snapshot

variable {host after : Host} {config : Config} {snapshot : Snapshot} {output : List String}
  {out : Location} {written : List Path}

/-- A tracked file once the files in `written` were written. -/
def taskAfter (snapshot : Snapshot) (written : List Path) (task : Task) : Task :=
  { task with text := snapshot.textAfter written task.role task.file task.text }

theorem tasks_rewritten :
    (snapshot.rewritten written).tasks = snapshot.tasks.map (snapshot.taskAfter written) := by
  simp only [tasks, tasksOf, tracked_rewritten, List.map_append, List.map_map]
  rfl

variable {task : Task}

/-- Relinking a tracked file again changes what it changed, unless the file was written. -/
theorem OutputAt.relinkTask_again (at_ : OutputAt host config {} snapshot output out)
    (ways : snapshot.HasLegibleWays) (member : task ∈ snapshot.tasks) :
    (snapshot.rewritten written).relinkTask (snapshot.taskAfter written task) =
      if task.file ∈ written ∨ snapshot.changes task = false then
        { snapshot.relinkTask task with replacements := 0 }
      else snapshot.relinkTask task := by
  obtain ⟨rest, -, isTracked, -⟩ := at_.tracked member
  obtain ⟨directory, name, -, -, parent⟩ := isTracked.exists_directory
  have again := relinkText_again at_.taken at_.named (mem_tasks.1 member) parent
    (ways.unicode _ _ (mem_tasks.1 member) _ parent) (ways.adds (mem_tasks.1 member) parent)
  rw [relinkTask, relinkText_rewritten, taskAfter, textAfter]
  dsimp only
  by_cases told : task.file ∈ written
  · rw [if_pos told, if_pos (.inl told), again]
    rfl
  · rw [if_neg told]
    cases differs : snapshot.changes task with
    | true => rw [if_neg (by simp [told])]; rfl
    | false =>
      have same : (snapshot.relinkText task.role task.file task.text).text = task.text :=
        bne_eq_false_iff_eq.1 differs
      rw [if_pos (.inr rfl)]
      rw [same] at again
      rw [relinkTask, again]

/-- Relinking changes the text of a file again, unless it was written. -/
theorem OutputAt.changes_again (at_ : OutputAt host config {} snapshot output out)
    (ways : snapshot.HasLegibleWays) (member : task ∈ snapshot.tasks) :
    (snapshot.rewritten written).changes (snapshot.taskAfter written task) =
      (snapshot.changes task && task.file ∉ written) := by
  have again := @at_.relinkTask_again _ _ _ _ _ written task ways member
  have text : ((snapshot.rewritten written).relinkTask (snapshot.taskAfter written task)).text =
      (snapshot.relinkTask task).text := by
    rw [again]
    split <;> rfl
  rw [changes, text, changes, taskAfter, textAfter]
  by_cases told : task.file ∈ written
  · rw [if_pos told]
    simp [told, relinkTask]
  · rw [if_neg told]
    simp [told]

/-- What comes again of a tracked file, once the files in `written` were written. One that could
not be written cannot be written, for the same reason. -/
inductive Recurs (snapshot : Snapshot) (written : List Path) (later : Host) (task : Task) :
    Except FailedWrite FileResult -> Prop
  | ok (told : snapshot.changes task = true -> task.file ∈ written) :
      Recurs snapshot written later task (.ok (snapshot.outcomeOf task))
  | failed {cause : Cause} (differs : snapshot.changes task = true)
      (unwritten : task.file ∉ written)
      (refused : ∀ ticket, later.ticket ≤ ticket ->
        { later with ticket }.writeWhole task.file (snapshot.contentOf task) =
          (.error cause, { later with ticket := ticket + 1 })) :
      Recurs snapshot written later task (.error ⟨task.file, cause.message⟩)

/-- Relinking a file again comes to what it came to, and leaves the host as it is, except that a
write that fails takes a name. -/
theorem OutputAt.attempt_again (at_ : OutputAt host config {} snapshot output out)
    (ways : snapshot.HasLegibleWays) (member : task ∈ snapshot.tasks) {later : Host}
    {result : Except FailedWrite FileResult} (recurs : Recurs snapshot written later task result)
    {ticket : Nat} (lower : later.ticket ≤ ticket) :
    (snapshot.rewritten written).attempt { later with ticket } (snapshot.taskAfter written task) =
      (result.map FileResult.again,
        { later with ticket := ticket + (Report.failure? result).toList.length }) := by
  have again := @at_.relinkTask_again _ _ _ _ _ written task ways member
  have differ := @at_.changes_again _ _ _ _ _ written task ways member
  rw [attempt_eq, differ]
  -- What was written is as it should be now; what failed before fails again.
  cases recurs with
  | ok told =>
    have same : task.file ∈ written ∨ snapshot.changes task = false := by
      cases differs : snapshot.changes task with
      | true => exact .inl (told differs)
      | false => exact .inr rfl
    rw [if_pos same] at again
    have unchanged : (snapshot.changes task && task.file ∉ written) = false := by
      rcases same with inside | unchanged
      · simp [inside]
      · simp [unchanged]
    rw [unchanged, if_neg (by decide), outcomeOf, again, differ, unchanged]
    rfl
  | failed differs unwritten refused =>
    rw [if_neg (by simp [unwritten, differs])] at again
    have content : (snapshot.rewritten written).contentOf (snapshot.taskAfter written task) =
        snapshot.contentOf task := by
      rw [contentOf, again, contentOf]
    have same : (snapshot.taskAfter written task).file = task.file := rfl
    rw [if_pos (by simp [differs, unwritten]), content, same, refused ticket lower]
    rfl

/-- Relinking files again comes to what it came to. -/
theorem OutputAt.relinkTasks_again (at_ : OutputAt host config {} snapshot output out)
    (ways : snapshot.HasLegibleWays) {later : Host} {todo : List Task}
    {results : List (Except FailedWrite FileResult)}
    (recur : List.Forall₂ (Recurs snapshot written later) todo results)
    (among : ∀ task ∈ todo, task ∈ snapshot.tasks) {ticket : Nat} (lower : later.ticket ≤ ticket) :
    (snapshot.rewritten written).relinkTasks { later with ticket }
        (todo.map (snapshot.taskAfter written)) =
      (results.map (Except.map FileResult.again),
        { later with ticket := ticket + (results.filterMap Report.failure?).length }) := by
  induction recur generalizing ticket with
  | nil => rfl
  | @cons task result todo results first _ ih =>
    obtain ⟨here, among⟩ := List.forall_mem_cons.1 among
    have rest := ih among (Nat.le_add_right_of_le lower :
      later.ticket ≤ ticket + (Report.failure? result).toList.length)
    have length : (Report.failure? result).toList.length +
        (results.filterMap Report.failure?).length =
          ((result :: results).filterMap Report.failure?).length := by
      rw [List.filterMap_cons]
      cases Report.failure? result with
      | none => exact Nat.zero_add _
      | some failure => exact Nat.add_comm ..
    rw [List.map_cons, relinkTasks_cons, at_.attempt_again ways here first lower]
    dsimp only
    rw [rest, Nat.add_assoc, length]
    rfl

/-- Relinking all files again replaces nothing and writes nothing, and what could not be written
fails again. -/
theorem OutputAt.relinkAll_again (at_ : OutputAt host config {} snapshot output out)
    (ways : snapshot.HasLegibleWays) {later : Host}
    {results : List (Except FailedWrite FileResult)}
    (recur : List.Forall₂ (Recurs snapshot written later) snapshot.tasks results) :
    (snapshot.rewritten written).relinkAll later =
      ((results.foldl Report.record {}).again,
        { later with
          ticket := later.ticket + (results.foldl Report.record {}).failures.length }) := by
  have same := at_.relinkTasks_again ways recur (fun _ => id) (le_refl later.ticket)
  have failures := (Report.foldl_record results {}).2.2.2
  rw [relinkAll_eq, tasks_rewritten, same, failures, ← Report.foldl_again]
  rfl

/-- Whether the manifest is apart from the temporary files that a process will make. Their names
carry the number of the process and a count that goes up, so only a link to a file that an earlier
process of the same number left behind can lead from the manifest to one. -/
def ManifestApart (host : Host) (config : Config) : Prop :=
  ∀ location entry, host.tree.status host.directory (host.absolutize config.manifestPath) =
    .ok (location, entry) -> ¬IsTemporary host.processId host.ticket location

/-- A manifest that is not a hidden file is apart. -/
theorem ManifestApart.of_visible
    (visible : ∀ location entry, host.tree.status host.directory
      (host.absolutize config.manifestPath) = .ok (location, entry) -> ¬Tree.IsHidden location) :
    ManifestApart host config := by
  intro location entry found temporary
  exact visible location entry found temporary.isHidden

/-- In a tree without links the manifest is no temporary file. -/
theorem ManifestApart.of_linkFree (linkFree : host.tree.LinkFree []) :
    ManifestApart host config := by
  have isName : IsName "package.json" := ⟨by decide, by decide, by decide, by decide⟩
  obtain ⟨names, areNames, shape⟩ := Path.exists_absolutize_join
    (Location.path_isAbsolute host.directory) config.directory isName
  have top : host.tree.status host.directory (Location.path []) = .ok ([], .directory) := by
    rw [Tree.status_eq_ok_iff]
    rfl
  have way := @Tree.LinkFree.resolve _ host.directory [] [] (names ++ ["package.json"])
    linkFree areNames (by simp) top true
  rw [List.nil_append] at way
  refine .of_visible fun location entry found => ?_
  rw [Host.absolutize, Host.workingPath, Config.manifestPath, shape, Tree.status_eq_ok_iff] at found
  rcases way with ⟨cause, blocked⟩ | arrived
  · rw [blocked] at found
    cases found
  · rw [arrived] at found
    obtain ⟨rfl, -⟩ := Place.mk.inj (Except.ok.inj found)
    have areVisible : Tree.AreVisible ["package.json"] := by decide
    exact areVisible.not_isHidden (by simp) names

theorem OutputAt.readManifest_again (at_ : OutputAt host config {} snapshot output out)
    (apart : ManifestApart host config) {later : Host}
    (directory_eq : later.directory = host.directory)
    (rewrites : Tree.Rewrites (IsTemporary host.processId host.ticket)
      (IsRelinked snapshot output out written) host.tree later.tree) :
    readManifest later (host.absolutize config.manifestPath) = .ok snapshot.manifest := by
  obtain ⟨text, read, parsed⟩ := readManifest_eq_ok_iff.1 at_.taken.manifest
  obtain ⟨location, content, executable, found, decoded⟩ := readText_eq_ok_iff.1 read
  obtain ⟨content', executable', there, found', was⟩ :=
    rewrites.status_file found (apart _ _ found)
  rw [readManifest_eq_ok_iff]
  refine ⟨text, readText_eq_ok_iff.2 ⟨location, content', executable', ?_, ?_⟩, parsed⟩
  · rw [directory_eq, found']
  rcases was with rfl | ⟨task, member, -, rest, areNames, path_eq, rfl, rfl⟩
  · exact decoded
  · -- A manifest that is a tracked file is relinked to itself.
    obtain ⟨rest', executable'', isTracked, status⟩ := at_.tracked member
    obtain rfl := isTracked.rest_eq areNames path_eq
    have content_eq := (Tree.lookup_of_status found).symm.trans (Tree.lookup_of_status status)
    obtain ⟨rfl, -⟩ := Entry.file.inj (Option.some.inj content_eq)
    rw [Utf8.text?_toByteArray, Option.some.injEq] at decoded
    rw [contentOf, relinkTask, decoded, relinkText_manifest task.role task.file parsed,
      Utf8.text?_toByteArray]

/-- What a later pass reads of a tracked file. -/
theorem OutputAt.readText_again (at_ : OutputAt host config {} snapshot output out)
    (progress : Progress snapshot output out written host after) {later : Host}
    (tree_eq : later.tree = after.tree) (directory_eq : later.directory = after.directory)
    (member : task ∈ snapshot.tasks) :
    later.readText task.file = .ok (snapshot.taskAfter written task).text := by
  have bytes := at_.readBytes progress member
  have content : (if task.file ∈ written then snapshot.contentOf task
      else task.text.toByteArray) = (snapshot.taskAfter written task).text.toByteArray := by
    unfold taskAfter textAfter
    dsimp only
    split <;> rfl
  rw [Host.readBytes, ← tree_eq, ← directory_eq, content] at bytes
  rw [Host.readText, Host.readBytes, bytes]
  dsimp only
  rw [Utf8.text?_toByteArray]

/-- What a second pass knows. -/
theorem OutputAt.taken_again (at_ : OutputAt host config {} snapshot output out)
    (apart : ManifestApart host config)
    (progress : Progress snapshot output out written host after) {later : Host}
    (tree_eq : later.tree = after.tree) (directory_eq : later.directory = after.directory) :
    Taken later config {} (snapshot.rewritten written) := by
  have directory_eq' : later.directory = host.directory := directory_eq.trans progress.directory
  have rewrites := progress.rewrites
  rw [← tree_eq] at rewrites
  have absolutize_eq (path : Path) : later.absolutize path = host.absolutize path := by
    rw [Host.absolutize, Host.workingPath, directory_eq']
    rfl
  have output_eq : outputDirectory later config = Location.path output := by
    rw [outputDirectory, absolutize_eq]
    exact at_.output_eq
  have status : later.tree.status later.directory (Location.path output) =
      .ok (out, .directory) := by
    rw [directory_eq']
    exact rewrites.status_directory at_.reached
  -- Each stage of taking a snapshot reads what it read before, or what was written for it.
  refine ⟨?_, ?_, ?_, at_.taken.layout_eq, ?_, fun role => ?_⟩
  · rw [output_eq, Host.isDirectory, Tree.isDirectory, status]
  · rw [absolutize_eq]
    exact at_.readManifest_again apart directory_eq' rewrites
  · obtain ⟨entry, named, root⟩ := at_.taken.entry
    exact ⟨entry, named, by rw [absolutize_eq]; exact root⟩
  · have listed := at_.taken.files
    have same := rewrites.list (fun _ => IsTemporary.isHidden) at_.free at_.reached
    rw [at_.output_eq] at listed
    unfold listOutput Host.visibleFiles at listed ⊢
    rw [output_eq, directory_eq', same]
    exact listed
  · have files_eq : (snapshot.rewritten written).files.filter
        (fun file => roleOf? {} file = some role) =
          (snapshot.tracked role).files.map Prod.fst := by
      refine List.forall₂_eq_eq_eq ▸ List.forall₂_map_right_iff.2 ?_
      exact (forall₂_readFiles (at_.taken.tracked role)).imp fun _ _ both => both.1.symm
    rw [readFiles_eq_ok_iff, tracked_rewritten, files_eq]
    refine List.forall₂_map_right_iff.2 (List.forall₂_map_left_iff.2 (List.forall₂_same.2 ?_))
    rintro ⟨file, text⟩ inside
    have member : ⟨role, file, text⟩ ∈ snapshot.tasks := mem_tasks.2 inside
    exact ⟨rfl, at_.readText_again progress tree_eq directory_eq member⟩

/-- What tracked files came to when no write failed comes again. -/
theorem forall₂_recurs_of_ok {later : Host} {todo : List Task}
    {results : List (Except FailedWrite FileResult)}
    (tells : List.Forall₂ (Tells snapshot) todo results)
    (ok : ∀ result ∈ results, ∃ outcome, result = .ok outcome) :
    List.Forall₂ (Recurs snapshot (results.filterMap Report.writtenPath?) later) todo results := by
  refine (forall₂_with_mem tells).imp ?_
  rintro task result ⟨told, -, inside⟩
  obtain ⟨outcome, rfl⟩ := ok result inside
  cases told with
  | ok =>
    refine .ok fun differs => List.mem_filterMap.2 ⟨_, inside, ?_⟩
    rw [writtenPath?_outcomeOf, if_pos differs]

/-- What a second pass comes to, if what could not be written cannot be. -/
theorem OutputAt.pass_again (at_ : OutputAt host config {} snapshot output out)
    (ways : snapshot.HasLegibleWays) (apart : ManifestApart host config)
    (progress : Progress snapshot output out written host after) (later : Host)
    (tree_eq : later.tree = after.tree) (directory_eq : later.directory = after.directory)
    {results : List (Except FailedWrite FileResult)}
    (recur : List.Forall₂ (Recurs snapshot written later) snapshot.tasks results) :
    relinkOutput later config {} = (.ok (results.foldl Report.record {}).again,
      { later with
        ticket := later.ticket + (results.foldl Report.record {}).failures.length }) :=
  relinkOutput_of_take
    (take_eq_ok_iff.2 (at_.taken_again apart progress tree_eq directory_eq))
    (at_.relinkAll_again ways recur)

end Snapshot

/-- A pass that is made where another one has relinked every file finds nothing to replace and
writes nothing, and its report is otherwise the same. No link may lie in the output directory, and
what a replacement can name must be free of quotes and blanks. The second pass may be made by
another process. -/
theorem relinkOutput_again {host after later : Host} {config : Config} {report : Report}
    (named : host.tree.Named)
    (linkFree : ∀ out, host.tree.status host.directory (Snapshot.outputDirectory host config) =
      .ok (out, .directory) -> host.tree.LinkFree out)
    (quotable : ∀ snapshot, Snapshot.take host config {} = .ok snapshot -> snapshot.IsQuotable)
    (unicode : ∀ snapshot, Snapshot.take host config {} = .ok snapshot -> snapshot.HasUnicodeWays)
    (apart : Snapshot.ManifestApart host config)
    (done : relinkOutput host config {} = (.ok report, after))
    (ran : report.isSkipped = false) (complete : report.failures = [])
    (tree_eq : later.tree = after.tree) (directory_eq : later.directory = after.directory) :
    relinkOutput later config {} =
      (.ok { report with replacements := 0, written := [] }, later) := by
  obtain ⟨snapshot, taken, all⟩ := exists_take_of_relinkOutput done ran
  have known := Snapshot.take_eq_ok_iff.1 taken
  obtain ⟨output, out, at_⟩ := Snapshot.exists_outputAt known named linkFree
  have ways := (quotable snapshot taken).ways known named (unicode snapshot taken)
  obtain ⟨results, tells, rfl, progress⟩ := at_.pass all
  rw [(Report.foldl_record results {}).2.2.1] at progress
  have recur := @Snapshot.forall₂_recurs_of_ok snapshot later _ _ tells
    (Report.ok_of_failures complete)
  have second := at_.pass_again ways apart progress later tree_eq directory_eq recur
  rw [complete] at second
  exact second

/-- The small package with a manifest that is a link to a hidden file in the output directory,
which bears the name of the first temporary file. -/
def hiddenManifest : Host :=
  { Snapshot.samplePackage with
    tree := (⟨(["p", "dist", ".index.d.ts.tmp.1.0"],
        .file "\x7b\"main\":\"dist/index.js\"\x7d".toByteArray false) ::
      Snapshot.samplePackage.tree.entries⟩ : Tree).set ["p", "package.json"]
        (.link ⟨"dist/.index.d.ts.tmp.1.0"⟩) }

theorem hiddenManifest_take :
    Snapshot.take hiddenManifest Snapshot.sampleConfig {} = .ok Snapshot.sampleSnapshot := by
  have children : hiddenManifest.tree.children ["p", "dist"] =
      [".index.d.ts.tmp.1.0", "b.js", "index.d.ts", "index.js"] := by
    rw [Tree.children, show hiddenManifest.tree.entries.filterMap _ = _ from
      (by decide : _ = [".index.d.ts.tmp.1.0", "b.js", "index.d.ts", "index.js"])]
    exact List.mergeSort_of_pairwise (by decide)
  exact Snapshot.take_sampleSnapshot rfl (by decide)
    (Snapshot.visibleFiles_of_children rfl (by decide) children
      (by decide : _ = 63 + 1) (by decide))
    (@Snapshot.readText_of_status _ _ ["p", "dist", ".index.d.ts.tmp.1.0"] _ false (by decide))
    (@Snapshot.readText_of_status _ _ ["p", "dist", "b.js"] _ false (by decide))
    (@Snapshot.readText_of_status _ _ ["p", "dist", "index.js"] _ false (by decide))
    (@Snapshot.readText_of_status _ _ ["p", "dist", "index.d.ts"] _ false (by decide))

/-- A pass can use up a manifest that bears a temporary name. The next pass then finds none. -/
theorem relinkOutput_loses_manifest :
    ∃ host config report after, host.tree.Named ∧
      (∀ out, host.tree.status host.directory (Snapshot.outputDirectory host config) =
        .ok (out, .directory) -> host.tree.LinkFree out) ∧
      (∀ snapshot, Snapshot.take host config {} = .ok snapshot -> snapshot.IsQuotable) ∧
      relinkOutput host config {} = (.ok report, after) ∧ report.isSkipped = false ∧
      report.failures = [] ∧
      ∃ path, relinkOutput after config {} = (.error (.manifestMissing path), after) := by
  have told : (Snapshot.sampleSnapshot.relinkAll hiddenManifest).1 = sampleReport := by
    decide +kernel
  have done : Snapshot.sampleSnapshot.relinkAll hiddenManifest =
      (sampleReport, (Snapshot.sampleSnapshot.relinkAll hiddenManifest).2) := by
    rw [← told]
  have missing : Snapshot.take (Snapshot.sampleSnapshot.relinkAll hiddenManifest).2
      Snapshot.sampleConfig {} = .error (.manifestMissing ⟨"/p/package.json"⟩) :=
    Snapshot.take_of_readManifest (by decide +kernel) (by decide +kernel)
  refine ⟨hiddenManifest, Snapshot.sampleConfig, sampleReport,
    (Snapshot.sampleSnapshot.relinkAll hiddenManifest).2, by decide, ?_, ?_,
    relinkOutput_of_take hiddenManifest_take done, rfl, rfl, ⟨"/p/package.json"⟩, ?_⟩
  · intro out found
    have reached : hiddenManifest.tree.status hiddenManifest.directory
        (Snapshot.outputDirectory hiddenManifest Snapshot.sampleConfig) =
          .ok (["p", "dist"], .directory) := by
      decide
    obtain ⟨rfl, -⟩ := Prod.mk.inj (Except.ok.inj (found.symm.trans reached))
    exact Tree.linkFree_of_entriesBelow (by decide)
  · intro snapshot taken
    obtain rfl := Except.ok.inj (hiddenManifest_take.symm.trans taken)
    exact Snapshot.sampleSnapshot_isQuotable
  · exact relinkOutput_of_error missing

/-- In the small package, two specifiers are replaced, and then none is. -/
theorem relinkOutput_again_samplePackage :
    ∃ after, relinkOutput Snapshot.samplePackage Snapshot.sampleConfig {} =
        (.ok sampleReport, after) ∧
      relinkOutput after Snapshot.sampleConfig {} = (.ok { filesScanned := 3 }, after) := by
  have linkFree := Snapshot.samplePackage_linkFree
  have apart : Snapshot.ManifestApart Snapshot.samplePackage Snapshot.sampleConfig :=
    .of_linkFree (linkFree [])
  have quotable (snapshot : Snapshot)
      (taken : Snapshot.take Snapshot.samplePackage Snapshot.sampleConfig {} = .ok snapshot) :
      snapshot.IsQuotable := by
    obtain rfl := Except.ok.inj (Snapshot.samplePackage_take.symm.trans taken)
    exact Snapshot.sampleSnapshot_isQuotable
  have unicode (snapshot : Snapshot)
      (taken : Snapshot.take Snapshot.samplePackage Snapshot.sampleConfig {} = .ok snapshot) :
      snapshot.HasUnicodeWays := by
    obtain rfl := Except.ok.inj (Snapshot.samplePackage_take.symm.trans taken)
    exact Snapshot.sampleSnapshot_hasUnicodeWays
  exact ⟨_, samplePackage_relinkOutput, relinkOutput_again Snapshot.samplePackage_named
    (fun out _ => linkFree out) quotable unicode apart samplePackage_relinkOutput rfl rfl rfl rfl⟩

end Relink
