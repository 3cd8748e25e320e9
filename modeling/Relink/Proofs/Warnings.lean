import Mathlib.Data.List.Flatten
import Relink.Proofs.Tracked

/-!
# What a report warns of

The warnings about a file are told with its result. A file that could not be written has no other
result than that, so what was found in it is not told: the warnings of a report are those about
all other tracked files, declarations first, in the order of the listing.
-/

namespace Relink

namespace Report

/-- The warnings that the result of a file tells. -/
def warningsOf : Except FailedWrite FileResult -> List Warning
  | .ok outcome => outcome.warnings
  | .error _ => []

theorem warnings_record (report : Report) (result : Except FailedWrite FileResult) :
    (report.record result).warnings = report.warnings ++ warningsOf result := by
  cases result with
  | ok outcome => rfl
  | error failure => exact (List.append_nil _).symm

/-- A report tells the warnings of all results, in their order. -/
theorem warnings_foldl_record (results : List (Except FailedWrite FileResult)) (report : Report) :
    (results.foldl record report).warnings = report.warnings ++ results.flatMap warningsOf := by
  induction results generalizing report with
  | nil => exact (List.append_nil _).symm
  | cons result results ih =>
    rw [List.foldl_cons, ih, warnings_record, List.flatMap_cons, List.append_assoc]

/-- The files that a report tells could not be written. -/
def unwritten (report : Report) : List Path :=
  report.failures.map FailedWrite.path

theorem unwritten_foldl_record (results : List (Except FailedWrite FileResult)) :
    (results.foldl record {}).unwritten = (results.filterMap failure?).map FailedWrite.path := by
  rw [unwritten, (foldl_record results {}).2.2.2, List.nil_append]

end Report

/-- Leaving out values leaves out nothing else exactly when nothing comes of them. -/
theorem flatMap_filter_eq_iff {α β : Type} {keeps : α -> Bool} {step : α -> List β}
    {values : List α} :
    (values.filter keeps).flatMap step = values.flatMap step ↔
      ∀ value ∈ values, keeps value = false -> step value = [] := by
  induction values with
  | nil => simp
  | cons value values ih =>
    rw [List.flatMap_cons, List.forall_mem_cons, ← ih]
    cases kept : keeps value with
    | true => simp [kept]
    | false =>
      have shorter : ((values.filter keeps).flatMap step).length ≤ (values.flatMap step).length :=
        (List.filter_sublist.flatMap step).length_le
      rw [List.filter_cons_of_neg (by simp [kept])]
      constructor
      · intro same
        have lengths := congrArg List.length same
        rw [List.length_append] at lengths
        have nothing : step value = [] := List.length_eq_zero_iff.1 (by omega)
        rw [nothing, List.nil_append] at same
        exact ⟨fun _ => nothing, same⟩
      · rintro ⟨nothing, same⟩
        rw [nothing rfl, List.nil_append, same]

namespace Snapshot

variable {snapshot : Snapshot} {host origin : Host} {config : Config} {layout : Layout}

/-- The warnings about the specifiers of a tracked file. -/
def warnings (snapshot : Snapshot) (task : Task) : List Warning :=
  (snapshot.relinkTask task).warnings

/-- The warnings about the specifiers of all tracked files, declarations first. -/
def allWarnings (snapshot : Snapshot) : List Warning :=
  (snapshot.declarations.files.flatMap fun (file, text) =>
      (snapshot.relinkText .declaration file text).warnings) ++
    snapshot.scripts.files.flatMap fun (file, text) =>
      (snapshot.relinkText .script file text).warnings

theorem allWarnings_eq (snapshot : Snapshot) :
    snapshot.allWarnings = snapshot.tasks.flatMap snapshot.warnings := by
  rw [tasks, List.flatMap_append, tasksOf, tasksOf, List.flatMap_map, List.flatMap_map]
  rfl

/-- What is told of files is what was found in those that are not told to have failed. -/
theorem flatMap_warningsOf {todo : List Task} {results : List (Except FailedWrite FileResult)}
    (tells : List.Forall₂ (Tells snapshot) todo results) (once : (todo.map Task.file).Nodup) :
    results.flatMap Report.warningsOf =
      (todo.filter fun task =>
        !((results.filterMap Report.failure?).map FailedWrite.path).contains task.file).flatMap
          snapshot.warnings := by
  induction tells with
  | nil => rfl
  | @cons task result todo results told later ih =>
    obtain ⟨absent, once⟩ := List.nodup_cons.1 once
    rw [List.flatMap_cons, ih once, List.filterMap_cons]
    cases told with
    | ok =>
      have silent : ((results.filterMap Report.failure?).map FailedWrite.path).contains task.file =
          false := by
        rw [← Bool.not_eq_true, List.contains_iff_mem]
        exact fun failed => absent ((sublist_failed later).subset failed)
      dsimp only [Report.failure?]
      rw [List.filter_cons_of_pos (by rw [silent]; rfl), List.flatMap_cons]
      rfl
    | failed cause differs =>
      dsimp only [Report.failure?]
      rw [List.map_cons, List.filter_cons_of_neg (by simp)]
      refine congrArg (List.flatMap snapshot.warnings) (List.filter_congr fun other member => ?_)
      have apart : other.file ≠ task.file := fun same =>
        absent (same ▸ List.mem_map_of_mem member)
      rw [List.contains_cons, beq_false_of_ne apart, Bool.false_or]

/-- The warnings of a report are those about the tracked files that are not told to have failed.
They are the warnings about all of them exactly when nothing was found in those that failed. -/
theorem relinkAll_warnings (taken : take origin config layout = .ok snapshot)
    (proper : origin.tree.IsProper) (host : Host) :
    let report := (snapshot.relinkAll host).1
    report.warnings =
        (snapshot.tasks.filter fun task => !report.unwritten.contains task.file).flatMap
          snapshot.warnings ∧
      (report.warnings = snapshot.allWarnings ↔
        ∀ task ∈ snapshot.tasks, task.file ∈ report.unwritten -> snapshot.warnings task = []) := by
  intro report
  have once := (take_eq_ok_iff.1 taken).nodup_tasks proper
  have told : report.warnings =
      (snapshot.tasks.filter fun task => !report.unwritten.contains task.file).flatMap
        snapshot.warnings := by
    simp only [report, relinkAll_eq, Report.warnings_foldl_record, Report.unwritten_foldl_record]
    rw [flatMap_warningsOf (forall₂_relinkTasks host snapshot.tasks) once]
    rfl
  refine ⟨told, ?_⟩
  rw [told, allWarnings_eq, flatMap_filter_eq_iff]
  simp

/-! ## A package whose output goes away -/

/-- A package with a declaration and two scripts, each of which refers to a file that is not
there. -/
def laxPackage : Host where
  tree := ⟨[(["p"], .directory),
    (["p", "package.json"], .file "\x7b\"main\":\"dist/index.js\"\x7d".toByteArray false),
    (["p", "dist"], .directory),
    (["p", "dist", "b.js"], .file "import './c';".toByteArray false),
    (["p", "dist", "index.d.ts"], .file "export * from './e';".toByteArray false),
    (["p", "dist", "index.js"], .file "import './b';import './d';".toByteArray false)]⟩
  directory := ["p"]

/-- What a pass knows of that package. -/
def laxSnapshot : Snapshot where
  root := ⟨"/p/dist"⟩
  layout := {}
  manifest := { entry := some "dist/index.js" }
  files := [⟨"/p/dist/b.js"⟩, ⟨"/p/dist/index.d.ts"⟩, ⟨"/p/dist/index.js"⟩]
  scripts := .ofFiles [(⟨"/p/dist/b.js"⟩, "import './c';"),
    (⟨"/p/dist/index.js"⟩, "import './b';import './d';")]
  declarations := .ofFiles [(⟨"/p/dist/index.d.ts"⟩, "export * from './e';")]

/-- That package after its output was removed. -/
def bareHost : Host :=
  { laxPackage with tree := (laxPackage.tree.eraseBelow ["p", "dist"]).erase ["p", "dist"] }

theorem laxPackage_take : take laxPackage sampleConfig {} = .ok laxSnapshot := by
  have found : laxPackage.tree.status ["p"] ⟨"/p/dist"⟩ = .ok (["p", "dist"], .directory) := by
    decide
  have children : laxPackage.tree.children ["p", "dist"] = ["b.js", "index.d.ts", "index.js"] := by
    rw [Tree.children, show laxPackage.tree.entries.filterMap _ = _ from
      (by decide : _ = ["b.js", "index.d.ts", "index.js"])]
    exact List.mergeSort_of_pairwise (by decide)
  have manifest : laxPackage.readText ⟨"/p/package.json"⟩ =
      .ok "\x7b\"main\":\"dist/index.js\"\x7d" :=
    @readText_of_status _ _ ["p", "package.json"] _ false (by decide)
  have script : laxPackage.readText ⟨"/p/dist/b.js"⟩ = .ok "import './c';" :=
    @readText_of_status _ _ ["p", "dist", "b.js"] _ false (by decide)
  have declaration : laxPackage.readText ⟨"/p/dist/index.d.ts"⟩ = .ok "export * from './e';" :=
    @readText_of_status _ _ ["p", "dist", "index.d.ts"] _ false (by decide)
  have index : laxPackage.readText ⟨"/p/dist/index.js"⟩ = .ok "import './b';import './d';" :=
    @readText_of_status _ _ ["p", "dist", "index.js"] _ false (by decide)
  refine take_of_visibleFiles rfl rfl found manifest (by decide) rfl (by decide)
    (visibleFiles_of_children rfl found children (by decide : _ = 48 + 1)
      (by decide)) fun role => ?_
  cases role with
  | script =>
    rw [show laxSnapshot.files.filter _ = _ from
      (by decide : _ = [⟨"/p/dist/b.js"⟩, ⟨"/p/dist/index.js"⟩])]
    exact .cons ⟨rfl, script⟩ (.cons ⟨rfl, index⟩ .nil)
  | declaration =>
    rw [show laxSnapshot.files.filter _ = _ from
      (by decide : _ = [⟨"/p/dist/index.d.ts"⟩])]
    exact .cons ⟨rfl, declaration⟩ .nil

/-- What was found in the files. -/
theorem laxSnapshot_warnings : laxSnapshot.tasks.map laxSnapshot.warnings =
    [[⟨⟨"/p/dist/index.d.ts"⟩, "./e", 1, .unresolved⟩],
      [⟨⟨"/p/dist/b.js"⟩, "./c", 1, .unresolved⟩],
      [⟨⟨"/p/dist/index.js"⟩, "./d", 1, .unresolved⟩]] := by
  decide +kernel

/-- Without an output, the script that is to be changed cannot be written. -/
theorem laxSnapshot_relinkAll : (laxSnapshot.relinkAll bareHost).1 =
    { filesScanned := 3
      warnings := [⟨⟨"/p/dist/index.d.ts"⟩, "./e", 1, .unresolved⟩,
        ⟨⟨"/p/dist/b.js"⟩, "./c", 1, .unresolved⟩]
      failures := [⟨⟨"/p/dist/index.js"⟩, Cause.notFound.message⟩] } := by
  decide +kernel

/-- The warnings of the files that nothing changes are told, though nothing can be written. -/
theorem relinkAll_warnings_laxPackage :
    take laxPackage sampleConfig {} = .ok laxSnapshot ∧ laxPackage.tree.IsProper ∧
      (laxSnapshot.relinkAll bareHost).1.unwritten = [⟨"/p/dist/index.js"⟩] ∧
      (laxSnapshot.relinkAll bareHost).1.warnings =
        [⟨⟨"/p/dist/index.d.ts"⟩, "./e", 1, .unresolved⟩,
          ⟨⟨"/p/dist/b.js"⟩, "./c", 1, .unresolved⟩] := by
  have proper : laxPackage.tree.IsProper := by decide
  have unwritten : (laxSnapshot.relinkAll bareHost).1.unwritten = [⟨"/p/dist/index.js"⟩] := by
    rw [laxSnapshot_relinkAll]
    rfl
  obtain ⟨declaration, later⟩ := List.cons.inj laxSnapshot_warnings
  obtain ⟨script, -⟩ := List.cons.inj later
  refine ⟨laxPackage_take, proper, unwritten, ?_⟩
  rw [(relinkAll_warnings laxPackage_take proper bareHost).1, unwritten,
    show laxSnapshot.tasks.filter _ = _ from
      (by decide : _ = [⟨.declaration, ⟨"/p/dist/index.d.ts"⟩, "export * from './e';"⟩,
        ⟨.script, ⟨"/p/dist/b.js"⟩, "import './c';"⟩]),
    List.flatMap_cons, List.flatMap_singleton, declaration, script]
  rfl

/-- What was found in the script that cannot be written is lost. -/
theorem relinkAll_drops :
    take laxPackage sampleConfig {} = .ok laxSnapshot ∧
      (laxSnapshot.relinkAll bareHost).1.warnings =
        [⟨⟨"/p/dist/index.d.ts"⟩, "./e", 1, .unresolved⟩,
          ⟨⟨"/p/dist/b.js"⟩, "./c", 1, .unresolved⟩] ∧
      laxSnapshot.allWarnings =
        [⟨⟨"/p/dist/index.d.ts"⟩, "./e", 1, .unresolved⟩,
          ⟨⟨"/p/dist/b.js"⟩, "./c", 1, .unresolved⟩,
          ⟨⟨"/p/dist/index.js"⟩, "./d", 1, .unresolved⟩] ∧
      (laxSnapshot.relinkAll bareHost).1.warnings ≠ laxSnapshot.allWarnings := by
  have told : (laxSnapshot.relinkAll bareHost).1.warnings =
      [⟨⟨"/p/dist/index.d.ts"⟩, "./e", 1, .unresolved⟩,
        ⟨⟨"/p/dist/b.js"⟩, "./c", 1, .unresolved⟩] := by
    rw [laxSnapshot_relinkAll]
  have all : laxSnapshot.allWarnings =
      [⟨⟨"/p/dist/index.d.ts"⟩, "./e", 1, .unresolved⟩,
        ⟨⟨"/p/dist/b.js"⟩, "./c", 1, .unresolved⟩,
        ⟨⟨"/p/dist/index.js"⟩, "./d", 1, .unresolved⟩] := by
    rw [allWarnings_eq, List.flatMap_def, laxSnapshot_warnings]
    rfl
  refine ⟨laxPackage_take, told, all, ?_⟩
  rw [told, all]
  decide

end Snapshot
end Relink
