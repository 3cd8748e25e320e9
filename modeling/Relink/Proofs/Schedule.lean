import Relink.Proofs.Frame

/-!
# The order in which files are relinked

A step of a pass reads the snapshot, which does not change, and touches its own file and a name
that no other step takes. So the files may be relinked in any order. Their results are put back
into the order of the files.
-/

namespace Relink

/-- An entry without the permission to be run. -/
def Entry.plain : Entry -> Entry
  | .file content _ => .file content false
  | other => other

namespace Snapshot

variable {host now now' : Host} {config : Config} {layout : Layout} {snapshot : Snapshot}
  {output : List String} {out : Location} {written written' : List Path} {task : Task}

/-- Relink tracked files in the order of the given steps. A step is a file and its place in the
report, where its result is told whenever it was relinked. -/
def relinkScheduled (snapshot : Snapshot) (host : Host) (steps : List (Task × Nat)) :
    Report × Host :=
  let (results, after) := snapshot.relinkTasks host (steps.map Prod.fst)
  let told := (steps.map Prod.snd).zip results
  (((List.range steps.length).filterMap (List.lookup · told)).foldl Report.record {}, after)

/-- Whether what is seen of a write does not depend on how many temporary names a pass has taken
before. The success of a write does where a name is almost too long, or where a directory bears
one of the names. What a write leaves does where a file bears one, which the write that takes the
name uses up. -/
def IsSteady {α : Type} (snapshot : Snapshot) (host : Host)
    (seen : Except Cause Unit × Host -> α) : Prop :=
  ∀ task ∈ snapshot.tasks, snapshot.changes task = true -> ∀ ticket, host.ticket ≤ ticket ->
    ticket < host.ticket + snapshot.tasks.length ->
      seen ({ host with ticket }.writeWhole task.file (snapshot.contentOf task)) =
        seen (host.writeWhole task.file (snapshot.contentOf task))

/-! ## What is told -/

/-- What becomes of a file is decided by what becomes of its write. -/
theorem attempt_congr
    (same : snapshot.changes task = true ->
      (now.writeWhole task.file (snapshot.contentOf task)).1 =
        (now'.writeWhole task.file (snapshot.contentOf task)).1) :
    (snapshot.attempt now task).1 = (snapshot.attempt now' task).1 := by
  rw [attempt_eq, attempt_eq]
  cases differs : snapshot.changes task with
  | false => rw [if_neg (by decide), if_neg (by decide)]
  | true =>
    replace same := same differs
    rw [if_pos rfl, if_pos rfl]
    generalize now.writeWhole task.file (snapshot.contentOf task) = done at same ⊢
    generalize now'.writeWhole task.file (snapshot.contentOf task) = done' at same ⊢
    obtain ⟨result, after⟩ := done
    obtain ⟨result', after'⟩ := done'
    obtain rfl : result = result' := same
    cases result <;> rfl

/-- What becomes of a file is decided by whether it can be replaced. -/
theorem Attempt.result_eq {outer : List String} {directory : Location} {name : String}
    {result result' : Except FailedWrite FileResult} {after after' : Host}
    (attempt : Attempt snapshot task outer directory name now result after)
    (attempt' : Attempt snapshot task outer directory name now' result' after')
    (same : now.refusal? directory outer name = now'.refusal? directory outer name) :
    result = result' := by
  cases attempt with
  | kept unchanged =>
    cases attempt' with
    | kept _ => rfl
    | refused differs _ => simp [unchanged] at differs
    | replaced _ _ => rfl
  | refused differs refusal =>
    cases attempt' with
    | kept unchanged => simp [differs] at unchanged
    | refused _ refusal' =>
      obtain rfl := Option.some.inj (refusal.symm.trans (same.trans refusal'))
      rfl
    | replaced _ open_ =>
      rw [same, open_] at refusal
      cases refusal
  | replaced differs open_ =>
    cases attempt' with
    | kept unchanged => simp [differs] at unchanged
    | refused _ refusal =>
      rw [same, refusal] at open_
      cases open_
    | replaced _ _ => rfl

/-- A host that has taken names has come no further. -/
theorem Progress.waited {ticket : Nat} (later : host.ticket ≤ ticket) :
    Progress snapshot output out [] host { host with ticket } :=
  ⟨rfl, rfl, later, .refl, fun _ _ impossible => absurd impossible List.not_mem_nil,
    fun _ _ found => .inl found⟩

/-- While a pass runs, a file comes to what it would have come to at first. -/
theorem OutputAt.attempt_steady (at_ : OutputAt host config layout snapshot output out)
    (proper : host.tree.IsProper) (steady : snapshot.IsSteady host Prod.fst)
    (progress : Progress snapshot output out written host now) (member : task ∈ snapshot.tasks)
    (bound : now.ticket < host.ticket + snapshot.tasks.length) :
    (snapshot.attempt now task).1 = (snapshot.attempt host task).1 := by
  obtain ⟨inner, name, isTracked, seat⟩ := at_.seat member
  have waited : Progress snapshot output out [] host { host with ticket := now.ticket } :=
    .waited progress.ticket
  have first := at_.attempt progress member isTracked seat
  have second := at_.attempt waited member isTracked seat
  calc (snapshot.attempt now task).1
      = (snapshot.attempt { host with ticket := now.ticket } task).1 := by
        apply first.result_eq second
        unfold Host.refusal?
        rw [progress.processId]
        exact progress.rewrites.refusal?_eq proper _ _ _
    _ = (snapshot.attempt host task).1 :=
        attempt_congr fun differs => steady task member differs _ progress.ticket bound

/-- In whatever order files are relinked, each comes to what it would have come to at first. -/
theorem OutputAt.relinkTasks_steady (at_ : OutputAt host config layout snapshot output out)
    (proper : host.tree.IsProper) (steady : snapshot.IsSteady host Prod.fst)
    (progress : Progress snapshot output out written host now) {todo : List Task}
    (among : ∀ task ∈ todo, task ∈ snapshot.tasks)
    (bound : now.ticket + todo.length ≤ host.ticket + snapshot.tasks.length) :
    (snapshot.relinkTasks now todo).1 = todo.map fun task => (snapshot.attempt host task).1 := by
  induction todo generalizing now written with
  | nil => rfl
  | cons task todo ih =>
    obtain ⟨member, among⟩ := List.forall_mem_cons.1 among
    rw [List.length_cons] at bound
    have taken := @ticket_attempt snapshot now task
    have later := ih (at_.progress progress member) among (by omega)
    rw [List.map_cons, ← later,
      ← at_.attempt_steady proper steady progress member (by omega)]
    rfl

/-- Results that are told at their places come in the order of the files. -/
theorem filterMap_lookup_of_perm {α β : Type} {values : List α} {steps : List (α × Nat)}
    (perm : steps.Perm values.zipIdx) (answer : α -> β) :
    (List.range steps.length).filterMap
        (List.lookup · ((steps.map Prod.snd).zip ((steps.map Prod.fst).map answer))) =
      values.map answer := by
  -- Answers are looked up by the place of their value, and no two values share one.
  have places : values.zipIdx.map Prod.snd = List.range steps.length := by
    rw [perm.length_eq, List.length_zipIdx, List.zipIdx_map_snd, List.range_eq_range']
  have paired : (steps.map Prod.snd).zip ((steps.map Prod.fst).map answer) =
      steps.map fun (value, place) => (place, answer value) := by
    rw [List.map_map, List.zip_map']
    rfl
  have nodup : ((steps.map fun (value, place) => (place, answer value)).map Prod.fst).Nodup := by
    have same : (steps.map fun (value, place) => (place, answer value)).map Prod.fst =
        steps.map Prod.snd := by
      rw [List.map_map]
      rfl
    rw [same, (perm.map Prod.snd).nodup_iff, places]
    exact List.nodup_range
  have found : ∀ step ∈ values.zipIdx,
      (steps.map fun (value, place) => (place, answer value)).lookup step.2 =
        some (answer step.1) := by
    intro step member
    exact lookup_of_mem_of_nodup nodup (List.mem_map.2 ⟨step, perm.mem_iff.2 member, rfl⟩)
  calc (List.range steps.length).filterMap
        (List.lookup · ((steps.map Prod.snd).zip ((steps.map Prod.fst).map answer)))
      = values.zipIdx.filterMap fun step => some (answer step.1) := by
        rw [paired, ← places, List.filterMap_map]
        exact List.filterMap_congr found
    _ = (values.zipIdx.map Prod.fst).map answer := by
        rw [List.map_map, ← List.filterMap_eq_map]
        rfl
    _ = values.map answer := by rw [List.zipIdx_map_fst]

/-! ## What is left -/

variable {location : Location} {content : ByteArray}

/-- Whether nothing bore the names that were used up to write files. -/
def Spares (snapshot : Snapshot) (output : List String) (out : Location) (written : List Path)
    (host : Host) (ticket : Nat) : Prop :=
  ∀ location, IsSpent snapshot output out written host ticket location ->
    host.tree.lookup location = none

/-- What lies where a file was written. -/
theorem Progress.lookup_relinked (progress : Progress snapshot output out written host now)
    (isRelinked : IsRelinked snapshot output out written location content) :
    ∃ executable, now.tree.lookup location = some (.file content executable) := by
  obtain ⟨task, member, told, rest, areNames, path_eq, rfl, rfl⟩ := isRelinked
  obtain ⟨rest', executable, areNames', path_eq', found⟩ := progress.holds task member told
  have same := Location.path_inj areNames areNames'
    (congrArg Path.components (path_eq.symm.trans path_eq'))
  rw [List.append_cancel_left same]
  exact ⟨executable, found⟩

/-- Where no file was written and no name was used up that something bore, everything is as it
was. -/
theorem Progress.lookup_unwritten (progress : Progress snapshot output out written host now)
    (apart : ¬∃ content, IsRelinked snapshot output out written location content)
    (unborne : IsSpent snapshot output out written host now.ticket location ->
      host.tree.lookup location = none) :
    now.tree.lookup location = host.tree.lookup location := by
  have turns := progress.spends.turns location
  generalize host.tree.lookup location = entry at turns unborne ⊢
  generalize now.tree.lookup location = entry' at turns ⊢
  cases turns with
  | same => rfl
  | written new => exact absurd ⟨_, new⟩ apart
  | gone spent => cases unborne spent

/-- Two ways to write the same files leave the same where neither used up a name that something
bore, or they leave a file that both have written. -/
theorem Progress.eq_or_isRelinked (progress : Progress snapshot output out written host now)
    (progress' : Progress snapshot output out written' host now')
    (same : ∀ file, file ∈ written ↔ file ∈ written')
    (unborne : IsSpent snapshot output out written host now.ticket location ->
      host.tree.lookup location = none)
    (unborne' : IsSpent snapshot output out written' host now'.ticket location ->
      host.tree.lookup location = none) :
    now.tree.lookup location = now'.tree.lookup location ∨
      ∃ content, IsRelinked snapshot output out written location content ∧
        IsRelinked snapshot output out written' location content := by
  by_cases isRelinked : ∃ content, IsRelinked snapshot output out written location content
  · obtain ⟨content, isRelinked⟩ := isRelinked
    exact .inr ⟨content, isRelinked, isRelinked.mono fun file => (same file).1⟩
  · have apart : ¬∃ content, IsRelinked snapshot output out written' location content := by
      rintro ⟨content, isRelinked'⟩
      exact isRelinked ⟨content, isRelinked'.mono fun file => (same file).2⟩
    rw [progress.lookup_unwritten isRelinked unborne,
      progress'.lookup_unwritten apart unborne']
    exact .inl rfl

theorem Progress.plain_eq (progress : Progress snapshot output out written host now)
    (progress' : Progress snapshot output out written' host now')
    (same : ∀ file, file ∈ written ↔ file ∈ written')
    (ordinary : ¬IsTemporary host.processId host.ticket location) :
    (now.tree.lookup location).map Entry.plain =
      (now'.tree.lookup location).map Entry.plain := by
  rcases progress.eq_or_isRelinked progress' same (fun spent => absurd spent.isTemporary ordinary)
      (fun spent => absurd spent.isTemporary ordinary) with
    equal | ⟨content, isRelinked, isRelinked'⟩
  · rw [equal]
  · obtain ⟨executable, found⟩ := progress.lookup_relinked isRelinked
    obtain ⟨executable', found'⟩ := progress'.lookup_relinked isRelinked'
    rw [found, found']
    rfl

/-- A file that is told to be written was replaced. -/
theorem OutputAt.tree_attempt (at_ : OutputAt host config layout snapshot output out)
    (progress : Progress snapshot output out written host now) (member : task ∈ snapshot.tasks)
    {inner : List String} {name : String}
    (isTracked : IsTracked host layout output task.role task.file task.text (inner ++ [name]))
    (seat : Seat host task.file (output ++ inner) (out ++ inner) name)
    (told : Report.writtenPath? (snapshot.attempt now task).1 = some task.file) :
    snapshot.changes task = true ∧ (snapshot.attempt now task).2.tree =
      now.replaced (out ++ inner) name (snapshot.contentOf task) := by
  have attempted := at_.attempt progress member isTracked seat
  generalize (snapshot.attempt now task).1 = result at attempted told
  generalize (snapshot.attempt now task).2 = after at attempted ⊢
  cases attempted with
  | kept same =>
    rw [writtenPath?_outcomeOf, same] at told
    cases told
  | refused _ _ => cases told
  | replaced differs _ => exact ⟨differs, rfl⟩

/-- Nothing bears a name through which a file can be written, when more than one file is tracked
and what a write leaves does not depend on the name. -/
theorem OutputAt.lookup_temporary (at_ : OutputAt host config layout snapshot output out)
    (steady : snapshot.IsSteady host Prod.fst)
    (leaves : snapshot.IsSteady host fun done => done.2.tree)
    (several : 1 < snapshot.tasks.length) (member : task ∈ snapshot.tasks) {inner : List String}
    {name : String}
    (isTracked : IsTracked host layout output task.role task.file task.text (inner ++ [name]))
    (seat : Seat host task.file (output ++ inner) (out ++ inner) name)
    (told : Report.writtenPath? (snapshot.attempt host task).1 = some task.file) {number : Nat}
    (lower : host.ticket ≤ number) (upper : number < host.ticket + snapshot.tasks.length) :
    host.tree.lookup (out ++ inner ++ [Host.temporaryName name host.processId number]) = none := by
  have differs := (at_.tree_attempt .start member isTracked seat told).1
  have left (ticket : Nat) (lower : host.ticket ≤ ticket)
      (upper : ticket < host.ticket + snapshot.tasks.length) :
      (host.writeWhole task.file (snapshot.contentOf task)).2.tree =
        { host with ticket }.replaced (out ++ inner) name (snapshot.contentOf task) := by
    have waited : Progress snapshot output out [] host { host with ticket } := .waited lower
    have told' : Report.writtenPath? (snapshot.attempt { host with ticket } task).1 =
        some task.file := by
      rw [← told]
      exact congrArg _ (attempt_congr fun _ => steady task member differs ticket lower upper)
    have replaced := (at_.tree_attempt waited member isTracked seat told').2
    rw [attempt_snd, if_pos differs] at replaced
    exact (leaves task member differs ticket lower upper).symm.trans replaced
  -- With another ticket the write leaves this name alone, and it leaves the same tree: so nothing
  -- can have borne the name.
  obtain ⟨other, apart, lower', upper'⟩ : ∃ other, number ≠ other ∧ host.ticket ≤ other ∧
      other < host.ticket + snapshot.tasks.length := by
    by_cases first : number = host.ticket
    · exact ⟨host.ticket + 1, by omega, by omega, by omega⟩
    · exact ⟨host.ticket, first, le_refl _, by omega⟩
  have here := left number lower upper
  have there := left other lower' upper'
  calc host.tree.lookup (out ++ inner ++ [Host.temporaryName name host.processId number])
      = ({ host with ticket := other }.replaced (out ++ inner) name
          (snapshot.contentOf task)).lookup
            (out ++ inner ++ [Host.temporaryName name host.processId number]) := by
        rw [Host.lookup_replaced, if_neg, if_neg]
        · simpa [Host.temporaryAt, temporaryName_inj] using apart
        · simpa using temporaryName_ne name host.processId number
    _ = ({ host with ticket := number }.replaced (out ++ inner) name
          (snapshot.contentOf task)).lookup
            (out ++ inner ++ [Host.temporaryName name host.processId number]) := by
        rw [← there, here]
    _ = none := by
        exact { host with ticket := number }.lookup_temporaryAt_replaced _

/-- Nothing bore the names that a part of a pass has used up, when more than one file is tracked
and what a write leaves does not depend on the name. -/
theorem OutputAt.spares (at_ : OutputAt host config layout snapshot output out)
    (steady : snapshot.IsSteady host Prod.fst)
    (leaves : snapshot.IsSteady host fun done => done.2.tree)
    (several : 1 < snapshot.tasks.length)
    (told : ∀ task ∈ snapshot.tasks, task.file ∈ written ->
      Report.writtenPath? (snapshot.attempt host task).1 = some task.file) {ticket : Nat}
    (bound : ticket ≤ host.ticket + snapshot.tasks.length) :
    Spares snapshot output out written host ticket := by
  rintro _ ⟨task, member, known, inner, name, number, areNames, path_eq, lower, upper, rfl⟩
  obtain ⟨inner', name', isTracked, seat⟩ := at_.seat member
  have same := isTracked.rest_eq areNames path_eq
  obtain ⟨rfl, names⟩ := List.append_inj' same rfl
  obtain rfl := (List.cons.inj names).1
  exact at_.lookup_temporary steady leaves several member isTracked seat (told task member known)
    lower (upper.trans_le bound)

/-- A file that was written cannot be run, if nothing bore the names that were used up. -/
theorem OutputAt.lookup_relinked (at_ : OutputAt host config layout snapshot output out)
    (progress : Progress snapshot output out written host now)
    (spares : Spares snapshot output out written host now.ticket)
    (differ : ∀ task ∈ snapshot.tasks, task.file ∈ written -> snapshot.changes task = true)
    (isRelinked : IsRelinked snapshot output out written location content) :
    now.tree.lookup location = some (.file content false) := by
  obtain ⟨executable, found⟩ := progress.lookup_relinked isRelinked
  cases executable with
  | false => exact found
  | true =>
    rcases progress.runnable location content found with before | ⟨temporary, spent, runs⟩
    · obtain ⟨task, member, told, rest, areNames, path_eq, rfl, rfl⟩ := isRelinked
      obtain ⟨rest', executable, isTracked, status⟩ := at_.tracked member
      obtain rfl := isTracked.rest_eq areNames path_eq
      have there := before.symm.trans (Tree.lookup_of_status status)
      obtain ⟨unchanged, -⟩ := Entry.file.inj (Option.some.inj there)
      exact absurd unchanged (contentOf_ne (differ task member told))
    · rw [Tree.isExecutableAt, spares temporary spent] at runs
      cases runs

/-- A pass makes no entry and takes none away, if nothing bore the names that it used up. -/
theorem Progress.locations_eq (progress : Progress snapshot output out written host now)
    (spares : Spares snapshot output out written host now.ticket) :
    now.tree.locations = host.tree.locations := by
  obtain ⟨keep, same, spent⟩ := progress.spends.locations
  rw [same, List.filter_eq_self]
  intro location member
  by_contra dropped
  have there := Tree.lookup_isSome_of_mem member
  rw [spares location (spent location (by simpa using dropped))] at there
  cases there

/-- Two ways to write the same files leave the same tree, if nothing bore the names that they
used up. -/
theorem OutputAt.tree_eq (at_ : OutputAt host config layout snapshot output out)
    (proper : host.tree.IsProper)
    (progress : Progress snapshot output out written host now)
    (progress' : Progress snapshot output out written' host now')
    (same : ∀ file, file ∈ written ↔ file ∈ written')
    (spares : Spares snapshot output out written host now.ticket)
    (spares' : Spares snapshot output out written' host now'.ticket)
    (differ : ∀ task ∈ snapshot.tasks, task.file ∈ written -> snapshot.changes task = true) :
    now.tree = now'.tree := by
  have differ' : ∀ task ∈ snapshot.tasks, task.file ∈ written' -> snapshot.changes task = true :=
    fun task member told => differ task member ((same _).2 told)
  have locations := progress.locations_eq spares
  have locations' := progress'.locations_eq spares'
  refine Tree.eq_of_lookup ?_ ?_ ?_ fun location => ?_
  · rw [locations']
    exact proper.nodup
  · rw [locations']
    exact fun top => (proper.rooted _ top).1 rfl
  · rw [locations, locations']
  · rcases progress.eq_or_isRelinked progress' same (spares location) (spares' location) with
      equal | ⟨content, isRelinked, isRelinked'⟩
    · exact equal
    · rw [at_.lookup_relinked progress spares differ isRelinked,
        at_.lookup_relinked progress' spares' differ' isRelinked']

/-! ## Every order -/

theorem relinkScheduled_eq (host : Host) (steps : List (Task × Nat)) :
    snapshot.relinkScheduled host steps =
      (((List.range steps.length).filterMap (List.lookup · ((steps.map Prod.snd).zip
          (snapshot.relinkTasks host (steps.map Prod.fst)).1))).foldl Report.record {},
        (snapshot.relinkTasks host (steps.map Prod.fst)).2) :=
  rfl

/-- A file that was written in its turn would have been written at first. -/
theorem OutputAt.told_of_written (at_ : OutputAt host config layout snapshot output out)
    {todo : List Task} (among : ∀ task ∈ todo, task ∈ snapshot.tasks)
    (member : task ∈ snapshot.tasks)
    (told : task.file ∈ (todo.map fun task => (snapshot.attempt host task).1).filterMap
      Report.writtenPath?) :
    Report.writtenPath? (snapshot.attempt host task).1 = some task.file := by
  obtain ⟨result, inside, path_eq⟩ := List.mem_filterMap.1 told
  obtain ⟨other, member', rfl⟩ := List.mem_map.1 inside
  have same := ((tells_attempt host other).file_eq path_eq).1
  obtain rfl := at_.task_eq (among other member') member same
  exact path_eq

/-- In whatever order the tracked files are relinked, the same files are written. -/
theorem OutputAt.mem_written_iff (at_ : OutputAt host config layout snapshot output out)
    (proper : host.tree.IsProper) (steady : snapshot.IsSteady host Prod.fst) {todo : List Task}
    (perm : todo.Perm snapshot.tasks) (file : Path) :
    file ∈ (snapshot.relinkTasks host todo).1.filterMap Report.writtenPath? ↔
      file ∈ (snapshot.relinkTasks host snapshot.tasks).1.filterMap Report.writtenPath? := by
  have among : ∀ task ∈ todo, task ∈ snapshot.tasks := fun task => perm.mem_iff.1
  rw [at_.relinkTasks_steady proper steady .start among (by rw [perm.length_eq]),
    at_.relinkTasks_steady proper steady .start (fun _ => id) (le_refl _)]
  exact ((perm.map _).filterMap _).mem_iff

/-- In whatever order the tracked files are relinked, the same tree is left, if what a write
leaves does not depend on the name of its temporary file. -/
theorem OutputAt.tree_relinkTasks (at_ : OutputAt host config layout snapshot output out)
    (proper : host.tree.IsProper) (steady : snapshot.IsSteady host Prod.fst)
    (leaves : snapshot.IsSteady host fun done => done.2.tree) {todo : List Task}
    (perm : todo.Perm snapshot.tasks) :
    (snapshot.relinkTasks host todo).2.tree =
      (snapshot.relinkTasks host snapshot.tasks).2.tree := by
  by_cases several : 1 < snapshot.tasks.length
  · have spares {todo : List Task} (perm : todo.Perm snapshot.tasks) :
        Spares snapshot output out
          ((snapshot.relinkTasks host todo).1.filterMap Report.writtenPath?) host
          (snapshot.relinkTasks host todo).2.ticket := by
      have among : ∀ task ∈ todo, task ∈ snapshot.tasks := fun task => perm.mem_iff.1
      have bound := @ticket_relinkTasks snapshot host todo
      rw [perm.length_eq] at bound
      refine at_.spares steady leaves several (fun task member told => ?_) bound
      rw [at_.relinkTasks_steady proper steady .start among (by rw [perm.length_eq])] at told
      exact at_.told_of_written among member told
    have among : ∀ task ∈ todo, task ∈ snapshot.tasks := fun task => perm.mem_iff.1
    have same := at_.mem_written_iff proper steady perm
    refine at_.tree_eq proper (at_.relinkTasks among) (at_.relinkTasks fun _ => id) same
      (spares perm) (spares (.refl _)) fun task member told => ?_
    exact changes_of_written (forall₂_relinkTasks host _) (at_.taken.nodup_tasks proper) member
      ((same _).1 told)
  · -- There is one order only.
    have same : todo = snapshot.tasks := by
      generalize snapshot.tasks = tasks at perm several
      match tasks with
      | [] => exact perm.eq_nil
      | [task] => exact perm.eq_singleton
      | _ :: _ :: _ => exact absurd (by simp) several
    rw [same]

/-- In whatever order the tracked files are relinked, the report is the one of the files in their
order, and so is the tree that is left. Only where a file bears the name of a temporary file,
which the write that takes the name uses up, can the order be seen: from what is left at such a
name, and from which of the written files may be run. -/
theorem relinkScheduled_perm (taken : take host config layout = .ok snapshot)
    (proper : host.tree.IsProper)
    (linkFree : ∀ out, host.tree.status host.directory (outputDirectory host config) =
      .ok (out, .directory) -> host.tree.LinkFree out)
    (steady : snapshot.IsSteady host Prod.fst) {steps : List (Task × Nat)}
    (perm : steps.Perm snapshot.tasks.zipIdx) :
    (snapshot.relinkScheduled host steps).1 = (snapshot.relinkAll host).1 ∧
      (∀ location, ¬IsTemporary host.processId host.ticket location ->
        ((snapshot.relinkScheduled host steps).2.tree.lookup location).map Entry.plain =
          ((snapshot.relinkAll host).2.tree.lookup location).map Entry.plain) ∧
      ((snapshot.IsSteady host fun done => done.2.tree) ->
        (snapshot.relinkScheduled host steps).2.tree = (snapshot.relinkAll host).2.tree) := by
  obtain ⟨output, out, at_⟩ := exists_outputAt (take_eq_ok_iff.1 taken) proper.named linkFree
  have todo : (steps.map Prod.fst).Perm snapshot.tasks := by
    have unordered := perm.map Prod.fst
    rwa [List.zipIdx_map_fst] at unordered
  have among : ∀ task ∈ steps.map Prod.fst, task ∈ snapshot.tasks :=
    fun task => todo.mem_iff.1
  rw [relinkAll_eq, relinkScheduled_eq]
  refine ⟨?_, fun location ordinary => ?_, fun leaves => ?_⟩
  · dsimp only
    rw [at_.relinkTasks_steady proper steady .start among (by rw [todo.length_eq]),
      at_.relinkTasks_steady proper steady .start (fun _ => id) (le_refl _),
      filterMap_lookup_of_perm perm]
  · exact (at_.relinkTasks among).plain_eq (at_.relinkTasks fun _ => id)
      (at_.mem_written_iff proper steady todo) ordinary
  · exact at_.tree_relinkTasks proper steady leaves todo

/-- A file of an earlier process that bears a temporary name is used up in one order and not in
another one, although every write succeeds whatever number it takes. -/
theorem relinkScheduled_stale :
    ∃ host config snapshot steps, take host config {} = .ok snapshot ∧ host.tree.IsProper ∧
      (∀ out, host.tree.LinkFree out) ∧ snapshot.IsSteady host Prod.fst ∧
      steps.Perm snapshot.tasks.zipIdx ∧
      ∃ location,
        (snapshot.relinkScheduled host steps).2.tree.lookup location =
          some (.file "stays".toByteArray false) ∧
        (snapshot.relinkAll host).2.tree.lookup location = none := by
  let stale := crowdedPackage (.file "stays".toByteArray false)
  have writes : ∀ task ∈ sampleSnapshot.tasks, ∀ ticket < 3,
      ({ stale with ticket }.writeWhole task.file (sampleSnapshot.contentOf task)).1 =
        (stale.writeWhole task.file (sampleSnapshot.contentOf task)).1 := by
    decide +kernel
  refine ⟨stale, sampleConfig, sampleSnapshot, sampleSnapshot.tasks.zipIdx.reverse,
    crowdedPackage_take _ (by simp [leftovers]), by decide, ?_,
    fun task member _ ticket _ bound => writes task member ticket bound,
    List.reverse_perm _, ["p", "dist", ".index.d.ts.tmp.1.0"], by decide +kernel,
    by decide +kernel⟩
  exact Tree.linkFree_of_entries (by simp [stale, crowdedPackage, samplePackage])

/-- In the small package, relinking the files in the reverse order tells and leaves the same. -/
theorem relinkScheduled_perm_samplePackage :
    take samplePackage sampleConfig {} = .ok sampleSnapshot ∧
      sampleSnapshot.IsSteady samplePackage Prod.fst ∧
      (sampleSnapshot.relinkScheduled samplePackage sampleSnapshot.tasks.zipIdx.reverse).1 =
        (sampleSnapshot.relinkAll samplePackage).1 ∧
      (sampleSnapshot.relinkScheduled samplePackage sampleSnapshot.tasks.zipIdx.reverse).2.tree =
        (sampleSnapshot.relinkAll samplePackage).2.tree := by
  have proper : samplePackage.tree.IsProper := by decide
  have writes : ∀ task ∈ sampleSnapshot.tasks, ∀ ticket < 3,
      ({ samplePackage with ticket }.writeWhole task.file (sampleSnapshot.contentOf task)).1 =
          (samplePackage.writeWhole task.file (sampleSnapshot.contentOf task)).1 ∧
        ({ samplePackage with ticket }.writeWhole task.file
            (sampleSnapshot.contentOf task)).2.tree =
          (samplePackage.writeWhole task.file (sampleSnapshot.contentOf task)).2.tree := by
    decide +kernel
  dsimp only at writes
  have steady : sampleSnapshot.IsSteady samplePackage Prod.fst :=
    fun task member _ ticket _ bound => (writes task member ticket bound).1
  have leaves : sampleSnapshot.IsSteady samplePackage fun done => done.2.tree :=
    fun task member _ ticket _ bound => (writes task member ticket bound).2
  obtain ⟨told, -, left⟩ := relinkScheduled_perm samplePackage_take proper
    (fun out _ => samplePackage_linkFree out) steady (List.reverse_perm sampleSnapshot.tasks.zipIdx)
  exact ⟨samplePackage_take, steady, told, left leaves⟩

end Snapshot
end Relink
