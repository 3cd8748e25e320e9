import Relink.Proofs.Frame
import Relink.Proofs.Tree.Putting

/-!
# What other programs write meanwhile

A pass does not read a file again before it writes it. When other programs have written tracked
files since the snapshot was taken, a file that the pass does not write keeps what they wrote. One
that it writes holds the relinked text of what the snapshot holds.
-/

namespace Relink

/-- A tree after files in it were written anew. -/
def Tree.Edits (tree tree' : Tree) : Prop :=
  ∀ location, tree'.lookup location = tree.lookup location ∨
    ∃ content executable content' executable',
      tree.lookup location = some (.file content executable) ∧
        tree'.lookup location = some (.file content' executable')

/-- A path to a file leads to the file still. -/
theorem Tree.Edits.status_file {tree tree' : Tree} (edits : tree.Edits tree')
    {base location : Location} {path : Path} {content : ByteArray} {executable : Bool}
    (found : tree.status base path = .ok (location, .file content executable)) :
    ∃ content' executable',
      tree'.status base path = .ok (location, .file content' executable') := by
  have keeps : tree.Keeps tree' := by
    constructor
    · intro location entry found other
      rcases edits location with same | ⟨_, _, _, _, was, -⟩
      · rw [same, found]
      · obtain rfl := Option.some.inj (found.symm.trans was)
        cases other
    · intro location entry found isFile
      rcases edits location with same | ⟨_, _, content', executable', -, now⟩
      · exact .inr ⟨entry, same.trans found, isFile⟩
      · exact .inr ⟨.file content' executable', now, rfl⟩
  have there := keeps.status found
  rw [within] at there
  simp only [status_eq_ok_iff]
  rcases edits location with same | ⟨_, _, content', executable', -, now⟩
  · rw [same, lookup_of_status found] at there
    exact ⟨content, executable, there⟩
  · rw [now] at there
    exact ⟨content', executable', there⟩

namespace Snapshot

variable {host later now : Host} {config : Config} {layout : Layout} {snapshot : Snapshot}
  {output : List String} {out : Location} {written : List Path} {task : Task}

/-- A host in which other programs have written files since a snapshot was taken of `host`. No
link bears a name that a temporary file can have, and no tracked file is reached through a link to
a file that does. -/
structure Meanwhile (host later : Host) (snapshot : Snapshot) : Prop where
  directory : later.directory = host.directory
  edits : host.tree.Edits later.tree
  solid : ∀ location, IsTemporary later.processId later.ticket location ->
    ∀ target, later.tree.lookup location ≠ some (.link target)
  apart : ∀ task ∈ snapshot.tasks, ∀ location entry,
    later.tree.status later.directory task.file = .ok (location, entry) ->
      ¬IsTemporary later.processId later.ticket location

/-- Whether a content is what a pass writes over the file at `place`: the relinked text of a
tracked file that leads there, and that is told to be written. -/
def IsOverwritten (snapshot : Snapshot) (later : Host) (written : List Path) (place : Location)
    (content : ByteArray) : Prop :=
  ∃ task ∈ snapshot.tasks, task.file ∈ written ∧ snapshot.changes task = true ∧
    (∃ old executable,
      later.tree.status later.directory task.file = .ok (place, .file old executable)) ∧
    content = snapshot.contentOf task

theorem IsOverwritten.mono {place : Location} {content : ByteArray}
    (isOverwritten : IsOverwritten snapshot later written place content) {more : List Path}
    (within : ∀ file ∈ written, file ∈ more) :
    IsOverwritten snapshot later more place content := by
  obtain ⟨task, member, told, rest⟩ := isOverwritten
  exact ⟨task, member, within _ told, rest⟩

/-- Where a tracked file is an entry, and which file it stands for. -/
structure Standing (later : Host) (task : Task) (outer : List String) (directory : Location)
    (name : String) (place : Location) : Prop where
  seat : Seat later task.file outer directory name
  found : ∃ content executable,
    later.tree.status later.directory task.file = .ok (place, .file content executable)

theorem Standing.standsFor {outer : List String} {directory place : Location} {name : String}
    (standing : Standing later task outer directory name place) :
    later.tree.StandsFor (directory ++ [name]) place := by
  obtain ⟨content, executable, found⟩ := standing.found
  rw [standing.seat.path] at found
  exact Tree.standsFor_of_status standing.seat.areNames standing.seat.reached found

/-- A file has one seat. -/
theorem Seat.unique {file : Path} {outer outer' : List String} {directory directory' : Location}
    {name name' : String} (seat : Seat later file outer directory name)
    (seat' : Seat later file outer' directory' name') :
    outer' = outer ∧ directory' = directory ∧ name' = name := by
  have same := Location.path_inj seat'.areNames seat.areNames
    (congrArg Path.components (seat'.path.symm.trans seat.path))
  obtain ⟨rfl, names⟩ := List.append_inj' same rfl
  obtain ⟨directory_eq, -⟩ :=
    Prod.mk.inj (Except.ok.inj (seat'.reached.symm.trans seat.reached))
  exact ⟨rfl, directory_eq, (List.cons.inj names).1⟩

/-- Every tracked file stands for a file, whatever other programs have written. -/
theorem Meanwhile.exists_standing (meanwhile : Meanwhile host later snapshot)
    (taken : Taken host config layout snapshot) (named : host.tree.Named)
    (member : task ∈ snapshot.tasks) :
    ∃ outer directory name place, Standing later task outer directory name place := by
  obtain ⟨output, areOutput, output_eq⟩ := exists_outputDirectory host config
  obtain ⟨rest, isTracked⟩ :
      ∃ rest, IsTracked host layout output task.role task.file task.text rest :=
    taken.isTracked named areOutput output_eq (mem_tasks.1 member)
  obtain ⟨place, old, executable, found, -⟩ := readText_eq_ok_iff.1 isTracked.text
  obtain ⟨content, executable', found'⟩ := meanwhile.edits.status_file found
  rw [← meanwhile.directory] at found'
  obtain ⟨inner, name, rfl⟩ := (List.eq_nil_or_concat rest).resolve_left isTracked.ne_nil
  rw [List.concat_eq_append] at isTracked
  have areNames := isTracked.areNames
  have path_eq := isTracked.path
  rw [← List.append_assoc] at areNames path_eq
  obtain ⟨directory, reached⟩ := Tree.exists_status_outer areNames (path_eq ▸ found')
  exact ⟨output ++ inner, directory, name, place,
    ⟨areNames, path_eq, isUnicode_of_roleOf? areNames (path_eq ▸ isTracked.role),
      isTracked.areVisible name (by simp), reached⟩, content, executable', found'⟩

/-- Where there are no links, other programs may write what they will. -/
theorem OutputAt.meanwhile (at_ : OutputAt host config layout snapshot output out)
    (directory_eq : later.directory = host.directory) (edits : host.tree.Edits later.tree)
    (linkFree : ∀ base, later.tree.LinkFree base) : Meanwhile host later snapshot := by
  refine ⟨directory_eq, edits, ?_, ?_⟩
  · rintro location ⟨outer, name, number, -, rfl⟩ target
    exact linkFree outer [_] target (by simp)
  · intro task member location entry found temporary
    obtain ⟨rest, executable, isTracked, status⟩ := at_.tracked member
    obtain ⟨content', executable', found'⟩ := edits.status_file status
    rw [directory_eq, found'] at found
    obtain ⟨rfl, -⟩ := Prod.mk.inj (Except.ok.inj found)
    exact not_isTemporary isTracked.ne_nil isTracked.areVisible temporary

/-! ## The run -/

/-- What a part of a pass has done to a host whose files other programs have written. -/
structure Overwrites (snapshot : Snapshot) (later : Host) (written : List Path) (now : Host) :
    Prop where
  directory : now.directory = later.directory
  processId : now.processId = later.processId
  ticket : later.ticket ≤ now.ticket
  puts : Tree.Puts (IsOverwritten snapshot later written)
    (IsTemporary later.processId later.ticket) later.tree now.tree
  holds : ∀ task ∈ snapshot.tasks, task.file ∈ written -> ∀ outer directory name,
    Seat later task.file outer directory name ->
      ∃ place content executable, later.tree.StandsFor (directory ++ [name]) place ∧
        IsOverwritten snapshot later written place content ∧
        now.tree.lookup (directory ++ [name]) = some (.file content executable)

theorem Overwrites.start : Overwrites snapshot later [] later :=
  ⟨rfl, rfl, le_refl _, fun _ => .same, fun _ _ impossible => absurd impossible List.not_mem_nil⟩

variable {outer : List String} {directory place : Location} {name : String}

/-- The seat of a file stays where it is while a pass runs. -/
theorem Overwrites.seat (overwrites : Overwrites snapshot later written now) {file : Path}
    (seat : Seat later file outer directory name) : Seat now file outer directory name := by
  refine ⟨seat.areNames, seat.path, seat.isUnicode, seat.visible, ?_⟩
  rw [overwrites.directory]
  exact overwrites.puts.status_directory seat.reached

theorem Overwrites.isTemporary (overwrites : Overwrites snapshot later written now)
    (directory : Location) (name : String) :
    IsTemporary later.processId later.ticket (now.temporaryAt directory name) :=
  ⟨directory, name, now.ticket, overwrites.ticket,
    by rw [Host.temporaryAt, overwrites.processId]⟩

/-- What relinking a file comes to, while a pass runs. -/
theorem Overwrites.attempt (overwrites : Overwrites snapshot later written now)
    (meanwhile : Meanwhile host later snapshot)
    (standing : Standing later task outer directory name place) :
    Attempt snapshot task outer directory name now (snapshot.attempt now task).1
      (snapshot.attempt now task).2 := by
  refine (overwrites.seat standing.seat).attempt ?_ fun target => ?_
  · have becomes := overwrites.puts (directory ++ [name])
    generalize now.tree.lookup (directory ++ [name]) = entry at becomes ⊢
    cases becomes with
    | same =>
      rcases standing.standsFor.cases with ⟨-, _, _, found⟩ | ⟨_, _, _, _, found, -⟩
      · rw [found]
        simp
      · rw [found]
        simp
    | put _ _ => simp
    | gone _ _ => simp
  · have becomes := overwrites.puts (now.temporaryAt directory name)
    generalize now.tree.lookup (now.temporaryAt directory name) = entry at becomes ⊢
    cases becomes with
    | same => exact meanwhile.solid _ (overwrites.isTemporary directory name) target
    | put _ _ => simp
    | gone _ _ => simp

/-- When an entry is replaced, a file is put for the one that the entry stands for, and what bore
the name of the temporary file is gone. -/
theorem Meanwhile.puts_replaced (meanwhile : Meanwhile host later snapshot)
    {isPut : Location -> ByteArray -> Prop} {content : ByteArray}
    (puts : Tree.Puts isPut (IsTemporary later.processId later.ticket) later.tree now.tree)
    (temporary : IsTemporary later.processId later.ticket (now.temporaryAt directory name))
    (standsFor : later.tree.StandsFor (directory ++ [name]) place) (new : isPut place content)
    (open_ : now.refusal? directory outer name = none) :
    Tree.Puts isPut (IsTemporary later.processId later.ticket) later.tree
      (now.replaced directory name content) := by
  intro location
  rw [Host.lookup_replaced]
  by_cases here : location = directory ++ [name]
  · rw [if_pos here, here]
    exact .put standsFor new
  rw [if_neg here]
  by_cases spent : location = now.temporaryAt directory name
  · rw [if_pos spent, spent]
    obtain ⟨-, was⟩ := Tree.lookup_of_refusal open_
    have unchanged := @Tree.Becomes.same later.tree isPut
      (IsTemporary later.processId later.ticket) (now.temporaryAt directory name)
    cases found : later.tree.lookup (now.temporaryAt directory name) with
    | none => rwa [found] at unchanged
    | some entry =>
      cases entry with
      | file old executable => exact .gone found temporary
      | link target => exact absurd found (meanwhile.solid _ temporary target)
      | directory =>
        have there := puts.lookup_directory found
        rw [Host.temporaryAt] at there
        rcases was with none_ | ⟨old, executable, file⟩
        · rw [none_] at there
          cases there
        · rw [file] at there
          cases there
  · rw [if_neg spent]
    exact puts location

/-- Replacing a file takes a pass further. -/
theorem Overwrites.replaced (overwrites : Overwrites snapshot later written now)
    (meanwhile : Meanwhile host later snapshot) (member : task ∈ snapshot.tasks)
    (standing : Standing later task outer directory name place)
    (differs : snapshot.changes task = true)
    (open_ : now.refusal? directory outer name = none) (journal : List Change) :
    Overwrites snapshot later (written ++ [task.file])
      { now with
        tree := now.replaced directory name (snapshot.contentOf task)
        ticket := now.ticket + 1
        journal } := by
  have within : ∀ file ∈ written, file ∈ written ++ [task.file] :=
    fun file told => List.mem_append_left _ told
  have standsFor := standing.standsFor
  have new : IsOverwritten snapshot later (written ++ [task.file]) place
      (snapshot.contentOf task) :=
    ⟨task, member, by simp, differs, standing.found, rfl⟩
  have puts : Tree.Puts (IsOverwritten snapshot later (written ++ [task.file]))
      (IsTemporary later.processId later.ticket) later.tree now.tree :=
    overwrites.puts.mono fun _ _ old => old.mono within
  have temporary := overwrites.isTemporary directory name
  refine ⟨overwrites.directory, overwrites.processId, overwrites.ticket.trans (Nat.le_succ _),
    meanwhile.puts_replaced puts temporary standsFor new open_, ?_⟩
  intro other member' told outer' directory' name' seat'
  -- Two paths can name one file. Then it holds what was written last.
  by_cases here : directory' ++ [name'] = directory ++ [name]
  · refine ⟨place, snapshot.contentOf task,
      now.tree.isExecutableAt (now.temporaryAt directory name), here ▸ standsFor, new, ?_⟩
    rw [Host.lookup_replaced, if_pos here]
  · have known : other.file ∈ written := by
      rw [List.mem_append, List.mem_singleton] at told
      refine told.resolve_right fun same => here ?_
      obtain ⟨-, rfl, rfl⟩ := standing.seat.unique (same ▸ seat')
      rfl
    obtain ⟨place', content, executable, standsFor', isOverwritten, found⟩ :=
      overwrites.holds other member' known outer' directory' name' seat'
    refine ⟨place', content, executable, standsFor', isOverwritten.mono within, ?_⟩
    have shown : directory' ++ [name'] ≠ now.temporaryAt directory name := by
      intro hidden
      have areVisible : Tree.AreVisible [name'] := by
        simpa [Tree.AreVisible] using seat'.visible
      exact areVisible.not_isHidden (by simp) directory' (hidden ▸ temporary).isHidden
    rw [Host.lookup_replaced, if_neg here, if_neg shown, found]

/-- Relinking a file takes a pass further. -/
theorem Overwrites.progress (overwrites : Overwrites snapshot later written now)
    (meanwhile : Meanwhile host later snapshot) (member : task ∈ snapshot.tasks)
    (standing : Standing later task outer directory name place) :
    Overwrites snapshot later
      (written ++ (Report.writtenPath? (snapshot.attempt now task).1).toList)
      (snapshot.attempt now task).2 := by
  have attempted := overwrites.attempt meanwhile standing
  generalize (snapshot.attempt now task).1 = result at attempted ⊢
  generalize (snapshot.attempt now task).2 = after at attempted ⊢
  cases attempted with
  | kept same =>
    rw [writtenPath?_outcomeOf, same, if_neg (by decide), Option.toList_none, List.append_nil]
    exact overwrites
  | refused _ _ =>
    rw [Report.writtenPath?, Option.toList_none, List.append_nil]
    exact ⟨overwrites.directory, overwrites.processId, overwrites.ticket.trans (Nat.le_succ _),
      overwrites.puts, overwrites.holds⟩
  | replaced differs open_ =>
    rw [writtenPath?_outcomeOf, differs, if_pos rfl, Option.toList_some]
    exact overwrites.replaced meanwhile member standing differs open_ _

/-- What a pass has done in the end. -/
theorem Meanwhile.overwrites (meanwhile : Meanwhile host later snapshot)
    (taken : Taken host config layout snapshot) (named : host.tree.Named) {report : Report}
    {after : Host} (done : snapshot.relinkAll later = (report, after)) :
    Overwrites snapshot later report.written after := by
  have step : ∀ written now, ∀ task ∈ snapshot.tasks, Overwrites snapshot later written now ->
      Overwrites snapshot later
        (written ++ (Report.writtenPath? (snapshot.attempt now task).1).toList)
        (snapshot.attempt now task).2 := by
    intro written now task member overwrites
    obtain ⟨outer, directory, name, place, standing⟩ :=
      meanwhile.exists_standing taken named member
    exact overwrites.progress meanwhile member standing
  rw [relinkAll_eq] at done
  obtain ⟨rfl, rfl⟩ := Prod.mk.inj done
  rw [(Report.foldl_record _ {}).2.2.1]
  exact relinkTasks_induction step (fun _ => id) .start

/-- What a tracked file holds after a pass that other programs came before: what they left, or the
relinked text of a tracked file that was written and led to the same file. -/
theorem Overwrites.readBytes {after : Host} (overwrites : Overwrites snapshot later written after)
    (meanwhile : Meanwhile host later snapshot) (member : task ∈ snapshot.tasks)
    (standing : Standing later task outer directory name place) :
    ∃ content executable content',
      later.tree.status later.directory task.file = .ok (place, .file content executable) ∧
      after.readBytes task.file = .ok content' ∧
      (content' = content ∨ IsOverwritten snapshot later written place content') ∧
      (task.file ∈ written -> IsOverwritten snapshot later written place content') := by
  obtain ⟨content, executable, found⟩ := standing.found
  obtain ⟨place', entry, found', arrives⟩ :=
    overwrites.puts.status found fun _ => meanwhile.apart task member _ _ found
  rw [← overwrites.directory] at found'
  obtain ⟨content', executable', rfl, was⟩ : ∃ content' executable',
      entry = .file content' executable' ∧
        (content' = content ∨ IsOverwritten snapshot later written place content') := by
    cases arrives with
    | same => exact ⟨content, executable, rfl, .inl rfl⟩
    | put new => exact ⟨_, _, rfl, .inr new⟩
  refine ⟨content, executable, content', found, ?_, was, fun told => ?_⟩
  · rw [Host.readBytes, Tree.read, found']
  · -- The file was put at the entry itself, which is what the path names now.
    obtain ⟨place'', written', executable'', standsFor, isOverwritten, there⟩ :=
      overwrites.holds task member told outer directory name standing.seat
    obtain rfl := standing.standsFor.unique standsFor
    have seat := overwrites.seat standing.seat
    have lies := Tree.lookup_of_status found'
    rw [seat.path] at found'
    rcases (Tree.standsFor_of_status seat.areNames seat.reached found').cases with
      ⟨rfl, -⟩ | ⟨_, _, _, _, link, -⟩
    · obtain ⟨rfl, -⟩ := Entry.file.inj (Option.some.inj (there.symm.trans lies))
      exact isOverwritten
    · rw [there] at link
      cases link

/-- A pass on a host whose tracked files other programs have written since the snapshot was taken.
A tracked file that is not told to be written holds what those programs left, unless it leads to
the same file as one that is. One that is told to be written holds the relinked text of what the
snapshot holds, which is not what the snapshot holds of it, and nobody reads again what the other
programs have written there. -/
theorem relinkAll_meanwhile (taken : take host config layout = .ok snapshot)
    (named : host.tree.Named) (meanwhile : Meanwhile host later snapshot) {report : Report}
    {after : Host} (done : snapshot.relinkAll later = (report, after)) :
    ∀ task ∈ snapshot.tasks, ∃ place content executable content',
      later.tree.status later.directory task.file = .ok (place, .file content executable) ∧
      after.readBytes task.file = .ok content' ∧
      (content' = content ∨ IsOverwritten snapshot later report.written place content') ∧
      (task.file ∈ report.written ->
        IsOverwritten snapshot later report.written place content') := by
  intro task member
  have known := take_eq_ok_iff.1 taken
  obtain ⟨outer, directory, name, place, standing⟩ := meanwhile.exists_standing known named member
  exact ⟨place, (meanwhile.overwrites known named done).readBytes meanwhile member standing⟩

/-! ## A script that is compiled again -/

/-- A host in which another program has written a script of the small package. -/
def recompiled (host : Host) (name : String) (text : String) : Host :=
  { host with tree := host.tree.set ["p", "dist", name] (.file text.toByteArray false) }

theorem recompiled_edits {host : Host} {name text : String} {content : ByteArray}
    {executable : Bool}
    (found : host.tree.lookup ["p", "dist", name] = some (.file content executable)) :
    host.tree.Edits (recompiled host name text).tree := by
  intro location
  rw [recompiled, Tree.lookup_set _ _ (by simp)]
  by_cases here : location = ["p", "dist", name]
  · rw [if_pos here, here]
    exact .inr ⟨_, _, _, _, found, rfl⟩
  · rw [if_neg here]
    exact .inl rfl

/-- The small package after the script that refers to the other one was compiled again. -/
def recompiledPackage : Host :=
  recompiled samplePackage "index.js" "import './b'; let a = 1;"

/-- Whether a pass replaces what another program has written since the snapshot was taken. -/
def Loses (snapshot : Snapshot) (host later : Host) (file : Path) : Prop :=
  ∃ old content, host.readBytes file = .ok old ∧ later.readBytes file = .ok content ∧
    content ≠ old ∧ (snapshot.relinkAll later).2.readBytes file ≠ .ok content

/-- A script that is compiled again after the snapshot was taken is replaced by what the pass
makes of the old one. When a link bears the name of a temporary file, a script is lost to which it
leads, although the pass does not tell that it has written it. -/
theorem relinkAll_loses :
    (∃ host later config snapshot file, take host config {} = .ok snapshot ∧
      host.tree.IsProper ∧ host.tree.Edits later.tree ∧ later.directory = host.directory ∧
      file ∈ snapshot.tasks.map Task.file ∧ snapshot.Loses host later file) ∧
    ∃ host later config snapshot file, take host config {} = .ok snapshot ∧
      host.tree.IsProper ∧ host.tree.Edits later.tree ∧ later.directory = host.directory ∧
      file ∈ snapshot.tasks.map Task.file ∧ snapshot.Loses host later file ∧
      file ∉ (snapshot.relinkAll later).1.written := by
  constructor
  · refine ⟨samplePackage, recompiledPackage, sampleConfig, sampleSnapshot,
      ⟨"/p/dist/index.js"⟩, samplePackage_take, by decide,
      @recompiled_edits _ _ _ "import './b';".toByteArray false (by decide), rfl,
      by decide, "import './b';".toByteArray,
      "import './b'; let a = 1;".toByteArray, by decide, by decide,
      by decide +kernel, by decide +kernel⟩
  · refine ⟨crowdedPackage (.link ⟨"b.js"⟩),
      recompiled (crowdedPackage (.link ⟨"b.js"⟩)) "b.js" "let b = 1;",
      sampleConfig, sampleSnapshot, ⟨"/p/dist/b.js"⟩,
      crowdedPackage_take _ (by simp [leftovers]), by decide,
      @recompiled_edits _ _ _ "".toByteArray false (by decide), rfl,
      by decide, ⟨"".toByteArray, "let b = 1;".toByteArray, by decide,
      by decide +kernel, by decide +kernel, by decide +kernel⟩, by decide +kernel⟩

/-- When the script is compiled again that refers to the other one, the pass writes what it makes
of the old text. -/
theorem relinkAll_meanwhile_samplePackage :
    take samplePackage sampleConfig {} = .ok sampleSnapshot ∧
      ∀ task ∈ sampleSnapshot.tasks, ∃ place content executable content',
        recompiledPackage.tree.status recompiledPackage.directory task.file =
          .ok (place, .file content executable) ∧
        (sampleSnapshot.relinkAll recompiledPackage).2.readBytes task.file = .ok content' ∧
        (content' = content ∨ IsOverwritten sampleSnapshot recompiledPackage
          (sampleSnapshot.relinkAll recompiledPackage).1.written place content') ∧
        (task.file ∈ (sampleSnapshot.relinkAll recompiledPackage).1.written ->
          IsOverwritten sampleSnapshot recompiledPackage
            (sampleSnapshot.relinkAll recompiledPackage).1.written place content') := by
  have edits : samplePackage.tree.Edits recompiledPackage.tree :=
    @recompiled_edits _ _ _ "import './b';".toByteArray false (by decide)
  have free' (base : Location) : recompiledPackage.tree.LinkFree base :=
    Tree.linkFree_of_entries
      (by simp [recompiledPackage, recompiled, samplePackage, Tree.set, Tree.setEntry]) base
  obtain ⟨output, out, at_⟩ := exists_outputAt (take_eq_ok_iff.1 samplePackage_take)
    samplePackage_named fun out _ => samplePackage_linkFree out
  have meanwhile : Meanwhile samplePackage recompiledPackage sampleSnapshot :=
    at_.meanwhile rfl edits free'
  exact ⟨samplePackage_take,
    relinkAll_meanwhile samplePackage_take samplePackage_named meanwhile Prod.mk.eta.symm⟩

end Snapshot
end Relink
