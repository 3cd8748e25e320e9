import Relink.Proofs.Frame
import Relink.Proofs.Recurrence
import Relink.Proofs.Watch.Loop

/-!
# The loop comes to rest

What a pass writes is a change like any other, so a loop that relinks what it watches asks itself
for another run. A run that writes nothing asks for none. The second run is one of them, and what
the first one could not write it cannot write either, unless a directory was in the way.
-/

namespace Relink

/-- The batch that tells of one file. -/
def Batch.of (file : Path) : Batch :=
  ⟨[file], List.cons_ne_nil _ _⟩

/-- A loop that relinks the output of a package whenever something has changed. -/
structure Relinker where
  host : Host
  loop : Loop := {}
  /-- The files that the run under way has written and of which nothing was sent. -/
  unsent : List Path := []
  /-- What the runs have come to, the first one first. -/
  results : List (Except Problem Report) := []

namespace Relinker

/-- A turn of a loop that relinks while nobody else changes anything. A run makes a pass, and sends
one batch for every file that it has written before it ends, if anything can be sent. -/
inductive Step (config : Config) : Relinker -> Turn -> Relinker -> Prop
  | run {relinker : Relinker} {loop : Loop} {result : Except Problem Report} {after : Host}
      (step : relinker.loop.Step (.quiet true) loop)
      (done : relinkOutput relinker.host config {} = (result, after)) :
      Step config relinker (.quiet true)
        { host := after, loop, unsent := writtenFiles result,
          results := relinker.results ++ [result] }
  | tell {relinker : Relinker} {loop : Loop} {file : Path} {rest : List Path}
      (first : relinker.unsent = file :: rest)
      (step : relinker.loop.Step (.send (.of file)) loop) :
      Step config relinker (.send (.of file)) { relinker with loop, unsent := rest }
  | finish {relinker : Relinker} {loop : Loop}
      (told : relinker.unsent = [] ∨ relinker.loop.isOpen = false)
      (step : relinker.loop.Step .finish loop) :
      Step config relinker .finish { relinker with loop, unsent := [] }
  | other {relinker : Relinker} {turn : Turn} {loop : Loop} (sends : turn.sent? = none)
      (starts : turn.isStart = false) (finishes : turn ≠ .finish)
      (step : relinker.loop.Step turn loop) : Step config relinker turn { relinker with loop }

/-- What comes of a loop that relinks in some turns. -/
abbrev Leads (config : Config) : Relinker -> List Turn -> Relinker -> Prop :=
  Trace (Step config)

variable {config : Config} {first relinker next last : Relinker} {turn : Turn}
  {turns : List Turn} {results : List (Except Problem Report)}

/-- The turns of a loop that relinks are turns of its loop. -/
theorem Leads.loop (leads : Leads config first turns last) :
    Loop.Leads first.loop turns last.loop := by
  induction leads with
  | nil => exact .nil
  | concat _ step ih =>
    cases step with
    | run step done => exact ih.concat step
    | tell first step => exact ih.concat step
    | finish told step => exact ih.concat step
    | other sends starts finishes step => exact ih.concat step

/-! ## Rest -/

/-- A loop to which nothing more will come. -/
structure IsCalm (relinker : Relinker) : Prop where
  received : relinker.loop.queue = []
  idle : relinker.loop.coalescer.isIdle = true
  told : relinker.unsent = []

theorem IsCalm.step (calm : relinker.IsCalm) (step : Step config relinker turn next) :
    next.IsCalm ∧ next.host = relinker.host ∧ next.results = relinker.results ∧
      turn.sent? = none ∧ turn.isStart = false := by
  obtain ⟨received, idle, told⟩ := calm
  cases step with
  | run step done =>
    cases step with
    | quiet sleeps step =>
      obtain ⟨-, busy⟩ := Prod.mk.inj step
      rw [idle] at busy
      cases busy
  | tell first step =>
    rw [told] at first
    cases first
  | finish _ step =>
    cases step with
    | finish works => exact ⟨⟨received, idle, rfl⟩, rfl, rfl, rfl, rfl⟩
  | other sends starts finishes step =>
    refine ⟨?_, rfl, rfl, sends, starts⟩
    cases step with
    | send isOpen batch => cases sends
    | receive looks first =>
      rw [received] at first
      cases first
    | quiet sleeps step =>
      obtain ⟨rfl, -⟩ := Prod.mk.inj step
      exact ⟨received, rfl, told⟩
    | _ => exact ⟨received, idle, told⟩

/-- In a calm loop nothing happens any more. -/
theorem IsCalm.leads (calm : first.IsCalm) (leads : Leads config first turns last) :
    last.IsCalm ∧ last.host = first.host ∧ last.results = first.results ∧
      ∀ turn ∈ turns, turn.sent? = none ∧ turn.isStart = false := by
  induction leads with
  | nil => exact ⟨calm, rfl, rfl, fun _ impossible => by cases impossible⟩
  | concat _ step ih =>
    obtain ⟨calm, host_eq, results_eq, silent⟩ := ih
    obtain ⟨calm, host_eq', results_eq', unsent⟩ := calm.step step
    refine ⟨calm, host_eq'.trans host_eq, results_eq'.trans results_eq, ?_⟩
    rw [List.forall_mem_append, List.forall_mem_singleton]
    exact ⟨silent, unsent⟩

/-! ## Runs -/

/-- What a loop has done in some turns: the passes that its runs have made, with their results.
Each run that another one follows has written something, except perhaps the first, when there were
changes that the loop had not received. -/
structure Course (config : Config) (first : Relinker) (turns : List Turn) (last : Relinker)
    (results : List (Except Problem Report)) : Prop where
  told : last.results = first.results ++ results
  count : results.length = starts turns
  passes : Passes config first.host results last.host
  /-- Only a run that is under way has something to send. -/
  working : last.unsent ≠ [] -> last.loop.phase = .working
  /-- Nobody but a run sends, so a loop that sleeps after one has nothing left to receive. -/
  slept : results ≠ [] -> last.loop.phase = .asleep -> last.loop.queue = []
  fed : ∀ {earlier later : List (Except Problem Report)} {result : Except Problem Report},
    results = earlier ++ result :: later -> earlier ≠ [] -> later ≠ [] -> writtenFiles result ≠ []
  calm : ∀ {earlier : List (Except Problem Report)} {result : Except Problem Report},
    results = earlier ++ [result] -> earlier ≠ [] -> writtenFiles result = [] -> last.IsCalm

/-- A run adds a pass. -/
theorem Course.run {loop : Loop} {result : Except Problem Report} {after : Host}
    (course : Course config first turns relinker results)
    (step : relinker.loop.Step (.quiet true) loop)
    (done : relinkOutput relinker.host config {} = (result, after)) :
    Course config first (turns ++ [.quiet true])
      { host := after, loop, unsent := writtenFiles result,
        results := relinker.results ++ [result] } (results ++ [result]) := by
  cases step with
  | quiet sleeps step =>
    obtain ⟨rfl, busy⟩ := Prod.mk.inj step
    constructor
    · rw [course.told, List.append_assoc]
    · rw [List.length_append, course.count, Loop.starts_concat]
      rfl
    · exact course.passes.concat done
    · exact fun _ => rfl
    · intro _ asleep
      cases asleep
    · intro earlier later other split filled more
      obtain ⟨rest, last, rfl⟩ := (List.eq_nil_or_concat later).resolve_left more
      rw [List.concat_eq_append, ← List.cons_append, ← List.append_assoc] at split
      have split' := (List.append_inj' split rfl).1
      by_cases final : rest = []
      · subst final
        intro none_
        -- The run that is starting has been asked for by something.
        have calm := course.calm split' filled none_
        rw [calm.idle] at busy
        cases busy
      · exact course.fed split' filled final
    · intro earlier other split filled none_
      obtain ⟨rfl, same⟩ := List.append_inj' split rfl
      obtain rfl := (List.cons.inj same).1
      exact ⟨course.slept filled sleeps, rfl, none_⟩

/-- Any other turn adds none. -/
theorem Course.keep (course : Course config first turns relinker results)
    (starts_ : turn.isStart = false) (same : next.results = relinker.results)
    (host_eq : next.host = relinker.host)
    (working : next.unsent ≠ [] -> next.loop.phase = .working)
    (slept : results ≠ [] -> next.loop.phase = .asleep -> next.loop.queue = [])
    (calm : relinker.IsCalm -> next.IsCalm) :
    Course config first (turns ++ [turn]) next results where
  told := same.trans course.told
  count := by
    rw [Loop.starts_concat, starts_]
    exact course.count
  passes := host_eq ▸ course.passes
  working
  slept
  fed := course.fed
  calm := fun split filled none_ => calm (course.calm split filled none_)

/-- What a step adds to what was done. -/
theorem Course.step (course : Course config first turns relinker results)
    (step : Step config relinker turn next) :
    ∃ results, Course config first (turns ++ [turn]) next results := by
  have calms : relinker.IsCalm -> next.IsCalm := fun calm => (calm.step step).1
  -- Only a run changes what has happened so far; the other turns keep the course.
  cases step with
  | run step done => exact ⟨_, course.run step done⟩
  | tell unsent step =>
    have works := course.working (by rw [unsent]; exact List.cons_ne_nil _ _)
    cases step with
    | send isOpen batch =>
      refine ⟨results, course.keep rfl rfl rfl (fun _ => works) (fun _ asleep => ?_) calms⟩
      cases works.symm.trans asleep
  | finish _ step =>
    cases step with
    | finish works =>
      refine ⟨results, course.keep rfl rfl rfl (fun more => absurd rfl more) ?_ calms⟩
      intro _ asleep
      cases asleep
  | other sends starts_ finishes step =>
    refine ⟨results, course.keep starts_ rfl rfl ?_ ?_ calms⟩
    · intro more
      have works := course.working more
      cases step with
      | send isOpen batch => cases sends
      | close isOpen => exact works
      | receive looks _ => cases works.symm.trans looks
      | sleep looks _ _ => cases works.symm.trans looks
      | wake sleeps => cases works.symm.trans sleeps
      | quiet sleeps _ => cases works.symm.trans sleeps
      | finish works => exact absurd rfl finishes
      | leave looks _ _ => cases works.symm.trans looks
    · intro ran asleep
      cases step with
      | send isOpen batch => cases sends
      | close isOpen => exact course.slept ran asleep
      | receive looks _ => cases looks.symm.trans asleep
      | sleep _ empty _ => exact empty
      | wake _ => cases asleep
      | quiet sleeps _ => exact course.slept ran sleeps
      | finish _ => exact absurd rfl finishes
      | leave _ _ _ => cases asleep

/-- What turns do of a loop in which no run is under way. -/
theorem Leads.exists_course (ready : first.unsent = []) (leads : Leads config first turns last) :
    ∃ results, Course config first turns last results := by
  induction leads with
  | nil =>
    refine ⟨[], ?_⟩
    constructor
    · exact (List.append_nil _).symm
    · rfl
    · exact .nil
    · exact fun more => absurd ready more
    · exact fun ran => absurd rfl ran
    · intro earlier later result split
      cases (List.append_eq_nil_iff.1 split.symm).2
    · intro earlier result split
      cases (List.append_eq_nil_iff.1 split.symm).2
  | concat _ step ih =>
    obtain ⟨results, course⟩ := ih
    exact course.step step

/-- Runs that have all written something are no more than the files that they have written. -/
theorem length_le_writtenFiles {runs : List (Except Problem Report)}
    (fed : ∀ run ∈ runs, writtenFiles run ≠ []) :
    runs.length ≤ (runs.flatMap writtenFiles).length := by
  induction runs with
  | nil => exact le_refl _
  | cons run runs ih =>
    obtain ⟨here, fed⟩ := List.forall_mem_cons.1 fed
    have some_ := List.length_pos_iff.2 here
    have others := ih fed
    rw [List.flatMap_cons, List.length_append, List.length_cons]
    omega

/-- There are at most two more runs than files that were written. -/
theorem Course.length_le (course : Course config first turns last results) :
    results.length ≤ 2 + (results.flatMap writtenFiles).length := by
  cases results with
  | nil => exact Nat.zero_le _
  | cons opening later =>
    rcases List.eq_nil_or_concat later with rfl | ⟨middle, final, rfl⟩
    · exact (by decide : 1 ≤ 2).trans (Nat.le_add_right ..)
    · have fed : ∀ run ∈ middle, writtenFiles run ≠ [] := by
        intro run member
        obtain ⟨earlier, after, rfl⟩ := List.append_of_mem member
        have split : opening :: (earlier ++ run :: after).concat final =
            (opening :: earlier) ++ run :: (after ++ [final]) := by simp
        exact course.fed split (List.cons_ne_nil _ _) (by simp)
      have others := length_le_writtenFiles fed
      simp only [List.concat_eq_append, List.length_cons, List.length_append, List.flatMap_cons,
        List.flatMap_append, List.length_nil]
      omega

/-- Where no directory is in the way, there is no third run. -/
theorem Course.length_le_two (course : Course config first turns last results)
    (orderly : first.host.IsOrderly config) (clear : first.host.IsClear) : results.length ≤ 2 := by
  match results, course with
  | [], _ => exact Nat.zero_le 2
  | [_], _ => exact Nat.le_succ 1
  | [_, _], _ => exact le_refl 2
  | run :: again :: next :: later, course =>
    have passes : Passes config first.host ([run, again] ++ next :: later) last.host :=
      course.passes
    obtain ⟨host, both, -⟩ := passes.split
    obtain ⟨now, ticket, -, -, rfl⟩ := Passes.second orderly clear both
    have fed := course.fed (rfl : _ = [run] ++ run.map Report.again :: next :: later)
      (List.cons_ne_nil _ _) (List.cons_ne_nil _ _)
    exact absurd (writtenFiles_again run) fed

/-! ## What the loop promises -/

/-- What some turns of a loop that relinks come to, when nobody else changes anything. -/
structure Rests (config : Config) (first : Relinker) (turns : List Turn) (last : Relinker) :
    Prop where
  /-- Each run is a pass, made where the one before it has left off. -/
  ran : ∃ results, last.results = first.results ++ results ∧ results.length = starts turns ∧
    Passes config first.host results last.host
  /-- There are at most two more runs than files that relinking changes. -/
  bound : starts turns ≤ 2 + first.host.unsettled config
  /-- Where no directory bears the name of a temporary file, there are two runs at most. -/
  twice : first.host.IsClear -> starts turns ≤ 2
  /-- Then the second run writes nothing and sends nothing, and tells again what could not be
  written. -/
  second : first.host.IsClear -> ∀ {before after : List Turn},
    turns = before ++ .quiet true :: after -> starts before = 1 ->
      ∃ result between, relinkOutput first.host config {} = (result, between) ∧
        last.results = first.results ++ [result, result.map Report.again] ∧
        last.host.tree = between.tree ∧ ∀ turn ∈ after, turn.sent? = none

theorem Leads.second {before after : List Turn} (orderly : first.host.IsOrderly config)
    (clear : first.host.IsClear) (ready : first.unsent = [])
    (leads : Leads config first (before ++ .quiet true :: after) last)
    (once : starts before = 1) :
    ∃ result between, relinkOutput first.host config {} = (result, between) ∧
      last.results = first.results ++ [result, result.map Report.again] ∧
      last.host.tree = between.tree ∧ ∀ turn ∈ after, turn.sent? = none := by
  rw [List.append_cons] at leads
  obtain ⟨second, until_, rest⟩ := leads.split
  obtain ⟨results, course⟩ := Leads.exists_course ready until_
  have count := course.count
  rw [Loop.starts_concat, once] at count
  match results, course, count with
  | [result, again], course, _ =>
    obtain ⟨between, ticket, done, host_eq, rfl⟩ := Passes.second orderly clear course.passes
    have calm := course.calm (rfl : _ = [result] ++ [result.map Report.again])
      (List.cons_ne_nil _ _) (writtenFiles_again result)
    obtain ⟨-, host_eq', results_eq, silent⟩ := calm.leads rest
    refine ⟨result, between, done, ?_, ?_, fun turn member => (silent turn member).1⟩
    · rw [results_eq, course.told]
    · rw [host_eq', host_eq]

/-- A loop that relinks comes to rest when nobody else changes anything, whatever it has still to
receive. No link may lie anywhere, and what is added to specifiers must be free of quotes and
blanks. -/
theorem rests (orderly : first.host.IsOrderly config) (ready : first.unsent = [])
    (leads : Leads config first turns last) : Rests config first turns last := by
  obtain ⟨results, course⟩ := leads.exists_course ready
  constructor
  · exact ⟨results, course.told, course.count, course.passes⟩
  · have runs := course.length_le
    have files := (Passes.orderly course.passes orderly).2
    rw [course.count] at runs
    omega
  · intro clear
    rw [← course.count]
    exact course.length_le_two orderly clear
  · rintro clear before after rfl once
    exact leads.second orderly clear ready once

/-- A loop that relinks sleeps when there is nothing in its queue. -/
theorem Step.sleep (looks : relinker.loop.phase = .looking) (empty : relinker.loop.queue = [])
    (isOpen : relinker.loop.isOpen = true) :
    Step config relinker .sleep
      { relinker with loop := { relinker.loop with phase := .asleep } } :=
  .other rfl rfl nofun (.sleep looks empty isOpen)

/-- A loop that relinks receives what is in its queue. -/
theorem Step.receive {batch : Batch} {rest : List Batch} (looks : relinker.loop.phase = .looking)
    (queued : relinker.loop.queue = batch :: rest) :
    Step config relinker (.receive batch)
      { relinker with
        loop := { relinker.loop with
          queue := rest
          coalescer := (relinker.loop.coalescer.step (.changes batch.paths)).1 } } :=
  .other rfl rfl nofun (.receive looks queued)

theorem sampleSnapshot_ways : Snapshot.sampleSnapshot.HasLegibleWays :=
  Snapshot.sampleSnapshot_isQuotable.ways (Snapshot.take_eq_ok_iff.1 Snapshot.samplePackage_take)
    Snapshot.samplePackage_named Snapshot.sampleSnapshot_hasUnicodeWays

/-- The small package, when a change of it was received. -/
def sampleRelinker : Relinker where
  host := Snapshot.samplePackage
  loop := { coalescer := ⟨[⟨"/p/dist/index.js"⟩]⟩ }

/-- A run writes two files, and the changes of both start another one. -/
def relinkingTurns : List Turn :=
  [.sleep, .quiet true, .send (.of ⟨"/p/dist/index.d.ts"⟩), .send (.of ⟨"/p/dist/index.js"⟩),
    .finish, .receive (.of ⟨"/p/dist/index.d.ts"⟩), .receive (.of ⟨"/p/dist/index.js"⟩), .sleep,
    .quiet true]

theorem rests_relinkingTurns : ∃ last,
    Leads Snapshot.sampleConfig sampleRelinker relinkingTurns last ∧
    last.results = [.ok sampleReport, .ok { filesScanned := 3 }] ∧
    Rests Snapshot.sampleConfig sampleRelinker relinkingTurns last := by
  have orderly : sampleRelinker.host.IsOrderly Snapshot.sampleConfig := by
    refine ⟨by decide, ?_, fun snapshot taken => ?_⟩
    · exact Snapshot.samplePackage_linkFree []
    · obtain rfl := Except.ok.inj (Snapshot.samplePackage_take.symm.trans taken)
      exact sampleSnapshot_ways
  have clear : sampleRelinker.host.IsClear := by
    have visible : ∀ location ∈ sampleRelinker.host.tree.locations, Tree.AreVisible location := by
      decide
    intro location temporary found
    have hidden := temporary.isHidden
    by_cases top : location = []
    · obtain ⟨outer, name, shape, -⟩ := hidden
      rw [top] at shape
      simp at shape
    · exact (visible location (Tree.mem_of_lookup top found)).not_isHidden top [] hidden
  have slept : Leads Snapshot.sampleConfig sampleRelinker [.sleep] _ :=
    Trace.nil.concat (.sleep rfl rfl rfl)
  have started := slept.concat (.run (.quiet rfl rfl) samplePackage_relinkOutput)
  have told := (started.concat (.tell rfl (.send rfl _))).concat (.tell rfl (.send rfl _))
  have ended := told.concat (.finish (.inl rfl) (.finish rfl))
  have received := (ended.concat (.receive rfl rfl)).concat (.receive rfl rfl)
  have slept' := received.concat (.sleep rfl rfl rfl)
  have again := slept'.concat (.run (.quiet rfl rfl) Prod.mk.eta.symm)
  have all := rests orderly rfl again
  obtain ⟨result, between, done, results_eq, -, -⟩ := all.second clear
    (by rfl : relinkingTurns = relinkingTurns.dropLast ++ .quiet true :: []) (by decide)
  have first_ := (Prod.mk.inj (done.symm.trans samplePackage_relinkOutput)).1
  refine ⟨_, again, ?_, all⟩
  rw [results_eq, first_]
  rfl

/-- A directory that bears the name of a temporary file is in the way once, and the second run
writes what the first one could not write. -/
theorem rerun_writes :
    ¬∀ (config : Config) (first last : Relinker) (turns : List Turn),
      first.host.IsOrderly config -> first.loop.phase ≠ .working -> first.unsent = [] ->
      Leads config first turns last -> ∀ result again,
        last.results = first.results ++ [result, again] -> writtenFiles again = [] := by
  intro all
  have taken := Snapshot.crowdedPackage_take .directory (by simp [Snapshot.leftovers])
  have orderly : (Snapshot.crowdedPackage .directory).IsOrderly Snapshot.sampleConfig := by
    refine ⟨by decide, ?_, fun snapshot taken' => ?_⟩
    · exact Tree.linkFree_of_entries
        (by simp [Snapshot.crowdedPackage, Snapshot.samplePackage]) []
    · obtain rfl := Except.ok.inj (taken.symm.trans taken')
      exact sampleSnapshot_ways
  -- The first run writes the script only, and the second one the declaration.
  have writes : (Snapshot.sampleSnapshot.relinkAll (Snapshot.crowdedPackage .directory)).1.written =
      [⟨"/p/dist/index.js"⟩] := by decide +kernel
  have writes' : ((Snapshot.sampleSnapshot.rewritten [⟨"/p/dist/index.js"⟩]).relinkAll
      (Snapshot.sampleSnapshot.relinkAll (Snapshot.crowdedPackage .directory)).2).1.written =
        [⟨"/p/dist/index.d.ts"⟩] := by decide +kernel
  generalize worked : Snapshot.sampleSnapshot.relinkAll (Snapshot.crowdedPackage .directory) = done
    at writes writes'
  obtain ⟨report, after⟩ := done
  dsimp only at writes writes'
  generalize Snapshot.crowdedPackage .directory = host at taken orderly worked
  obtain ⟨output, out, at_⟩ := orderly.exists_outputAt taken
  obtain ⟨-, -, -, progress⟩ := at_.pass worked
  have apart : Snapshot.ManifestApart host Snapshot.sampleConfig := .of_linkFree orderly.linkFree
  have taken' := Snapshot.take_eq_ok_iff.2
    (at_.taken_again apart progress (by rfl : after.tree = after.tree) rfl)
  rw [writes] at taken'
  generalize worked' : Snapshot.relinkAll _ after = done' at writes'
  obtain ⟨report', after'⟩ := done'
  have slept : Leads Snapshot.sampleConfig { sampleRelinker with host } [.sleep] _ :=
    Trace.nil.concat (.sleep rfl rfl rfl)
  have started := slept.concat (.run (.quiet rfl rfl) (relinkOutput_of_take taken worked))
  have told := started.concat (.tell writes (.send rfl _))
  have ended := told.concat (.finish (.inl rfl) (.finish rfl))
  have slept' := (ended.concat (.receive rfl rfl)).concat (.sleep rfl rfl rfl)
  have again := slept'.concat (.run (.quiet rfl rfl) (relinkOutput_of_take taken' worked'))
  have none_ := all _ _ _ _ orderly (by intro works; cases works) rfl again _ _ rfl
  cases writes'.symm.trans none_

end Relinker

end Relink
