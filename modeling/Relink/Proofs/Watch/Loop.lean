import Relink.Proofs.Trace
import Relink.Watch

/-!
# The loop that watches

Changes are sent to the loop in batches, at any time, and wait in a queue until it receives them.
The loop looks into the queue, and sleeps for a quiet period when there is nothing in it. When
the period ends it works on all that it has received since the last one, if there is anything.
No batch is lost by this, and none is worked on twice.
-/

namespace Relink

/-- The paths of one event. There is at least one. -/
structure Batch where
  paths : List Path
  filled : paths ≠ []

/-- What a loop is doing. -/
inductive Phase where
  /-- It is about to look into its queue. -/
  | looking
  /-- There was nothing in its queue, and it waits for something or for the end of the period. -/
  | asleep
  /-- It works. -/
  | working
  /-- No batch can come any more. -/
  | over
deriving DecidableEq

/-- A loop that watches. -/
structure Loop where
  /-- The batches that it has not received, the first one first. -/
  queue : List Batch := []
  /-- Whether more can be sent. -/
  isOpen : Bool := true
  coalescer : Coalescer := {}
  phase : Phase := .looking

/-- What can happen to a loop. -/
inductive Turn where
  | send (batch : Batch)
  | close
  | receive (batch : Batch)
  | sleep
  /-- Something may have come. A loop may also wake for nothing. -/
  | wake
  /-- A quiet period has ended. -/
  | quiet (runs : Bool)
  /-- A run has ended. -/
  | finish
  | leave

namespace Turn

/-- The batch that is sent in a turn. -/
def sent? : Turn -> Option Batch
  | send batch => some batch
  | _ => none

/-- The batch that is received in a turn. -/
def received? : Turn -> Option Batch
  | receive batch => some batch
  | _ => none

/-- Whether a quiet period ends in a turn. -/
def isQuiet : Turn -> Bool
  | quiet _ => true
  | _ => false

/-- Whether a run starts in a turn. -/
def isStart : Turn -> Bool
  | quiet runs => runs
  | _ => false

end Turn

/-- How many runs start in some turns. -/
def starts (turns : List Turn) : Nat :=
  turns.countP Turn.isStart

namespace Loop

/-- A turn of a loop. Others may send at any time, also while the loop works. It sleeps only
when it has found its queue empty, but something may come before the period ends, and the loop
may still take it for quiet. -/
inductive Step : Loop -> Turn -> Loop -> Prop
  | send {loop : Loop} (isOpen : loop.isOpen = true) (batch : Batch) :
      Step loop (.send batch) { loop with queue := loop.queue ++ [batch] }
  | close {loop : Loop} (isOpen : loop.isOpen = true) :
      Step loop .close { loop with isOpen := false }
  | receive {loop : Loop} {batch : Batch} {rest : List Batch} (looks : loop.phase = .looking)
      (first : loop.queue = batch :: rest) :
      Step loop (.receive batch)
        { loop with queue := rest, coalescer := (loop.coalescer.step (.changes batch.paths)).1 }
  | sleep {loop : Loop} (looks : loop.phase = .looking) (empty : loop.queue = [])
      (isOpen : loop.isOpen = true) : Step loop .sleep { loop with phase := .asleep }
  | wake {loop : Loop} (sleeps : loop.phase = .asleep) :
      Step loop .wake { loop with phase := .looking }
  | quiet {loop : Loop} {coalescer : Coalescer} {runs : Bool} (sleeps : loop.phase = .asleep)
      (step : loop.coalescer.step .quiet = (coalescer, runs)) :
      Step loop (.quiet runs)
        { loop with coalescer, phase := if runs then .working else .looking }
  | finish {loop : Loop} (works : loop.phase = .working) :
      Step loop .finish { loop with phase := .looking }
  | leave {loop : Loop} (looks : loop.phase = .looking) (empty : loop.queue = [])
      (closed : loop.isOpen = false) : Step loop .leave { loop with phase := .over }

/-- What comes of a loop in some turns. -/
abbrev Leads : Loop -> List Turn -> Loop -> Prop :=
  Trace Step

variable {first loop next : Loop} {turn : Turn} {turns : List Turn}

/-! ## What waits to be worked on -/

/-- The batches received since the last quiet period. -/
def waiting (turns : List Turn) : List Batch :=
  turns.foldl (fun batches turn =>
    match turn with
    | .receive batch => batches ++ [batch]
    | .quiet _ => []
    | _ => batches) []

/-- What waits after one more turn. -/
theorem waiting_concat (turns : List Turn) (turn : Turn) :
    waiting (turns ++ [turn]) =
      match turn with
      | .receive batch => waiting turns ++ [batch]
      | .quiet _ => []
      | _ => waiting turns := by
  rw [waiting, List.foldl_append]
  rfl

/-- After a quiet period all that is received waits until the next one. -/
theorem waiting_append {later : List Turn} (loud : ∀ turn ∈ later, turn.isQuiet = false) :
    waiting (turns ++ later) = waiting turns ++ later.filterMap Turn.received? := by
  induction later using List.reverseRecOn with
  | nil => rw [List.append_nil, List.filterMap_nil, List.append_nil]
  | append_singleton later turn ih =>
    have earlier := ih fun other member => loud other (List.mem_append_left _ member)
    rw [← List.append_assoc, waiting_concat, earlier, List.filterMap_append, ← List.append_assoc]
    cases turn with
    | receive batch => rfl
    | quiet runs =>
      have quiet := loud (.quiet runs) (by simp)
      cases quiet
    | _ => exact (List.append_nil _).symm

/-- What a step keeps: the changes that are pending are those of the batches that wait. -/
theorem Step.pending_eq (step : Step loop turn next)
    (before : loop.coalescer.pending = (waiting turns).flatMap Batch.paths) :
    next.coalescer.pending = (waiting (turns ++ [turn])).flatMap Batch.paths := by
  rw [waiting_concat]
  cases step with
  | receive looks first =>
    rw [List.flatMap_append, ← before]
    exact congrArg (loop.coalescer.pending ++ ·) (List.append_nil _).symm
  | quiet sleeps step =>
    obtain rfl := (Prod.mk.inj step).1
    rfl
  | _ => exact before

/-- The paths that are pending are those of the batches that wait. -/
theorem Leads.pending_eq (leads : Leads {} turns loop) :
    loop.coalescer.pending = (waiting turns).flatMap Batch.paths := by
  induction leads with
  | nil => rfl
  | concat _ step ih => exact step.pending_eq ih

/-- A loop is idle exactly if nothing was received since the last quiet period. -/
theorem Leads.isIdle_iff (leads : Leads {} turns loop) :
    loop.coalescer.isIdle = true ↔ waiting turns = [] := by
  rw [Coalescer.isIdle, List.isEmpty_iff, leads.pending_eq, List.flatMap_eq_nil_iff]
  constructor
  · intro none_
    refine List.eq_nil_iff_forall_not_mem.2 fun batch member => ?_
    exact batch.filled (none_ batch member)
  · rintro empty batch member
    rw [empty] at member
    cases member

/-- A run starts at the end of a quiet period exactly if something was received since the last
one. -/
theorem Leads.runs_iff {runs : Bool} {later : List Turn}
    (leads : Leads {} (turns ++ .quiet runs :: later) loop) : runs = true ↔ waiting turns ≠ [] := by
  obtain ⟨middle, reached, before, step, -⟩ := leads.split_cons
  cases step with
  | quiet sleeps step =>
    obtain ⟨-, rfl⟩ := Prod.mk.inj step
    rw [Bool.not_eq_true', ne_eq, ← Leads.isIdle_iff before, Bool.not_eq_true]

/-! ## What happens to every batch -/

/-- What was sent has been received or is in the queue, in the same order. -/
theorem Leads.sent_eq (leads : Leads {} turns loop) :
    turns.filterMap Turn.sent? = turns.filterMap Turn.received? ++ loop.queue := by
  induction leads with
  | nil => rfl
  | concat _ step ih =>
    rw [List.filterMap_append, List.filterMap_append, ih]
    cases step with
    | send isOpen batch =>
      rw [List.append_assoc, List.append_assoc]
      rfl
    | receive looks first =>
      rw [first, List.append_assoc, List.filterMap_cons_none rfl, List.filterMap_nil,
        List.append_nil, List.append_cons]
      rfl
    | _ => exact (List.append_nil _).trans (congrArg (· ++ _) (List.append_nil _).symm)

/-- What waits was received after the last quiet period. -/
theorem exists_split_of_waiting {batch : Batch} (member : batch ∈ waiting turns) :
    ∃ earlier later, turns = earlier ++ .receive batch :: later ∧
      ∀ turn ∈ later, turn.isQuiet = false := by
  induction turns using List.reverseRecOn with
  | nil => cases member
  | append_singleton turns turn ih =>
    have further (before : batch ∈ waiting turns) (loud : turn.isQuiet = false) :
        ∃ earlier later, turns ++ [turn] = earlier ++ .receive batch :: later ∧
          ∀ turn ∈ later, turn.isQuiet = false := by
      obtain ⟨earlier, later, rfl, quiet⟩ := ih before
      refine ⟨earlier, later ++ [turn], by simp, ?_⟩
      intro other inside
      rcases List.mem_append.1 inside with inside | last
      · exact quiet other inside
      · rwa [List.mem_singleton.1 last]
    rw [waiting_concat] at member
    cases turn with
    | receive other =>
      rcases List.mem_append.1 member with before | last
      · exact further before rfl
      · obtain rfl := List.mem_singleton.1 last
        exact ⟨turns, [], rfl, fun _ impossible => by cases impossible⟩
    | quiet runs => cases member
    | _ => exact further member rfl

/-- A batch that was received waits, or a run has started since. -/
theorem Leads.mem_waiting {earlier later : List Turn} {batch : Batch}
    (leads : Leads {} (earlier ++ .receive batch :: later) loop) (none_ : .quiet true ∉ later) :
    batch ∈ waiting (earlier ++ .receive batch :: later) := by
  induction later using List.reverseRecOn generalizing loop with
  | nil =>
    rw [waiting_concat]
    exact List.mem_append_right _ (List.mem_singleton_self batch)
  | append_singleton later turn ih =>
    rw [← List.cons_append, ← List.append_assoc] at leads ⊢
    obtain ⟨middle, before, step⟩ := leads.split_concat
    have waits := ih before fun inside => none_ (List.mem_append_left _ inside)
    rw [waiting_concat]
    cases turn with
    | receive other => exact List.mem_append_left _ waits
    | quiet runs =>
      obtain rfl := leads.runs_iff.2 (List.ne_nil_of_mem waits)
      exact absurd (List.mem_append_right later (List.mem_singleton_self _)) none_
    | _ => exact waits

/-! ## How many runs there are -/

/-- How often a run was begun after one more turn. -/
theorem starts_concat (turns : List Turn) (turn : Turn) :
    starts (turns ++ [turn]) = starts turns + if turn.isStart then 1 else 0 := by
  rw [starts, List.countP_append, List.countP_singleton]
  rfl

/-- A loop in which so many runs have started since the last batch was sent. As long as there
was none there may be changes in the queue or pending ones, and after one there are none. A
sleeping loop has found its queue empty. -/
structure Drains (count : Nat) (loop : Loop) : Prop where
  once : count ≤ 1
  drained : count = 1 -> loop.queue = [] ∧ loop.coalescer.isIdle = true
  slept : loop.phase = .asleep -> loop.queue = []

/-- A turn that sends nothing drains at least what it begins a run for. -/
theorem Drains.step {count : Nat} (drains : Drains count loop) (step : Step loop turn next)
    (unsent : turn.sent? = none) : Drains (count + if turn.isStart then 1 else 0) next := by
  obtain ⟨once, drained, slept⟩ := drains
  cases step with
  | send isOpen batch => cases unsent
  | close isOpen => exact ⟨once, drained, slept⟩
  | receive looks first =>
    have before : count ≠ 1 := by
      intro started
      rw [(drained started).1] at first
      cases first
    refine ⟨once, fun started => absurd started before, fun sleeps => ?_⟩
    cases looks.symm.trans sleeps
  | sleep looks empty isOpen => exact ⟨once, drained, fun _ => empty⟩
  | wake sleeps => exact ⟨once, drained, fun _ => slept sleeps⟩
  | quiet sleeps step =>
    obtain ⟨rfl, rfl⟩ := Prod.mk.inj step
    by_cases idle : loop.coalescer.isIdle = true
    · rw [Turn.isStart, idle]
      exact ⟨once, fun _ => ⟨slept sleeps, rfl⟩, fun _ => slept sleeps⟩
    · have before : count = 0 := by
        by_contra started
        exact idle (drained (by omega)).2
      have busy : loop.coalescer.isIdle = false := by simpa using idle
      rw [Turn.isStart, busy, before]
      exact ⟨Nat.le_refl 1, fun _ => ⟨slept sleeps, rfl⟩, fun _ => slept sleeps⟩
  | finish works => exact ⟨once, drained, fun sleeps => by cases sleeps⟩
  | leave looks empty closed => exact ⟨once, drained, fun sleeps => by cases sleeps⟩

/-- From a loop with nothing to do, turns that send nothing drain what they begin runs for. -/
theorem Drains.leads (drains : Drains 0 first) (leads : Leads first turns loop)
    (unsent : ∀ turn ∈ turns, turn.sent? = none) : Drains (starts turns) loop := by
  induction leads with
  | nil => exact drains
  | concat _ step ih =>
    rw [starts_concat]
    have before := ih fun turn member => unsent turn (List.mem_append_left _ member)
    exact before.step step (unsent _ (by simp))

/-! ## What the loop promises -/

/-- What some turns of a loop come to: no work is lost, and none is done twice. -/
structure Coalesces (turns : List Turn) (loop : Loop) : Prop where
  /-- What was sent has been received or is in the queue, in the same order. -/
  delivered : turns.filterMap Turn.sent? = turns.filterMap Turn.received? ++ loop.queue
  /-- A run starts only if something was received since the last quiet period. -/
  prompted : ∀ {before after : List Turn}, turns = before ++ .quiet true :: after ->
    ∃ earlier batch later, before = earlier ++ .receive batch :: later ∧
      ∀ turn ∈ later, turn.isQuiet = false
  /-- What is received without a quiet period in between starts one run, at the end of the
  next one. -/
  answered : ∀ {before group after : List Turn} {runs : Bool} {batch : Batch},
    turns = before ++ group ++ .quiet runs :: after ->
      (∀ turn ∈ group, turn.isQuiet = false) -> .receive batch ∈ group ->
      runs = true ∧ starts (group ++ [.quiet runs]) = 1
  /-- All that has come when a run ends starts one more run at most, if nothing comes after. -/
  joined : ∀ {before after : List Turn}, turns = before ++ .finish :: after ->
    (∀ turn ∈ after, turn.sent? = none) -> starts after ≤ 1
  /-- All that an idle loop has received was received before the start of a run. -/
  worked : loop.coalescer.isIdle = true ->
    ∀ {earlier later : List Turn} {batch : Batch},
      turns = earlier ++ .receive batch :: later -> .quiet true ∈ later

/-- A run is begun only where a batch was received since the last quiet turn. -/
theorem Leads.prompted {before after : List Turn}
    (leads : Leads {} (before ++ .quiet true :: after) loop) :
    ∃ earlier batch later, before = earlier ++ .receive batch :: later ∧
      ∀ turn ∈ later, turn.isQuiet = false := by
  obtain ⟨batch, waits⟩ := List.exists_mem_of_ne_nil _ (leads.runs_iff.1 rfl)
  obtain ⟨earlier, later, split, loud⟩ := exists_split_of_waiting waits
  exact ⟨earlier, batch, later, split, loud⟩

/-- Batches before a quiet turn are answered by one run. -/
theorem Leads.answered {before group after : List Turn} {runs : Bool} {batch : Batch}
    (leads : Leads {} (before ++ group ++ .quiet runs :: after) loop)
    (loud : ∀ turn ∈ group, turn.isQuiet = false) (received : .receive batch ∈ group) :
    runs = true ∧ starts (group ++ [.quiet runs]) = 1 := by
  have waits : batch ∈ waiting (before ++ group) := by
    rw [waiting_append loud]
    exact List.mem_append_right _ (List.mem_filterMap.2 ⟨_, received, rfl⟩)
  obtain rfl := leads.runs_iff.2 (List.ne_nil_of_mem waits)
  have none_ : starts group = 0 := by
    rw [starts, List.countP_eq_zero]
    intro turn member
    cases turn with
    | quiet runs => cases loud _ member
    | _ => exact Bool.false_ne_true
  rw [starts_concat, none_]
  exact ⟨rfl, rfl⟩

/-- After the loop is told to finish, at most one more run is begun. -/
theorem Leads.joined {before after : List Turn}
    (leads : Leads {} (before ++ .finish :: after) loop)
    (unsent : ∀ turn ∈ after, turn.sent? = none) : starts after ≤ 1 := by
  obtain ⟨middle, reached, -, step, later⟩ := leads.split_cons
  have drains : Drains 0 reached := by
    cases step with
    | finish works =>
      refine ⟨Nat.zero_le 1, fun started => ?_, fun sleeps => ?_⟩
      · cases started
      · cases sleeps
  exact (drains.leads later unsent).once

/-- Whatever is sent to a loop, and whenever: no work is lost, and none is done twice. -/
theorem coalesces (leads : Leads {} turns loop) : Coalesces turns loop where
  delivered := leads.sent_eq
  prompted := by
    rintro before after rfl
    exact leads.prompted
  answered := by
    rintro before group after runs batch rfl loud received
    exact leads.answered loud received
  joined := by
    rintro before after rfl unsent
    exact leads.joined unsent
  worked := by
    rintro idle earlier later batch rfl
    by_contra none_
    have waits := leads.mem_waiting none_
    rw [leads.isIdle_iff.1 idle] at waits
    cases waits

def sampleBatch : Batch :=
  ⟨[⟨"/p/dist/index.js"⟩], by decide⟩

/-- Two changes start a run, and another one comes while it works. -/
def sampleTurns : List Turn :=
  [.send sampleBatch, .send sampleBatch, .receive sampleBatch, .receive sampleBatch, .sleep,
    .quiet true, .send sampleBatch, .finish]

theorem coalesces_sampleTurns : ∃ loop : Loop, loop.queue = [sampleBatch] ∧
    Leads {} sampleTurns loop ∧ Coalesces sampleTurns loop := by
  have sent : Leads {} [.send sampleBatch, .send sampleBatch] _ :=
    (Trace.nil.concat (.send rfl sampleBatch)).concat (.send rfl sampleBatch)
  have received := (sent.concat (.receive rfl rfl)).concat (.receive rfl rfl)
  have started := (received.concat (.sleep rfl rfl rfl)).concat (.quiet rfl rfl)
  have ended := (started.concat (.send rfl sampleBatch)).concat (.finish rfl)
  exact ⟨_, rfl, ended, coalesces ended⟩

/-- Receiving paths is a sequence of turns. -/
theorem leads_receive (coalescer : Coalescer) (paths : List Path) :
    ∃ turns, Leads { coalescer } turns { coalescer := coalescer.receive paths } := by
  by_cases filled : paths = []
  · have same : coalescer.receive paths = coalescer := by
      rw [Coalescer.receive, filled, List.append_nil]
    rw [same]
    exact ⟨[], .nil⟩
  · have sent : Leads { coalescer } [.send ⟨paths, filled⟩] _ := Trace.nil.concat (.send rfl _)
    have received := sent.concat (.receive rfl rfl)
    exact ⟨_, received⟩

end Loop

namespace Watching

variable {first : Loop} {turns : List Turn} {watching : Watching}

/-- A command that is watching, as a loop that has received all that was sent. -/
def loop (watching : Watching) : Loop :=
  { coalescer := watching.coalescer }

/-- Observing what changed is a sequence of turns. -/
theorem exists_leads_observe (watching : Watching) :
    ∃ turns, Loop.Leads watching.loop turns watching.observe.loop :=
  Loop.leads_receive ..

/-- What others do reaches the loop. -/
theorem exists_leads_disturb (watching : Watching) (host : Host) :
    ∃ turns, Loop.Leads watching.loop turns (watching.disturb host).loop :=
  exists_leads_observe { watching with scene := { watching.scene with host } }

/-- A quiet period and what comes of it are turns of the loop. -/
theorem exists_leads_pause (watching : Watching) :
    ∃ turns, Loop.Leads watching.loop turns watching.pause.loop := by
  have sleeps : Loop.Leads watching.loop [.sleep] _ := Trace.nil.concat (.sleep rfl rfl rfl)
  rw [pause]
  by_cases idle : watching.coalescer.isIdle = true
  · have same : watching.coalescer.step .quiet = ({}, false) := by
      rw [Coalescer.step, idle]
      rfl
    rw [same]
    have quiet := sleeps.concat (.quiet rfl same)
    exact ⟨_, quiet⟩
  · have same : watching.coalescer.step .quiet = ({}, true) := by
      rw [Coalescer.step, Bool.eq_false_iff.2 idle]
      rfl
    rw [same]
    have works := (sleeps.concat (.quiet rfl same)).concat (.finish rfl)
    obtain ⟨turns, receives⟩ := exists_leads_observe
      { watching with
        coalescer := {}
        scene := ((do Task.print divider; Command.attempt watching.work : Task Unit)
          watching.scene).2 }
    exact ⟨_, works.append receives⟩

/-- A command that is watching does what a loop can do. -/
theorem exists_leads_settle (watching : Watching) (periods : Nat) :
    ∃ turns, Loop.Leads watching.loop turns (watching.settle periods).loop := by
  induction periods generalizing watching with
  | zero => exact ⟨[], .nil⟩
  | succ periods ih =>
    obtain ⟨earlier, before⟩ := watching.exists_leads_pause
    obtain ⟨later, after⟩ := ih watching.pause
    exact ⟨earlier ++ later, before.append after⟩

end Watching
end Relink
