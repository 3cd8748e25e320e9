import Mathlib.Data.Fintype.Card
import Mathlib.Logic.Relation
import Relink.Proofs.Host.Temporary

/-!
# Writers at the same time

Calls of one process replace the contents of files at the same time, and their steps come in any
order. Each call has a temporary file of its own, since no two tickets give the same name, and a
target with a visible name is never a temporary file. So a target is always what it was before, or
what one call made of it as a whole.
-/

namespace Relink

/-- Calls of one process, each of which replaces the content of a file. -/
structure Writers (count : Nat) where
  /-- The directory that relative paths are read from. -/
  directory : Location
  processId : Nat
  target : Fin count -> Path
  content : Fin count -> ByteArray

namespace Writers

variable {count : Nat}

/-! ## The steps of the calls -/

/-- How far a call has come. -/
inductive Stage where
  | waiting
  /-- It has taken a ticket. -/
  | named (ticket : Nat)
  /-- It has made its temporary file, and written a part of the content. -/
  | filling (ticket : Nat) (location : Location) (written : ByteArray)
  /-- The temporary file could not be given the name of the target, and is to be removed. -/
  | refused (ticket : Nat) (location : Location) (cause : Cause)
  /-- It has returned, and its temporary file is gone. -/
  | ended (result : Except Cause Unit)
  /-- It has returned the cause, and the temporary file could not be removed. -/
  | abandoned (ticket : Nat) (location : Location) (cause : Cause)

namespace Stage

/-- The ticket of a call, as long as its temporary name matters. -/
def ticket? : Stage -> Option Nat
  | named ticket | filling ticket _ _ | refused ticket _ _ | abandoned ticket _ _ => some ticket
  | waiting | ended _ => none

/-- Whether a call has taken a ticket. -/
def hasBegun : Stage -> Bool
  | waiting => false
  | _ => true

/-- What a call has returned, once it has. -/
def result? : Stage -> Option (Except Cause Unit)
  | ended result => some result
  | abandoned _ _ cause => some (.error cause)
  | _ => none

/-- Whether a call that writes `content` has a temporary file at a location, and what it holds. -/
inductive Holds (content : ByteArray) : Stage -> Nat -> Location -> ByteArray -> Prop
  | filling (ticket : Nat) (location : Location) (written : ByteArray) :
      Holds content (.filling ticket location written) ticket location written
  | refused (ticket : Nat) (location : Location) (cause : Cause) :
      Holds content (.refused ticket location cause) ticket location content
  | abandoned (ticket : Nat) (location : Location) (cause : Cause) :
      Holds content (.abandoned ticket location cause) ticket location content

theorem Holds.ticket?_eq {content written : ByteArray} {stage : Stage} {ticket : Nat}
    {location : Location} (holds : stage.Holds content ticket location written) :
    stage.ticket? = some ticket := by
  cases holds <;> rfl

/-- A call that has returned and still has a temporary file could not remove it. -/
theorem Holds.abandoned_of_result?_eq {content written : ByteArray} {stage : Stage} {ticket : Nat}
    {location : Location} {result : Except Cause Unit}
    (holds : stage.Holds content ticket location written) (returned : stage.result? = some result) :
    ∃ cause, stage = .abandoned ticket location cause := by
  cases holds with
  | filling => cases returned
  | refused => cases returned
  | abandoned _ _ cause => exact ⟨cause, rfl⟩

end Stage

/-- The tree, the counter of tickets, and how far each call has come. -/
structure State (count : Nat) where
  tree : Tree
  ticket : Nat
  stage : Fin count -> Stage

/-- The state after a call has come to a stage and left a tree. -/
def State.advance (state : State count) (call : Fin count) (stage : Stage) (tree : Tree) :
    State count :=
  { state with tree, stage := Function.update state.stage call stage }

@[simp] theorem State.tree_advance (state : State count) (call : Fin count) (stage : Stage)
    (tree : Tree) : (state.advance call stage tree).tree = tree :=
  rfl

@[simp] theorem State.stage_advance (state : State count) (call : Fin count) (stage : Stage)
    (tree : Tree) : (state.advance call stage tree).stage call = stage := by
  unfold State.advance
  exact Function.update_self ..

/-- The other calls are where they were. -/
theorem State.stage_advance_of_ne {state : State count} {call other : Fin count} {stage : Stage}
    {tree : Tree} (apart : other ≠ call) :
    (state.advance call stage tree).stage other = state.stage other := by
  unfold State.advance
  exact Function.update_of_ne apart ..

/-- The path of the temporary file of a call. -/
def temporaryPath (writers : Writers count) (call : Fin count) (ticket : Nat) : Path :=
  Host.temporaryPath (writers.target call) writers.processId ticket

/-- The name of the temporary file of a call. -/
def temporaryName (writers : Writers count) (call : Fin count) (ticket : Nat) : String :=
  Host.temporaryName ((writers.target call).fileName?.getD "file") writers.processId ticket

/-- One step of a call. A temporary file may fail to be made, and to be given the name of the
target, at any time and for any cause. -/
inductive Step (writers : Writers count) (call : Fin count) (state : State count) :
    State count -> Prop
  | take (waits : state.stage call = .waiting) :
      Step writers call state ⟨state.tree, state.ticket + 1,
        Function.update state.stage call (.named state.ticket)⟩
  | make {ticket : Nat} {location : Location} {tree : Tree} {changes : List Change}
      (named : state.stage call = .named ticket)
      (makes : state.tree.createFile writers.directory (writers.temporaryPath call ticket) =
        .ok (tree, location, changes)) :
      Step writers call state
        (state.advance call (.filling ticket location ByteArray.empty) tree)
  | failToMake {ticket : Nat} (named : state.stage call = .named ticket) (cause : Cause) :
      Step writers call state (state.advance call (.ended (.error cause)) state.tree)
  | write {ticket : Nat} {location : Location} {written piece rest : ByteArray}
      (fills : state.stage call = .filling ticket location written)
      (isPart : writers.content call = written ++ piece ++ rest) :
      Step writers call state (state.advance call (.filling ticket location (written ++ piece))
        (state.tree.append location piece).1)
  | rename {ticket : Nat} {location : Location} {tree : Tree} {changes : List Change}
      (filled : state.stage call = .filling ticket location (writers.content call))
      (renames : state.tree.rename writers.directory (writers.temporaryPath call ticket)
        (writers.target call) = .ok (tree, changes)) :
      Step writers call state (state.advance call (.ended (.ok ())) tree)
  | failToRename {ticket : Nat} {location : Location}
      (filled : state.stage call = .filling ticket location (writers.content call))
      (cause : Cause) :
      Step writers call state (state.advance call (.refused ticket location cause) state.tree)
  | remove {ticket : Nat} {location : Location} {cause : Cause} {tree : Tree}
      {changes : List Change} (refused : state.stage call = .refused ticket location cause)
      (removes : state.tree.removeFile writers.directory (writers.temporaryPath call ticket) =
        .ok (tree, changes)) :
      Step writers call state (state.advance call (.ended (.error cause)) tree)
  | abandon {ticket : Nat} {location : Location} {cause reason : Cause}
      (refused : state.stage call = .refused ticket location cause)
      (remains : state.tree.removeFile writers.directory (writers.temporaryPath call ticket) =
        .error reason) :
      Step writers call state (state.advance call (.abandoned ticket location cause) state.tree)

/-- Whether a state is reached from another one by steps of the calls, in any order. -/
def Reaches (writers : Writers count) : State count -> State count -> Prop :=
  Relation.ReflTransGen fun state state' => ∃ call, writers.Step call state state'

/-- What the calls start from: every target has a visible name, and no entry bears a temporary
name that a call can take. -/
structure CanStart (writers : Writers count) (initial : State count) : Prop where
  waits : ∀ call, initial.stage call = .waiting
  visible : ∀ call name, (writers.target call).fileName? = some name -> isHiddenName name = false
  free : ∀ call ticket, initial.ticket ≤ ticket -> ticket < initial.ticket + count -> ∀ outer,
    initial.tree.lookup (outer ++ [writers.temporaryName call ticket]) = none

variable {writers : Writers count} {initial state state' : State count} {call call' : Fin count}

/-- A step of one call leaves the others where they were. -/
theorem Step.stage_of_ne (step : writers.Step call state state') (other : call' ≠ call) :
    state'.stage call' = state.stage call' := by
  cases step <;> exact Function.update_of_ne other _ _

/-- The temporary files of all calls are hidden. -/
theorem isHidden_temporary (outer : Location) (call : Fin count) (ticket : Nat) :
    Tree.IsHidden (outer ++ [writers.temporaryName call ticket]) :=
  ⟨outer, _, rfl, isHiddenName_temporaryName _ _ _⟩

/-- A temporary path leads into a directory by the temporary name. -/
theorem exists_legs (writers : Writers count) (call : Fin count) (ticket : Nat) :
    ∃ front, (writers.temporaryPath call ticket).legs =
      front ++ [.down (writers.temporaryName call ticket)] :=
  Host.exists_legs_temporaryPath (writers.target call) writers.processId ticket

/-! ## Tickets -/

/-- How many calls have taken a ticket, and which. -/
structure Numbered (initial state : State count) : Prop where
  counted : state.ticket = initial.ticket +
    (Finset.univ.filter fun call => (state.stage call).hasBegun = true).card
  range : ∀ {call ticket}, (state.stage call).ticket? = some ticket ->
    initial.ticket ≤ ticket ∧ ticket < state.ticket
  distinct : ∀ {call call' ticket}, (state.stage call).ticket? = some ticket ->
    (state.stage call').ticket? = some ticket -> call = call'

/-- At the start no ticket was drawn. -/
theorem Numbered.start (start : writers.CanStart initial) : Numbered initial initial := by
  have none_ (call : Fin count) : (initial.stage call).ticket? = none := by
    rw [start.waits call]
    rfl
  refine ⟨?_, fun found => ?_, fun found _ => ?_⟩
  · have empty : (Finset.univ.filter fun call => (initial.stage call).hasBegun = true) = ∅ :=
      Finset.filter_eq_empty_iff.2 fun call _ => by
        rw [start.waits call]
        decide
    rw [empty, Finset.card_empty, Nat.add_zero]
  · rw [none_] at found
    cases found
  · rw [none_] at found
    cases found

/-- A call that goes on keeps its ticket, or has no use for it any more. -/
theorem Numbered.advance (numbered : Numbered initial state) {stage : Stage} (tree : Tree)
    (begun : (state.stage call).hasBegun = true) (begun' : stage.hasBegun = true)
    (same : ∀ ticket, stage.ticket? = some ticket ->
      (state.stage call).ticket? = some ticket) :
    Numbered initial (state.advance call stage tree) := by
  have before {other : Fin count} {ticket : Nat}
      (found : ((state.advance call stage tree).stage other).ticket? = some ticket) :
      (state.stage other).ticket? = some ticket := by
    by_cases here : other = call
    · subst here
      rw [State.stage_advance] at found
      exact same ticket found
    · rwa [State.stage_advance_of_ne here] at found
  refine ⟨?_, fun found => numbered.range (before found),
    fun found found' => numbered.distinct (before found) (before found')⟩
  have kept : (Finset.univ.filter fun other =>
      ((state.advance call stage tree).stage other).hasBegun = true) =
        Finset.univ.filter fun other => (state.stage other).hasBegun = true := by
    apply Finset.filter_congr
    intro other _
    by_cases here : other = call
    · subst here
      rw [State.stage_advance, begun, begun']
    · rw [State.stage_advance_of_ne here]
  rw [kept]
  exact numbered.counted

/-- A call that begins takes a ticket that no call has taken. -/
theorem Numbered.take (numbered : Numbered initial state)
    (waits : state.stage call = .waiting) :
    Numbered initial ⟨state.tree, state.ticket + 1,
      Function.update state.stage call (.named state.ticket)⟩ := by
  -- A ticket is the new one, which no call had, or one that was there before.
  have cases_ {other : Fin count} {ticket : Nat}
      (found : (Function.update state.stage call (.named state.ticket) other).ticket? =
        some ticket) :
      (other = call ∧ ticket = state.ticket) ∨
        (other ≠ call ∧ (state.stage other).ticket? = some ticket) := by
    by_cases here : other = call
    · subst here
      rw [Function.update_self] at found
      exact .inl ⟨rfl, (Option.some.inj found).symm⟩
    · rw [Function.update_of_ne here] at found
      exact .inr ⟨here, found⟩
  have counted := numbered.counted
  constructor
  · have more : (Finset.univ.filter fun other =>
        (Function.update state.stage call (.named state.ticket) other).hasBegun = true) =
          insert call (Finset.univ.filter fun other => (state.stage other).hasBegun = true) := by
      ext other
      rw [Finset.mem_insert, Finset.mem_filter, Finset.mem_filter]
      by_cases here : other = call
      · subst here
        rw [Function.update_self]
        exact iff_of_true ⟨Finset.mem_univ _, rfl⟩ (.inl rfl)
      · rw [Function.update_of_ne here]
        exact (or_iff_right here).symm
    have notYet : call ∉ Finset.univ.filter fun other => (state.stage other).hasBegun = true := by
      rw [Finset.mem_filter, waits]
      rintro ⟨-, begun⟩
      cases begun
    rw [more, Finset.card_insert_of_notMem notYet]
    dsimp only
    omega
  · intro other ticket found
    dsimp only at found ⊢
    rcases cases_ found with ⟨-, rfl⟩ | ⟨-, found⟩
    · omega
    · have range := numbered.range found
      omega
  · intro other other' ticket found found'
    rcases cases_ found with ⟨here, new⟩ | ⟨-, old⟩
    · rcases cases_ found' with ⟨here', -⟩ | ⟨-, old'⟩
      · exact here.trans here'.symm
      · exact absurd (numbered.range old').2 (by omega)
    · rcases cases_ found' with ⟨-, new'⟩ | ⟨-, old'⟩
      · exact absurd (numbered.range old).2 (by omega)
      · exact numbered.distinct old old'

/-- A step leaves the tickets in order. -/
theorem Numbered.step (numbered : Numbered initial state)
    (step : writers.Step call state state') : Numbered initial state' := by
  have goesOn {stage stage' : Stage} (tree : Tree) (was : state.stage call = stage)
      (begun : stage.hasBegun = true) (begun' : stage'.hasBegun = true)
      (same : ∀ ticket, stage'.ticket? = some ticket -> stage.ticket? = some ticket) :
      Numbered initial (state.advance call stage' tree) :=
    numbered.advance tree (was ▸ begun) begun' (was ▸ same)
  cases step with
  | take waits => exact numbered.take waits
  | make named _ => exact goesOn _ named rfl rfl fun _ found => found
  | failToMake named _ => exact goesOn _ named rfl rfl fun _ found => by cases found
  | write fills _ => exact goesOn _ fills rfl rfl fun _ found => found
  | rename filled _ => exact goesOn _ filled rfl rfl fun _ found => by cases found
  | failToRename filled _ => exact goesOn _ filled rfl rfl fun _ found => found
  | remove refused _ => exact goesOn _ refused rfl rfl fun _ found => by cases found
  | abandon refused _ => exact goesOn _ refused rfl rfl fun _ found => found

/-- Before the calls, no entry bore the temporary name of a call that has a ticket. -/
theorem Numbered.free (numbered : Numbered initial state) (start : writers.CanStart initial)
    {ticket : Nat} (taken : (state.stage call).ticket? = some ticket) (outer : Location) :
    initial.tree.lookup (outer ++ [writers.temporaryName call ticket]) = none := by
  obtain ⟨least, less⟩ := numbered.range taken
  have most := Finset.card_le_univ
    (Finset.univ.filter fun call => (state.stage call).hasBegun = true)
  rw [Fintype.card_fin] at most
  have counted := numbered.counted
  exact start.free call ticket least (by omega) outer

/-! ## Temporary files and targets -/

/-- Whether a call has succeeded, and what it wrote lies at its target. -/
structure IsDone (writers : Writers count) (initial state : State count) (call : Fin count)
    (location : Location) : Prop where
  ended : state.stage call = .ended (.ok ())
  target : initial.tree.IsNamedBy writers.directory (writers.target call) location
  lies : state.tree.lookup location = some (.file (writers.content call) false)

/-- What lies in the tree while the calls run: everything is what it was before, or the temporary
file of a call, or what a call wrote as a whole. -/
structure Safe (writers : Writers count) (initial state : State count) : Prop where
  ground : state.tree.IsGroundOf initial.tree
  directories : ∀ {location}, initial.tree.lookup location = some .directory ->
    state.tree.lookup location = some .directory
  held : ∀ {call ticket location written},
    (state.stage call).Holds (writers.content call) ticket location written ->
      ∃ outer, initial.tree.LeadsInto writers.directory (writers.temporaryPath call ticket) outer
          (writers.temporaryName call ticket) ∧
        location = outer ++ [writers.temporaryName call ticket] ∧
        state.tree.lookup location = some (.file written false)
  settled : ∀ location, state.tree.lookup location = initial.tree.lookup location ∨
    (∃ call ticket written,
      (state.stage call).Holds (writers.content call) ticket location written) ∨
    ∃ call, writers.IsDone initial state call location
  succeeded : ∀ {call}, state.stage call = .ended (.ok ()) -> ∃ location call',
    initial.tree.IsNamedBy writers.directory (writers.target call) location ∧
      writers.IsDone initial state call' location

/-- The tree is safe at the start. -/
theorem Safe.start (start : writers.CanStart initial) : writers.Safe initial initial where
  ground found _ := found
  directories found := found
  held holds := by
    rw [start.waits] at holds
    cases holds
  settled _ := .inl rfl
  succeeded ended := by
    rw [start.waits] at ended
    cases ended

/-- No call has a hidden file for its target. -/
theorem CanStart.not_isHidden (start : writers.CanStart initial) {tree : Tree}
    {location : Location}
    (target : tree.IsNamedBy writers.directory (writers.target call) location) :
    ¬Tree.IsHidden location :=
  target.not_isHidden (start.visible call)

/-- No target is the temporary file of a call. -/
theorem CanStart.target_ne (start : writers.CanStart initial) {tree : Tree} {location : Location}
    (target : tree.IsNamedBy writers.directory (writers.target call) location) (outer : Location)
    (call' : Fin count) (ticket : Nat) :
    location ≠ outer ++ [writers.temporaryName call' ticket] := by
  rintro rfl
  exact start.not_isHidden target (isHidden_temporary outer call' ticket)

/-- Before a call makes its temporary file, no entry bears the name. -/
theorem Safe.free (safe : writers.Safe initial state) (numbered : Numbered initial state)
    (start : writers.CanStart initial) {ticket : Nat} (named : state.stage call = .named ticket)
    (outer : Location) : state.tree.lookup (outer ++ [writers.temporaryName call ticket]) = none := by
  have taken : (state.stage call).ticket? = some ticket := by rw [named]; rfl
  rcases safe.settled (outer ++ [writers.temporaryName call ticket]) with
    same | ⟨call', ticket', written, holds⟩ | ⟨call', done⟩
  · rw [same, numbered.free start taken outer]
  · obtain ⟨outer', -, shape, -⟩ := safe.held holds
    have names : writers.temporaryName call ticket = writers.temporaryName call' ticket' :=
      (List.append_singleton_inj.1 shape).2
    obtain rfl := ticket_of_temporaryName names
    obtain rfl := numbered.distinct taken holds.ticket?_eq
    rw [named] at holds
    cases holds
  · exact absurd rfl (start.target_ne done.target outer call ticket)

/-- The temporary files of two calls are not the same. -/
theorem Safe.apart (safe : writers.Safe initial state) (numbered : Numbered initial state)
    {ticket ticket' : Nat} {location outer : Location} {written : ByteArray}
    (taken : (state.stage call).ticket? = some ticket)
    (holds : (state.stage call').Holds (writers.content call') ticket' location written)
    (other : call' ≠ call) : location ≠ outer ++ [writers.temporaryName call ticket] := by
  rintro rfl
  obtain ⟨outer', -, shape, -⟩ := safe.held holds
  have names : writers.temporaryName call ticket = writers.temporaryName call' ticket' :=
    (List.append_singleton_inj.1 shape).2
  obtain rfl := ticket_of_temporaryName names
  exact other (numbered.distinct holds.ticket?_eq taken)

/-! ## What a step changes -/

/-- What a step of a call does to the tree. Besides the temporary file of the call, only its target
can change, and then the call has ended. -/
inductive Effect (writers : Writers count) (initial : State count) (call : Fin count)
    (state state' : State count) : Prop
  | idle (tree_eq : state'.tree = state.tree)
      (holds : ∀ ticket location written,
        (state'.stage call).Holds (writers.content call) ticket location written ↔
          (state.stage call).Holds (writers.content call) ticket location written)
      (unfinished : state'.stage call ≠ .ended (.ok ()))
  | fill {ticket : Nat} {outer : Location} {written : ByteArray}
      (taken : (state.stage call).ticket? = some ticket)
      (leads : initial.tree.LeadsInto writers.directory (writers.temporaryPath call ticket) outer
        (writers.temporaryName call ticket))
      (was : ∀ {ticket' location written'},
        (state.stage call).Holds (writers.content call) ticket' location written' ->
          location = outer ++ [writers.temporaryName call ticket])
      (stage_eq : state'.stage call =
        .filling ticket (outer ++ [writers.temporaryName call ticket]) written)
      (lookup_eq : ∀ other, state'.tree.lookup other =
        if other = outer ++ [writers.temporaryName call ticket] then some (.file written false)
        else state.tree.lookup other)
  | remove {ticket : Nat} {outer : Location} {cause : Cause}
      (taken : (state.stage call).ticket? = some ticket)
      (was : ∀ {ticket' location written'},
        (state.stage call).Holds (writers.content call) ticket' location written' ->
          location = outer ++ [writers.temporaryName call ticket])
      (stage_eq : state'.stage call = .ended (.error cause))
      (lookup_eq : ∀ other, state'.tree.lookup other =
        if other = outer ++ [writers.temporaryName call ticket] then none
        else state.tree.lookup other)
  | rename {ticket : Nat} {outer goal : Location}
      (taken : (state.stage call).ticket? = some ticket)
      (was : ∀ {ticket' location written'},
        (state.stage call).Holds (writers.content call) ticket' location written' ->
          location = outer ++ [writers.temporaryName call ticket])
      (target : initial.tree.IsNamedBy writers.directory (writers.target call) goal)
      (solid : state.tree.lookup goal ≠ some .directory)
      (stage_eq : state'.stage call = .ended (.ok ()))
      (lookup_eq : ∀ other, state'.tree.lookup other =
        if other = goal then some (.file (writers.content call) false)
        else if other = outer ++ [writers.temporaryName call ticket] then none
        else state.tree.lookup other)

/-- A call that takes a step has not succeeded yet. -/
theorem Step.unfinished (step : writers.Step call state state') :
    state.stage call ≠ .ended (.ok ()) := by
  intro ended
  have differs {stage : Stage} (was : state.stage call = stage) : stage = .ended (.ok ()) :=
    was.symm.trans ended
  cases step with
  | take waits => cases differs waits
  | make named _ => cases differs named
  | failToMake named _ => cases differs named
  | write fills _ => cases differs fills
  | rename filled _ => cases differs filled
  | failToRename filled _ => cases differs filled
  | remove refused _ => cases differs refused
  | abandon refused _ => cases differs refused

/-- The temporary path of a call leads to its temporary file, and to nothing else. -/
theorem Safe.leadsInto (safe : writers.Safe initial state) {ticket : Nat} {outer outer' : Location}
    {name : String}
    (leads : initial.tree.LeadsInto writers.directory (writers.temporaryPath call ticket) outer name)
    (leads' : state.tree.LeadsInto writers.directory (writers.temporaryPath call ticket) outer'
      name) : outer' = outer :=
  ((leads'.of_ground safe.ground).unique leads).1

/-- Every step has one of the effects on the tree. -/
theorem Step.effect (step : writers.Step call state state') (start : writers.CanStart initial)
    (numbered : Numbered initial state) (safe : writers.Safe initial state) :
    writers.Effect initial call state state' := by
  -- A step that leaves the tree is idle; of the others, each is inverted to the call that it makes.
  cases step with
  | take waits =>
    have named : Function.update state.stage call (.named state.ticket) call =
        .named state.ticket := Function.update_self ..
    refine .idle rfl (fun _ _ _ => ?_) ?_
    · dsimp only
      rw [waits, named]
      exact iff_of_false (by rintro ⟨⟩) (by rintro ⟨⟩)
    · dsimp only
      rw [named]
      rintro ⟨⟩
  | @make ticket location tree changes named makes =>
    obtain ⟨front, legs⟩ := writers.exists_legs call ticket
    obtain ⟨outer, leads, rfl, rfl⟩ := Tree.createFile_inversion legs
      (fun outer _ => safe.free numbered start named outer) makes
    refine .fill (by rw [named]; rfl) (leads.of_ground safe.ground) ?_ (State.stage_advance ..)
      fun other => Tree.lookup_set _ other (by simp)
    intro _ _ _ holds
    rw [named] at holds
    cases holds
  | failToMake named cause =>
    refine .idle rfl (fun _ _ _ => ?_) ?_
    · rw [State.stage_advance, named]
      exact iff_of_false (by rintro ⟨⟩) (by rintro ⟨⟩)
    · rw [State.stage_advance]
      rintro ⟨⟩
  | @write ticket location written piece rest fills isPart =>
    have holds := @Stage.Holds.filling (writers.content call) ticket location written
    rw [← fills] at holds
    obtain ⟨outer, leads, rfl, lies⟩ := safe.held holds
    refine .fill holds.ticket?_eq leads ?_ (State.stage_advance ..)
      fun other => Tree.lookup_append (by simp) lies piece other
    intro _ _ _ holds
    rw [fills] at holds
    cases holds
    rfl
  | @rename ticket location tree changes filled renames =>
    have holds := @Stage.Holds.filling (writers.content call) ticket location
      (writers.content call)
    rw [← filled] at holds
    obtain ⟨outer, leads, rfl, lies⟩ := safe.held holds
    obtain ⟨front, legs⟩ := writers.exists_legs call ticket
    obtain ⟨outer', holder, last, leads', -, target, moved⟩ := Tree.rename_inversion legs
      (fun _ leads' => safe.leadsInto leads leads' ▸ lies) renames
    obtain rfl := safe.leadsInto leads leads'
    have target' := target.of_ground safe.ground
    obtain ⟨solid, rfl⟩ := Tree.moveEntry_file
      (Ne.symm (start.target_ne target' outer' call ticket)) moved
    refine @Effect.rename _ _ _ _ _ _ ticket outer' (holder ++ [last]) holds.ticket?_eq ?_
      target' solid (State.stage_advance ..) fun other => ?_
    · intro _ _ _ holds
      rw [filled] at holds
      cases holds
      rfl
    · rw [State.tree_advance, Tree.lookup_set _ _ target.ne_nil, Tree.lookup_erase _ (by simp)]
  | @failToRename ticket location filled cause =>
    refine .idle rfl (fun _ _ _ => ?_) ?_
    · rw [State.stage_advance, filled]
      constructor
      · rintro ⟨⟩
        exact .filling ..
      · rintro ⟨⟩
        exact .refused ..
    · rw [State.stage_advance]
      rintro ⟨⟩
  | @remove ticket location cause tree changes refused removes =>
    have holds := @Stage.Holds.refused (writers.content call) ticket location cause
    rw [← refused] at holds
    obtain ⟨outer, leads, rfl, lies⟩ := safe.held holds
    obtain ⟨front, legs⟩ := writers.exists_legs call ticket
    obtain ⟨outer', leads'⟩ := Tree.exists_leadsInto_of_removeFile legs removes
    obtain rfl := safe.leadsInto leads leads'
    obtain ⟨changes', removes'⟩ := leads'.removeFile lies
    obtain ⟨rfl, -⟩ := Prod.mk.inj (Except.ok.inj (removes.symm.trans removes'))
    refine .remove holds.ticket?_eq ?_ (State.stage_advance ..) fun other =>
      Tree.lookup_erase other (by simp)
    intro _ _ _ holds
    rw [refused] at holds
    cases holds
    rfl
  | @abandon ticket location cause reason refused remains =>
    refine .idle rfl (fun _ _ _ => ?_) ?_
    · rw [State.stage_advance, refused]
      constructor
      · rintro ⟨⟩
        exact .refused ..
      · rintro ⟨⟩
        exact .abandoned ..
    · rw [State.stage_advance]
      rintro ⟨⟩

end Writers
end Relink
