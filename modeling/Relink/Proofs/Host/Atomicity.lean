import Relink.Proofs.Host.Writers

/-!
# Writes are atomic

Whatever the order of the steps of calls that replace files at the same time, a target is always
what it was before, or what one call wrote as a whole, and a call never meets the temporary file of
another one. A call that no other one disturbs does what `Host.writeWhole` does.
-/

namespace Relink.Writers

variable {count : Nat} {writers : Writers count} {initial state state' : State count}
  {call call' : Fin count}

/-! ## What the calls keep -/

/-- What a call has written as a whole stays where no other call has written. -/
theorem IsDone.keep {location : Location} (done : writers.IsDone initial state call' location)
    (unfinished : state.stage call ≠ .ended (.ok ()))
    (others : ∀ other, other ≠ call -> state'.stage other = state.stage other)
    (same : state'.tree.lookup location = state.tree.lookup location) :
    writers.IsDone initial state' call' location where
  ended := by
    rw [others call' fun here => unfinished (here ▸ done.ended)]
    exact done.ended
  target := done.target
  lies := same.trans done.lies

/-- A step that changes nothing but the temporary file of its call keeps the tree safe. -/
theorem Safe.of_own (safe : writers.Safe initial state) (start : writers.CanStart initial)
    {isOwn : Location -> Prop} (unfinished : state.stage call ≠ .ended (.ok ()))
    (unfinished' : state'.stage call ≠ .ended (.ok ()))
    (others : ∀ other, other ≠ call -> state'.stage other = state.stage other)
    (same : ∀ location, ¬isOwn location ->
      state'.tree.lookup location = state.tree.lookup location)
    (new : ∀ location, isOwn location ->
      Tree.IsHidden location ∧ initial.tree.lookup location = none)
    (apart : ∀ {other ticket location written}, other ≠ call ->
      (state.stage other).Holds (writers.content other) ticket location written ->
        ¬isOwn location)
    (was : ∀ {ticket location written},
      (state.stage call).Holds (writers.content call) ticket location written ->
        isOwn location ∨ (state'.stage call).Holds (writers.content call) ticket location written)
    (held : ∀ {ticket location written},
      (state'.stage call).Holds (writers.content call) ticket location written ->
        ∃ outer, initial.tree.LeadsInto writers.directory (writers.temporaryPath call ticket) outer
            (writers.temporaryName call ticket) ∧
          location = outer ++ [writers.temporaryName call ticket] ∧
          state'.tree.lookup location = some (.file written false))
    (left : ∀ location, isOwn location -> state'.tree.lookup location = none ∨
      ∃ ticket written,
        (state'.stage call).Holds (writers.content call) ticket location written) :
    writers.Safe initial state' := by
  -- The call touches its own temporary file only, which is hidden, so that no target is among it.
  have keeps {call' : Fin count} {location : Location}
      (done : writers.IsDone initial state call' location) :
      writers.IsDone initial state' call' location :=
    done.keep unfinished others
      (same location fun isOwn => start.not_isHidden done.target (new location isOwn).1)
  constructor
  · intro location entry found solid
    by_cases own : isOwn location
    · rcases left location own with gone | ⟨ticket, written, holds⟩
      · rw [gone] at found
        cases found
      · obtain ⟨-, -, -, lies⟩ := held holds
        rw [lies] at found
        cases found
        cases solid
    · exact safe.ground (same location own ▸ found) solid
  · intro location found
    rw [same location fun own => by simp [(new location own).2] at found]
    exact safe.directories found
  · intro other ticket location written holds
    by_cases here : other = call
    · subst here
      exact held holds
    · rw [others other here] at holds
      rw [same location (apart here holds)]
      exact safe.held holds
  · intro location
    by_cases own : isOwn location
    · rcases left location own with gone | ⟨ticket, written, holds⟩
      · exact .inl (gone.trans (new location own).2.symm)
      · exact .inr (.inl ⟨call, ticket, written, holds⟩)
    · rw [same location own]
      rcases safe.settled location with before | ⟨other, ticket, written, holds⟩ | ⟨other, done⟩
      · exact .inl before
      · by_cases here : other = call
        · subst here
          exact .inr (.inl ⟨_, ticket, written, (was holds).resolve_left own⟩)
        · exact .inr (.inl ⟨other, ticket, written, by rwa [others other here]⟩)
      · exact .inr (.inr ⟨other, keeps done⟩)
  · intro other ended
    rw [others other fun here => unfinished' (here ▸ ended)] at ended
    obtain ⟨location, call', target, done⟩ := safe.succeeded ended
    exact ⟨location, call', target, keeps done⟩

/-- A call that gives its temporary file the name of its target has written the target. -/
theorem Safe.of_rename (safe : writers.Safe initial state) (numbered : Numbered initial state)
    (start : writers.CanStart initial) {ticket : Nat} {outer goal : Location}
    (unfinished : state.stage call ≠ .ended (.ok ()))
    (others : ∀ other, other ≠ call -> state'.stage other = state.stage other)
    (taken : (state.stage call).ticket? = some ticket)
    (was : ∀ {ticket' location written'},
      (state.stage call).Holds (writers.content call) ticket' location written' ->
        location = outer ++ [writers.temporaryName call ticket])
    (target : initial.tree.IsNamedBy writers.directory (writers.target call) goal)
    (solid : state.tree.lookup goal ≠ some .directory)
    (ended : state'.stage call = .ended (.ok ()))
    (lookup_eq : ∀ other, state'.tree.lookup other =
      if other = goal then some (.file (writers.content call) false)
      else if other = outer ++ [writers.temporaryName call ticket] then none
      else state.tree.lookup other) : writers.Safe initial state' := by
  have free := numbered.free start taken outer
  have same {location : Location} (notGoal : location ≠ goal)
      (notOwn : location ≠ outer ++ [writers.temporaryName call ticket]) :
      state'.tree.lookup location = state.tree.lookup location := by
    rw [lookup_eq, if_neg notGoal, if_neg notOwn]
  have written : writers.IsDone initial state' call goal :=
    ⟨ended, target, by rw [lookup_eq, if_pos rfl]⟩
  have keeps {call' : Fin count} {location : Location}
      (done : writers.IsDone initial state call' location) (notGoal : location ≠ goal) :
      writers.IsDone initial state' call' location :=
    done.keep unfinished others
      (same notGoal (start.target_ne done.target outer call ticket))
  constructor
  · intro location entry found isSolid
    rw [lookup_eq] at found
    split at found
    · cases found
      cases isSolid
    · split at found
      · cases found
      · exact safe.ground found isSolid
  · intro location found
    rw [same]
    · exact safe.directories found
    · rintro rfl
      exact solid (safe.directories found)
    · rintro rfl
      rw [free] at found
      cases found
  · intro other ticket' location written' holds
    have apart : other ≠ call := by
      rintro rfl
      rw [ended] at holds
      cases holds
    rw [others other apart] at holds
    obtain ⟨outer', leads, shape, lies⟩ := safe.held holds
    refine ⟨outer', leads, shape, ?_⟩
    rw [same _ (safe.apart numbered taken holds apart), lies]
    rw [shape]
    exact Ne.symm (start.target_ne target outer' other ticket')
  · intro location
    by_cases here : location = goal
    · exact .inr (.inr ⟨call, here ▸ written⟩)
    · by_cases own : location = outer ++ [writers.temporaryName call ticket]
      · refine .inl ?_
        rw [lookup_eq, if_neg here, if_pos own, own, free]
      · rw [same here own]
        rcases safe.settled location with before | ⟨other, ticket', written', holds⟩ | ⟨other, done⟩
        · exact .inl before
        · have apart : other ≠ call := by
            rintro rfl
            exact own (was holds)
          exact .inr (.inl ⟨other, ticket', written', by rwa [others other apart]⟩)
        · exact .inr (.inr ⟨other, keeps done here⟩)
  · intro other ended'
    by_cases here : other = call
    · exact ⟨goal, call, here ▸ target, written⟩
    · rw [others other here] at ended'
      obtain ⟨location, call', target', done⟩ := safe.succeeded ended'
      by_cases atGoal : location = goal
      · exact ⟨goal, call, atGoal ▸ target', written⟩
      · exact ⟨location, call', target', keeps done atGoal⟩

theorem Safe.step (safe : writers.Safe initial state) (numbered : Numbered initial state)
    (start : writers.CanStart initial) (step : writers.Step call state state') :
    writers.Safe initial state' := by
  have others := fun other => @Step.stage_of_ne _ _ _ _ call other step
  have unfinished := step.unfinished
  -- One case for each effect. All but the last keep to the call's own temporary file.
  cases step.effect start numbered safe with
  | idle tree_eq holds_iff unfinished' =>
    refine @Safe.of_own _ _ _ _ _ _ safe start (fun _ => False) unfinished unfinished' others
      (fun _ _ => by rw [tree_eq]) (fun _ => False.elim) (fun _ _ => id)
      (fun holds => .inr ((holds_iff _ _ _).2 holds)) (fun holds => ?_) (fun _ => False.elim)
    rw [tree_eq]
    exact safe.held ((holds_iff _ _ _).1 holds)
  | @fill ticket outer written taken leads was stage_eq lookup_eq =>
    refine @Safe.of_own _ _ _ _ _ _ safe start
      (· = outer ++ [writers.temporaryName call ticket]) unfinished (by rw [stage_eq]; rintro ⟨⟩)
      others (fun location other => by rw [lookup_eq, if_neg other]) ?_
      (fun other holds => safe.apart numbered taken holds other) (fun holds => .inl (was holds))
      (fun holds => ?_) ?_
    · rintro _ rfl
      exact ⟨isHidden_temporary outer call ticket, numbered.free start taken outer⟩
    · rw [stage_eq] at holds
      cases holds
      exact ⟨outer, leads, rfl, by rw [lookup_eq, if_pos rfl]⟩
    · rintro _ rfl
      exact .inr ⟨ticket, written, by rw [stage_eq]; exact .filling ..⟩
  | @remove ticket outer cause taken was stage_eq lookup_eq =>
    refine @Safe.of_own _ _ _ _ _ _ safe start
      (· = outer ++ [writers.temporaryName call ticket]) unfinished (by rw [stage_eq]; rintro ⟨⟩)
      others (fun location other => by rw [lookup_eq, if_neg other]) ?_
      (fun other holds => safe.apart numbered taken holds other) (fun holds => .inl (was holds))
      (fun holds => ?_) ?_
    · rintro _ rfl
      exact ⟨isHidden_temporary outer call ticket, numbered.free start taken outer⟩
    · rw [stage_eq] at holds
      cases holds
    · rintro _ rfl
      exact .inl (by rw [lookup_eq, if_pos rfl])
  | @rename ticket outer goal taken was target solid stage_eq lookup_eq =>
    exact safe.of_rename numbered start unfinished others taken was target solid stage_eq lookup_eq

/-- What holds at the start holds in every state that the calls reach. -/
theorem Reaches.safe (start : writers.CanStart initial)
    (reached : writers.Reaches initial state) :
    Numbered initial state ∧ writers.Safe initial state := by
  induction reached with
  | refl => exact ⟨.start start, .start start⟩
  | tail _ step ih =>
    obtain ⟨numbered, safe⟩ := ih
    obtain ⟨call, step⟩ := step
    exact ⟨numbered.step step, safe.step numbered start step⟩

/-! ## Other calls' temporary files, and those that are left -/

/-- No step of a call changes the temporary file of another one. -/
theorem Step.keeps_temporary (step : writers.Step call state state')
    (start : writers.CanStart initial) (numbered : Numbered initial state)
    (safe : writers.Safe initial state) (other : call' ≠ call) {ticket : Nat} {location : Location}
    {written : ByteArray}
    (holds : (state.stage call').Holds (writers.content call') ticket location written) :
    state'.tree.lookup location = state.tree.lookup location := by
  cases step.effect start numbered safe with
  | idle tree_eq _ _ => rw [tree_eq]
  | fill taken _ _ _ lookup_eq =>
    rw [lookup_eq, if_neg (safe.apart numbered taken holds other)]
  | remove taken _ _ lookup_eq =>
    rw [lookup_eq, if_neg (safe.apart numbered taken holds other)]
  | rename taken _ target _ _ lookup_eq =>
    obtain ⟨outer, -, shape, -⟩ := safe.held holds
    have notGoal := start.target_ne target outer call' ticket
    rw [lookup_eq, if_neg (shape ▸ Ne.symm notGoal), if_neg (safe.apart numbered taken holds other)]

/-- Every directory and link is still there, or a link was a target and has been replaced. -/
theorem Safe.ground_or_link (safe : writers.Safe initial state)
    (numbered : Numbered initial state) (start : writers.CanStart initial) :
    initial.tree.IsGroundOf state.tree ∨ ∃ call location target,
      state.stage call = .ended (.ok ()) ∧
        initial.tree.IsNamedBy writers.directory (writers.target call) location ∧
        initial.tree.lookup location = some (.link target) := by
  by_contra neither
  rw [not_or] at neither
  obtain ⟨lost, noLink⟩ := neither
  refine lost fun {location entry} found solid => ?_
  rcases safe.settled location with same | ⟨call, ticket, written, holds⟩ | ⟨call, done⟩
  · rw [same, found]
  · obtain ⟨outer, -, rfl, -⟩ := safe.held holds
    rw [numbered.free start holds.ticket?_eq outer] at found
    cases found
  · cases entry with
    | directory => exact safe.directories found
    | file content executable => cases solid
    | link target => exact absurd ⟨call, location, target, done.ended, done.target, found⟩ noLink

/-- A call leaves its temporary file only if the file cannot be removed. -/
theorem Step.remains (step : writers.Step call state state') {ticket : Nat} {location : Location}
    {cause : Cause} (abandoned : state'.stage call = .abandoned ticket location cause) :
    ∃ reason, state.stage call = .refused ticket location cause ∧
      state.tree.removeFile writers.directory (writers.temporaryPath call ticket) =
        .error reason := by
  cases step with
  | take _ =>
    have named : Function.update state.stage call (.named state.ticket) call =
        .named state.ticket := Function.update_self ..
    cases named.symm.trans abandoned
  | make _ _ => rw [State.stage_advance] at abandoned; cases abandoned
  | failToMake _ _ => rw [State.stage_advance] at abandoned; cases abandoned
  | write _ _ => rw [State.stage_advance] at abandoned; cases abandoned
  | rename _ _ => rw [State.stage_advance] at abandoned; cases abandoned
  | failToRename _ _ => rw [State.stage_advance] at abandoned; cases abandoned
  | remove _ _ => rw [State.stage_advance] at abandoned; cases abandoned
  | abandon refused remains =>
    rw [State.stage_advance] at abandoned
    cases abandoned
    exact ⟨_, refused, remains⟩

/-- A call leaves its temporary file only where another call has replaced a link. -/
theorem Reaches.abandoned (start : writers.CanStart initial)
    (reached : writers.Reaches initial state) {ticket : Nat} {location : Location} {cause : Cause}
    (abandoned : state.stage call = .abandoned ticket location cause) :
    ∃ call' link target, state.stage call' = .ended (.ok ()) ∧
      initial.tree.IsNamedBy writers.directory (writers.target call') link ∧
      initial.tree.lookup link = some (.link target) := by
  -- The last step is the one that gave up, or the call had given up before.
  induction reached generalizing ticket location cause with
  | refl =>
    rw [start.waits] at abandoned
    cases abandoned
  | @tail state state' earlier step ih =>
    obtain ⟨stepping, step⟩ := step
    obtain ⟨numbered, safe⟩ := Reaches.safe start earlier
    have stays {call' : Fin count} (ended : state.stage call' = .ended (.ok ())) :
        state'.stage call' = .ended (.ok ()) := by
      rw [step.stage_of_ne fun here => step.unfinished (here ▸ ended)]
      exact ended
    by_cases other : call = stepping
    · subst other
      obtain ⟨reason, refused, remains⟩ := step.remains abandoned
      rcases safe.ground_or_link numbered start with ground | ⟨call', link, target, ended, rest⟩
      · -- On the old ground the temporary path leads to the temporary file, which is removed.
        have holds := @Stage.Holds.refused (writers.content call) ticket location cause
        rw [← refused] at holds
        obtain ⟨outer, leads, rfl, lies⟩ := safe.held holds
        obtain ⟨changes, removes⟩ := (leads.of_ground ground).removeFile lies
        rw [removes] at remains
        cases remains
      · exact ⟨call', link, target, stays ended, rest⟩
    · rw [step.stage_of_ne other] at abandoned
      obtain ⟨call', link, target, ended, rest⟩ := ih abandoned
      exact ⟨call', link, target, stays ended, rest⟩

/-! ## Atomicity -/

/-- Whatever the calls do and in whichever order: a target is what it was before, or what one of
its calls wrote as a whole; no step touches the temporary file of another call; a target of a call
that succeeded is what a call that succeeded wrote; and once all calls have a result, no entry bears
a temporary name but the files that could not be removed, and one of those is left only where
another call has succeeded whose target was a link, which it has replaced. -/
theorem Reaches.atomic (start : writers.CanStart initial)
    (reached : writers.Reaches initial state) :
    (∀ call location, initial.tree.IsNamedBy writers.directory (writers.target call) location ->
      state.tree.lookup location = initial.tree.lookup location ∨
        ∃ call', initial.tree.IsNamedBy writers.directory (writers.target call') location ∧
          state.tree.lookup location = some (.file (writers.content call') false)) ∧
      (∀ call state', writers.Step call state state' -> ∀ call', call' ≠ call ->
        ∀ ticket location written,
          (state.stage call').Holds (writers.content call') ticket location written ->
          state'.tree.lookup location = state.tree.lookup location) ∧
      (∀ call, state.stage call = .ended (.ok ()) -> ∃ location call',
        initial.tree.IsNamedBy writers.directory (writers.target call) location ∧
          initial.tree.IsNamedBy writers.directory (writers.target call') location ∧
          state.stage call' = .ended (.ok ()) ∧
          state.tree.lookup location = some (.file (writers.content call') false)) ∧
      ((∀ call, ∃ result, (state.stage call).result? = some result) -> ∀ call ticket,
        initial.ticket ≤ ticket -> ticket < initial.ticket + count -> ∀ outer,
          state.tree.lookup (outer ++ [writers.temporaryName call ticket]) = none ∨
            ∃ owner cause, state.stage owner =
              .abandoned ticket (outer ++ [writers.temporaryName call ticket]) cause) ∧
      ∀ call ticket location cause, state.stage call = .abandoned ticket location cause ->
        ∃ call' link target, state.stage call' = .ended (.ok ()) ∧
          initial.tree.IsNamedBy writers.directory (writers.target call') link ∧
          initial.tree.lookup link = some (.link target) := by
  -- Everything is read off the invariant; only the calls that were left with a temporary file need
  -- the run once more.
  obtain ⟨numbered, safe⟩ := Reaches.safe start reached
  refine ⟨fun call location target => ?_, fun call state' step call' other ticket location written
    holds => step.keeps_temporary start numbered safe other holds, fun call ended => ?_,
    fun finished call ticket least less outer => ?_,
    fun call ticket location cause abandoned => Reaches.abandoned start reached abandoned⟩
  · rcases safe.settled location with same | ⟨call', ticket, written, holds⟩ | ⟨call', done⟩
    · exact .inl same
    · obtain ⟨outer, -, shape, -⟩ := safe.held holds
      exact absurd shape (start.target_ne target outer call' ticket)
    · exact .inr ⟨call', done.target, done.lies⟩
  · obtain ⟨location, call', target, done⟩ := safe.succeeded ended
    exact ⟨location, call', target, done.target, done.ended, done.lies⟩
  · rcases safe.settled (outer ++ [writers.temporaryName call ticket]) with
      same | ⟨owner, ticket', written, holds⟩ | ⟨call', done⟩
    · exact .inl (same.trans (start.free call ticket least less outer))
    · obtain ⟨result, hasResult⟩ := finished owner
      obtain ⟨cause, abandoned⟩ := holds.abandoned_of_result?_eq hasResult
      obtain ⟨outer', -, shape, -⟩ := safe.held holds
      have names : writers.temporaryName call ticket = writers.temporaryName owner ticket' :=
        (List.append_singleton_inj.1 shape).2
      obtain rfl := ticket_of_temporaryName names
      exact .inr ⟨owner, cause, abandoned⟩
    · exact absurd rfl (start.target_ne done.target outer call ticket)

/-- Calls can start where every target and every entry has a visible name. -/
theorem CanStart.of_visible (waits : ∀ call, initial.stage call = .waiting)
    (targets : ∀ call, (writers.target call).fileName?.any isHiddenName = false)
    (entries : ∀ location ∈ initial.tree.locations,
      location.getLast?.any isHiddenName = false) : writers.CanStart initial where
  waits := waits
  visible call name named := by
    have visible := targets call
    rwa [named, Option.any_some] at visible
  free call ticket _ _ outer := by
    rw [← Option.not_isSome_iff_eq_none, Option.isSome_iff_exists]
    rintro ⟨entry, found⟩
    have visible := entries _ (Tree.mem_of_lookup (by simp) found)
    rw [List.getLast?_concat, Option.any_some, temporaryName,
      isHiddenName_temporaryName] at visible
    cases visible

/-- A directory with a file, and with temporary files of given names. -/
def sharedTree (content : String) (temporary : List (String × String)) : Tree :=
  ⟨(["d"], .directory) :: (["d", "x"], .file content.toByteArray false) ::
    temporary.map fun (name, written) => (["d", name], .file written.toByteArray false)⟩

/-- Two calls that write the file, one the number one and one the number two. -/
def sharedWriters : Writers 2 where
  directory := ["d"]
  processId := 1
  target _ := ⟨"x"⟩
  content call := if call = 0 then "one".toByteArray else "two".toByteArray

/-- The two calls before they begin. -/
def sharedStart : State 2 :=
  ⟨sharedTree "old" [], 0, fun _ => .waiting⟩

theorem sharedWriters_canStart : sharedWriters.CanStart sharedStart :=
  .of_visible (fun _ => rfl) (by decide) (by decide)

/-- Both calls have their temporary files at the same time, and the second call is done first. -/
theorem sharedWriters_reaches : ∃ state, sharedWriters.Reaches sharedStart state ∧
    (∀ call, state.stage call = .ended (.ok ())) ∧ state.tree = sharedTree "one" [] := by
  have began : sharedWriters.Reaches sharedStart
      ⟨sharedTree "old" [], 2, Function.update (Function.update (fun _ => .waiting) 0 (.named 0)) 1
        (.named 1)⟩ := .tail (.tail .refl ⟨0, .take rfl⟩) ⟨1, .take rfl⟩
  have made := Relation.ReflTransGen.tail began ⟨0, @Step.make _ _ _ _ 0 ["d", ".x.tmp.1.0"]
    (sharedTree "old" [(".x.tmp.1.0", "")]) [.created ["d", ".x.tmp.1.0"] false] rfl
    (by decide)⟩
  have partly := Relation.ReflTransGen.tail made ⟨0, @Step.write _ _ _ _ _ _ _ "o".toByteArray
    "ne".toByteArray rfl (by decide)⟩
  have both := Relation.ReflTransGen.tail partly ⟨1, @Step.make _ _ _ _ 1 ["d", ".x.tmp.1.1"]
    (sharedTree "old" [(".x.tmp.1.0", "o"), (".x.tmp.1.1", "")])
    [.created ["d", ".x.tmp.1.1"] false] rfl (by decide)⟩
  have filled := Relation.ReflTransGen.tail both ⟨1, @Step.write _ _ _ _ _ _ _ "two".toByteArray
    ByteArray.empty rfl (by decide)⟩
  have second := Relation.ReflTransGen.tail filled ⟨1, @Step.rename _ _ _ _ 1 ["d", ".x.tmp.1.1"]
    (sharedTree "two" [(".x.tmp.1.0", "o")]) [.moved ["d", ".x.tmp.1.1"] ["d", "x"] false]
    (congrArg (Stage.filling 1 _) (by decide)) (by decide)⟩
  have wrote := Relation.ReflTransGen.tail second ⟨0, @Step.write _ _ _ _ _ _ _ "ne".toByteArray
    ByteArray.empty rfl (by decide)⟩
  have first := Relation.ReflTransGen.tail wrote ⟨0, @Step.rename _ _ _ _ 0 ["d", ".x.tmp.1.0"]
    (sharedTree "one" []) [.moved ["d", ".x.tmp.1.0"] ["d", "x"] false]
    (congrArg (Stage.filling 0 _) (by decide)) (by decide)⟩
  exact ⟨_, first, Fin.forall_fin_two.2 ⟨rfl, rfl⟩, rfl⟩

/-- The two calls leave the number that was written last, and no temporary file. -/
theorem sharedWriters_atomic : ∃ state, sharedWriters.Reaches sharedStart state ∧
    (∃ location call, state.tree.lookup location = some (.file (sharedWriters.content call) false)) ∧
    ∀ outer, state.tree.lookup (outer ++ [sharedWriters.temporaryName 0 0]) = none := by
  obtain ⟨state, reached, ended, -⟩ := sharedWriters_reaches
  obtain ⟨-, -, succeeded, cleared, -⟩ := Reaches.atomic sharedWriters_canStart reached
  obtain ⟨location, call, -, -, -, lies⟩ := succeeded 0 (ended 0)
  refine ⟨state, reached, ⟨location, call, lies⟩, fun outer => ?_⟩
  refine (cleared (fun call => ⟨_, congrArg Stage.result? (ended call)⟩) 0 0 (by decide) (by decide)
    outer).resolve_right ?_
  rintro ⟨owner, cause, abandoned⟩
  cases (ended owner).symm.trans abandoned

/-- A directory that a link leads to, and what the calls put there. -/
def crossedTree (entries : List (Location × Entry)) : Tree :=
  ⟨(["d"], .directory) :: entries⟩

/-- A call that writes a file through a link, and a call that writes the link itself. -/
def crossedWriters : Writers 2 where
  directory := []
  processId := 1
  target call := if call = 0 then ⟨"l/x"⟩ else ⟨"l"⟩
  content _ := ByteArray.empty

/-- The two calls before they begin. -/
def crossedStart : State 2 :=
  ⟨crossedTree [(["l"], .link ⟨"d"⟩)], 0, fun _ => .waiting⟩

theorem crossedWriters_canStart : crossedWriters.CanStart crossedStart :=
  .of_visible (fun _ => rfl) (by decide) (by decide)

/-- A call that writes to a link by a path that leads through that link. -/
def selfWriter : Writers 1 where
  directory := []
  processId := 1
  target _ := ⟨"l/l"⟩
  content _ := ByteArray.empty

/-- The call before it begins. -/
def selfStart : State 1 :=
  ⟨⟨[(["l"], .link ⟨"."⟩)]⟩, 0, fun _ => .waiting⟩

theorem selfWriter_canStart : selfWriter.CanStart selfStart :=
  .of_visible (fun _ => rfl) (by decide) (by decide)

/-- Both calls can return and leave a temporary file: the second one replaces the link while the
first one has its temporary file behind it, which the first one then can neither rename nor
remove. And a call can succeed after which its path names nothing. -/
theorem crossedWriters_leave :
    (crossedWriters.CanStart crossedStart ∧
      ∃ state, crossedWriters.Reaches crossedStart state ∧
        (∀ call, ∃ result, (state.stage call).result? = some result) ∧
        state.tree.lookup ["d", crossedWriters.temporaryName 0 0] =
          some (.file ByteArray.empty false)) ∧
    selfWriter.CanStart selfStart ∧
      ∃ state, selfWriter.Reaches selfStart state ∧ state.stage 0 = .ended (.ok ()) ∧
        state.tree.resolve [] true (selfWriter.target 0) = .error .notDirectory := by
  have began : crossedWriters.Reaches crossedStart
      ⟨crossedTree [(["l"], .link ⟨"d"⟩)], 2, Function.update (Function.update (fun _ => .waiting) 0
        (.named 0)) 1 (.named 1)⟩ := .tail (.tail .refl ⟨0, .take rfl⟩) ⟨1, .take rfl⟩
  have made := Relation.ReflTransGen.tail began ⟨0, @Step.make _ _ _ _ 0 ["d", ".x.tmp.1.0"]
    (crossedTree [(["l"], .link ⟨"d"⟩), (["d", ".x.tmp.1.0"], .file ByteArray.empty false)])
    [.created ["d", ".x.tmp.1.0"] false] rfl (by decide)⟩
  have both := Relation.ReflTransGen.tail made ⟨1, @Step.make _ _ _ _ 1 [".l.tmp.1.1"]
    (crossedTree [(["l"], .link ⟨"d"⟩), (["d", ".x.tmp.1.0"], .file ByteArray.empty false),
      ([".l.tmp.1.1"], .file ByteArray.empty false)])
    [.created [".l.tmp.1.1"] false] rfl (by decide)⟩
  have replaced := Relation.ReflTransGen.tail both ⟨1, @Step.rename _ _ _ _ 1 [".l.tmp.1.1"]
    (crossedTree [(["l"], .file ByteArray.empty false),
      (["d", ".x.tmp.1.0"], .file ByteArray.empty false)])
    [.moved [".l.tmp.1.1"] ["l"] false] rfl (by decide)⟩
  have refused := Relation.ReflTransGen.tail replaced ⟨0, @Step.failToRename _ _ _ _ 0
    ["d", ".x.tmp.1.0"] rfl .notDirectory⟩
  have left := Relation.ReflTransGen.tail refused ⟨0, @Step.abandon _ _ _ _ 0
    ["d", ".x.tmp.1.0"] .notDirectory .notDirectory rfl (by decide)⟩
  have alone : selfWriter.Reaches selfStart
      ⟨selfStart.tree, 1, Function.update (fun _ => .waiting) 0 (.named 0)⟩ :=
    .tail .refl ⟨0, .take rfl⟩
  have filled := Relation.ReflTransGen.tail alone ⟨0, @Step.make _ _ _ _ 0 [".l.tmp.1.0"]
    ⟨[(["l"], .link ⟨"."⟩), ([".l.tmp.1.0"], .file ByteArray.empty false)]⟩
    [.created [".l.tmp.1.0"] false] rfl (by decide)⟩
  have wrote := Relation.ReflTransGen.tail filled ⟨0, @Step.rename _ _ _ _ 0 [".l.tmp.1.0"]
    ⟨[(["l"], .file ByteArray.empty false)]⟩ [.moved [".l.tmp.1.0"] ["l"] false] rfl
    (by decide)⟩
  exact ⟨⟨crossedWriters_canStart, _, left, Fin.forall_fin_two.2 ⟨⟨_, rfl⟩, ⟨_, rfl⟩⟩,
    by decide⟩, selfWriter_canStart, _, wrote, rfl, by decide⟩

/-! ## A call alone -/

/-- The state of calls on a host. -/
def State.ofHost (host : Host) (stage : Fin count -> Stage) : State count :=
  ⟨host.tree, host.ticket, stage⟩

theorem State.advance_advance (state : State count) (call : Fin count) (stage stage' : Stage)
    (tree tree' : Tree) :
    (state.advance call stage tree).advance call stage' tree' = state.advance call stage' tree' := by
  unfold State.advance
  rw [Function.update_idem]

/-- A call that goes through its steps with no other one between them does what `writeWhole`
does. -/
theorem reaches_writeWhole {host : Host} {stage : Fin count -> Stage}
    (directory : writers.directory = host.directory)
    (processId : writers.processId = host.processId) (waits : stage call = .waiting) :
    ∃ last, writers.Reaches (.ofHost host stage)
        (.ofHost (host.writeWhole (writers.target call) (writers.content call)).2
          (Function.update stage call last)) ∧
      last.result? = some (host.writeWhole (writers.target call) (writers.content call)).1 := by
  have temporary : writers.temporaryPath call host.ticket =
      Host.temporaryPath (writers.target call) host.processId host.ticket := by
    rw [temporaryPath, processId]
  generalize begun_eq : (⟨host.tree, host.ticket + 1, stage⟩ : State count) = begun
  have took : writers.Reaches (.ofHost host stage)
      (begun.advance call (.named host.ticket) host.tree) := by
    subst begun_eq
    exact .single ⟨call, .take waits⟩
  have goesOn {first second : Stage} {tree tree' : Tree}
      (reached : writers.Reaches (.ofHost host stage) (begun.advance call first tree))
      (step : writers.Step call (begun.advance call first tree)
        ((begun.advance call first tree).advance call second tree')) :
      writers.Reaches (.ofHost host stage) (begun.advance call second tree') := by
    rw [State.advance_advance] at step
    exact .tail reached ⟨call, step⟩
  have arrives {last : Stage} {tree : Tree}
      (reached : writers.Reaches (.ofHost host stage) (begun.advance call last tree)) :
      writers.Reaches (.ofHost host stage)
        ⟨tree, host.ticket + 1, Function.update stage call last⟩ := by
    subst begun_eq
    exact reached
  -- The branches of `writeWhole` are the ways through the stages.
  unfold Host.writeWhole Host.writeThrough
  rw [← temporary, ← directory]
  dsimp only
  split
  · rename_i cause fails
    exact ⟨.ended (.error cause),
      arrives (goesOn took (.failToMake (State.stage_advance ..) cause)), rfl⟩
  · rename_i created location creation makes
    have made := goesOn took (.make (State.stage_advance ..) makes)
    have whole : writers.content call =
        ByteArray.empty ++ writers.content call ++ ByteArray.empty := by
      rw [ByteArray.empty_append, ByteArray.append_empty]
    have filled := goesOn made (.write (State.stage_advance ..) whole)
    rw [ByteArray.empty_append] at filled
    split
    · rename_i renamed move renames
      exact ⟨.ended (.ok ()), arrives (goesOn filled (.rename (State.stage_advance ..) renames)),
        rfl⟩
    · rename_i cause fails
      have refused := goesOn filled (.failToRename (State.stage_advance ..) cause)
      split
      · rename_i cleaned removal removes
        exact ⟨.ended (.error cause),
          arrives (goesOn refused (.remove (State.stage_advance ..) removes)), rfl⟩
      · rename_i reason remains
        exact ⟨.abandoned host.ticket location cause,
          arrives (goesOn refused (.abandon (State.stage_advance ..) remains)), rfl⟩

end Relink.Writers
