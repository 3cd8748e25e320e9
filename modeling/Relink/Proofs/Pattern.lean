import Mathlib.Data.List.Basic
import Relink.Pattern

/-!
# What patterns match

What a pattern takes of a text is said by its parts, without an order among the ways to match: this
is the language of the pattern, with what stands before and behind for the sake of its anchors. The
ways in which a pattern matches are exactly these, and the match that is found is one of them.
-/

namespace Relink.Pattern

/-- Whether a pattern can take a text that stands between two others. The first of these is given
from its end. -/
inductive Takes : Pattern -> List Char -> List Char -> List Char -> Prop
  | start (rest : List Char) : Takes start [] [] rest
  | finish (before : List Char) : Takes finish before [] []
  | single (character : Char) (before rest : List Char) :
      Takes (single character) before [character] rest
  | oneOf {ranges : List (Char × Char)} {character : Char}
      (inside : isInRanges ranges character = true) (before rest : List Char) :
      Takes (oneOf ranges) before [character] rest
  | inOrder {first second : Pattern} {before taken later rest : List Char}
      (takes : Takes first before taken (later ++ rest))
      (goesOn : Takes second (taken.reverse ++ before) later rest) :
      Takes (inOrder first second) before (taken ++ later) rest
  | either_left {first second : Pattern} {before taken rest : List Char}
      (takes : Takes first before taken rest) : Takes (either first second) before taken rest
  | either_right {first second : Pattern} {before taken rest : List Char}
      (takes : Takes second before taken rest) : Takes (either first second) before taken rest
  | option_some {pattern : Pattern} {before taken rest : List Char}
      (takes : Takes pattern before taken rest) : Takes (option pattern) before taken rest
  | option_none (pattern : Pattern) (before rest : List Char) :
      Takes (option pattern) before [] rest
  | repetition_nil (pattern : Pattern) (before rest : List Char) :
      Takes (repetition pattern) before [] rest
  | repetition_cons {pattern : Pattern} {before taken later rest : List Char} (filled : taken ≠ [])
      (takes : Takes pattern before taken (later ++ rest))
      (goesOn : Takes (repetition pattern) (taken.reverse ++ before) later rest) :
      Takes (repetition pattern) before (taken ++ later) rest
  | group {pattern : Pattern} {before taken rest : List Char} (number : Nat)
      (takes : Takes pattern before taken rest) : Takes (group number pattern) before taken rest

/-- Whether a match goes on from a place to another one by what a pattern takes. -/
def GoesOn (pattern : Pattern) (place next : Match) : Prop :=
  ∃ taken, place.rest = taken ++ next.rest ∧ next.before = taken.reverse ++ place.before ∧
    Takes pattern place.before taken next.rest

section Inversion

variable {pattern first second : Pattern} {before taken rest : List Char}

@[simp] theorem takes_finish_iff : Takes finish before taken rest ↔ taken = [] ∧ rest = [] := by
  constructor
  · rintro ⟨⟩
    exact ⟨rfl, rfl⟩
  · rintro ⟨rfl, rfl⟩
    exact .finish before

/-- A single character takes itself. -/
@[simp] theorem takes_single_iff {character : Char} :
    Takes (single character) before taken rest ↔ taken = [character] := by
  constructor
  · rintro ⟨⟩
    rfl
  · rintro rfl
    exact .single ..

/-- A character class takes one of its characters. -/
@[simp] theorem takes_oneOf_iff {ranges : List (Char × Char)} :
    Takes (oneOf ranges) before taken rest ↔
      ∃ character, taken = [character] ∧ isInRanges ranges character = true := by
  constructor
  · rintro ⟨⟩
    exact ⟨_, rfl, ‹_›⟩
  · rintro ⟨character, rfl, inside⟩
    exact .oneOf inside ..

/-- Two patterns in order take what the first takes, and behind it what the second does. -/
theorem takes_inOrder_iff :
    Takes (inOrder first second) before taken rest ↔ ∃ front back, taken = front ++ back ∧
      Takes first before front (back ++ rest) ∧ Takes second (front.reverse ++ before) back rest := by
  constructor
  · rintro ⟨⟩
    exact ⟨_, _, rfl, ‹_›, ‹_›⟩
  · rintro ⟨front, back, rfl, takes, goesOn⟩
    exact .inOrder takes goesOn

/-- A choice takes what either of its patterns does. -/
@[simp] theorem takes_either_iff :
    Takes (either first second) before taken rest ↔
      Takes first before taken rest ∨ Takes second before taken rest := by
  constructor
  · rintro (_ | _ | _ | _ | _ | takes | takes)
    · exact .inl takes
    · exact .inr takes
  · rintro (takes | takes)
    · exact .either_left takes
    · exact .either_right takes

/-- An optional pattern takes what the pattern does, or nothing. -/
@[simp] theorem takes_option_iff :
    Takes (option pattern) before taken rest ↔ Takes pattern before taken rest ∨ taken = [] := by
  constructor
  · rintro (_ | _ | _ | _ | _ | _ | _ | takes | _)
    · exact .inl takes
    · exact .inr rfl
  · rintro (takes | rfl)
    · exact .option_some takes
    · exact .option_none ..

/-- A group takes what its pattern does. -/
@[simp] theorem takes_group_iff {number : Nat} :
    Takes (group number pattern) before taken rest ↔ Takes pattern before taken rest := by
  constructor
  · rintro ⟨⟩
    assumption
  · exact .group number

/-- A repeated set takes all texts of its characters. -/
@[simp] theorem takes_repetition_oneOf_iff {ranges : List (Char × Char)} :
    Takes (repetition (oneOf ranges)) before taken rest ↔
      ∀ character ∈ taken, isInRanges ranges character = true := by
  constructor
  · generalize same : repetition (oneOf ranges) = whole
    intro takes
    induction takes with
    | repetition_nil => simp
    | repetition_cons _ takes _ _ ih =>
      cases same
      obtain ⟨character, rfl, inside⟩ := takes_oneOf_iff.1 takes
      exact List.forall_mem_cons.2 ⟨inside, ih rfl⟩
    | _ => cases same
  · intro inside
    induction taken generalizing before with
    | nil => exact .repetition_nil ..
    | cons character taken ih =>
      obtain ⟨here, later⟩ := List.forall_mem_cons.1 inside
      exact .repetition_cons (List.cons_ne_nil _ _) (.oneOf here before (taken ++ rest)) (ih later)

end Inversion

/-! ## Every way takes something -/

/-- Matching one character takes it from what is left. -/
theorem exists_of_mem_advance {place next : Match} {accepts : Char -> Bool}
    (member : next ∈ place.advance accepts) :
    ∃ character, accepts character = true ∧ place.rest = [character] ++ next.rest ∧
      next.before = [character].reverse ++ place.before := by
  unfold Match.advance at member
  split at member
  · cases member
  · rename_i character rest shape
    split at member
    · rename_i accepted
      obtain rfl := List.mem_singleton.1 member
      exact ⟨character, accepted, shape, rfl⟩
    · cases member

/-- Rounds of a pattern are a repetition of it. -/
theorem goesOn_repeated {pattern : Pattern} {once : Match -> List Match}
    (sound : ∀ {place next}, next ∈ once place -> GoesOn pattern place next) {rounds : Nat}
    {place next : Match} (member : next ∈ repeated once rounds place) :
    GoesOn (repetition pattern) place next := by
  have stays (place : Match) : GoesOn (repetition pattern) place place :=
    ⟨[], rfl, rfl, .repetition_nil ..⟩
  induction rounds generalizing place with
  | zero =>
    obtain rfl := List.mem_singleton.1 member
    exact stays next
  | succ rounds ih =>
    rw [repeated, List.mem_append, List.mem_flatMap] at member
    rcases member with ⟨middle, inside, later⟩ | here
    · rw [List.mem_filter, decide_eq_true_iff] at inside
      obtain ⟨taken, shape, back, takes⟩ := sound inside.1
      obtain ⟨more, shape', back', goesOn⟩ := ih later
      have filled : taken ≠ [] := by
        rintro rfl
        exact absurd inside.2 (by rw [shape]; simp)
      refine ⟨taken ++ more, by rw [shape, shape', List.append_assoc], ?_, ?_⟩
      · rw [back', back, List.reverse_append, List.append_assoc]
      · rw [shape'] at takes
        rw [back] at goesOn
        exact .repetition_cons filled takes goesOn
    · obtain rfl := List.mem_singleton.1 here
      exact stays next

/-- Every way of a pattern goes on by what the pattern takes. -/
theorem goesOn_of_mem_ways {pattern : Pattern} {place next : Match}
    (member : next ∈ pattern.ways place) : GoesOn pattern place next := by
  -- The induction is on the pattern, as `ways` recurses on it.
  induction pattern generalizing place next with
  | start =>
    rw [ways] at member
    split at member
    · rename_i first
      obtain rfl := List.mem_singleton.1 member
      refine ⟨[], rfl, rfl, ?_⟩
      rw [List.isEmpty_iff.1 first]
      exact .start _
    · cases member
  | finish =>
    rw [ways] at member
    split at member
    · rename_i last
      obtain rfl := List.mem_singleton.1 member
      refine ⟨[], rfl, rfl, ?_⟩
      rw [List.isEmpty_iff.1 last]
      exact .finish _
    · cases member
  | single character =>
    obtain ⟨other, accepted, shape, back⟩ := exists_of_mem_advance member
    obtain rfl := beq_iff_eq.1 accepted
    exact ⟨_, shape, back, .single ..⟩
  | oneOf ranges =>
    obtain ⟨character, accepted, shape, back⟩ := exists_of_mem_advance member
    exact ⟨_, shape, back, .oneOf accepted ..⟩
  | inOrder first second ihFirst ihSecond =>
    obtain ⟨middle, inside, later⟩ := List.mem_flatMap.1 member
    obtain ⟨taken, shape, back, takes⟩ := ihFirst inside
    obtain ⟨more, shape', back', goesOn⟩ := ihSecond later
    refine ⟨taken ++ more, by rw [shape, shape', List.append_assoc], ?_, ?_⟩
    · rw [back', back, List.reverse_append, List.append_assoc]
    · rw [shape'] at takes
      rw [back] at goesOn
      exact .inOrder takes goesOn
  | either first second ihFirst ihSecond =>
    rcases List.mem_append.1 member with left | right
    · obtain ⟨taken, shape, back, takes⟩ := ihFirst left
      exact ⟨taken, shape, back, .either_left takes⟩
    · obtain ⟨taken, shape, back, takes⟩ := ihSecond right
      exact ⟨taken, shape, back, .either_right takes⟩
  | option pattern ih =>
    rcases List.mem_append.1 member with inside | here
    · obtain ⟨taken, shape, back, takes⟩ := ih inside
      exact ⟨taken, shape, back, .option_some takes⟩
    · obtain rfl := List.mem_singleton.1 here
      exact ⟨[], rfl, rfl, .option_none ..⟩
  | repetition pattern ih => exact goesOn_repeated ih member
  | group number pattern ih =>
    obtain ⟨inner, inside, rfl⟩ := List.mem_map.1 member
    obtain ⟨taken, shape, back, takes⟩ := ih inside
    exact ⟨taken, shape, back, .group number takes⟩

/-! ## Everything that is taken is a way -/

/-- A repetition can take nothing. -/
theorem mem_repeated_self (once : Match -> List Match) (rounds : Nat) (place : Match) :
    place ∈ repeated once rounds place := by
  cases rounds with
  | zero => exact List.mem_singleton_self _
  | succ rounds => exact List.mem_append_right _ (List.mem_singleton_self _)

/-- At the end of the text there is no round. -/
theorem repeated_of_end {once : Match -> List Match} {place : Match}
    (atEnd : place.rest.length = 0) (rounds : Nat) : repeated once rounds place = [place] := by
  cases rounds <;> simp [repeated, atEnd]

/-- There are never more rounds than characters to take. -/
theorem repeated_congr {once : Match -> List Match} {rounds rounds' : Nat} {place : Match}
    (enough : place.rest.length ≤ rounds) (enough' : place.rest.length ≤ rounds') :
    repeated once rounds place = repeated once rounds' place := by
  induction rounds generalizing rounds' place with
  | zero => rw [repeated_of_end (Nat.le_zero.1 enough), repeated_of_end (Nat.le_zero.1 enough)]
  | succ rounds ih =>
    cases rounds' with
    | zero => rw [repeated_of_end (Nat.le_zero.1 enough'), repeated_of_end (Nat.le_zero.1 enough')]
    | succ rounds' =>
      rw [repeated, repeated]
      refine congrArg (· ++ [place]) (List.flatMap_congr fun next inside => ?_)
      have shorter := decide_eq_true_iff.1 (List.mem_filter.1 inside).2
      exact ih (by omega) (by omega)

/-- What a pattern takes is a way of it, whatever groups have matched before. -/
theorem Takes.exists_mem_ways {pattern : Pattern} {before taken rest : List Char}
    (takes : Takes pattern before taken rest) (groups : List (Nat × List Char)) :
    ∃ groups', ⟨taken.reverse ++ before, rest, groups'⟩ ∈
      pattern.ways ⟨before, taken ++ rest, groups⟩ := by
  -- The groups differ from round to round, so they are generalized.
  induction takes generalizing groups with
  | start rest => exact ⟨groups, by simp [ways]⟩
  | finish before => exact ⟨groups, by simp [ways]⟩
  | single character before rest => exact ⟨groups, by simp [ways, Match.advance]⟩
  | oneOf inside before rest => exact ⟨groups, by simp [ways, Match.advance, inside]⟩
  | @inOrder first second before taken later rest _ _ ihFirst ihSecond =>
    obtain ⟨groups', inside⟩ := ihFirst groups
    obtain ⟨groups'', later'⟩ := ihSecond groups'
    rw [← List.append_assoc] at inside
    rw [← List.append_assoc, ← List.reverse_append] at later'
    exact ⟨groups'', List.mem_flatMap.2 ⟨_, inside, later'⟩⟩
  | either_left _ ih =>
    obtain ⟨groups', inside⟩ := ih groups
    exact ⟨groups', List.mem_append_left _ inside⟩
  | either_right _ ih =>
    obtain ⟨groups', inside⟩ := ih groups
    exact ⟨groups', List.mem_append_right _ inside⟩
  | option_some _ ih =>
    obtain ⟨groups', inside⟩ := ih groups
    exact ⟨groups', List.mem_append_left _ inside⟩
  | option_none pattern before rest =>
    exact ⟨groups, List.mem_append_right _ (List.mem_singleton_self _)⟩
  | repetition_nil pattern before rest => exact ⟨groups, mem_repeated_self ..⟩
  | @repetition_cons pattern before taken later rest filled _ _ ihFirst ihSecond =>
    obtain ⟨groups', inside⟩ := ihFirst groups
    obtain ⟨groups'', later'⟩ := ihSecond groups'
    rw [← List.append_assoc] at inside
    rw [← List.append_assoc, ← List.reverse_append] at later'
    -- A round that takes something leaves less, so the rounds that are counted are enough.
    have shorter : (later ++ rest).length < (taken ++ later ++ rest).length := by
      have := List.length_pos_iff.2 filled
      simp only [List.length_append]
      omega
    obtain ⟨rounds, enough⟩ := Nat.exists_eq_add_of_lt shorter
    refine ⟨groups'', ?_⟩
    rw [ways, enough, repeated, List.mem_append, List.mem_flatMap]
    refine .inl ⟨_, List.mem_filter.2 ⟨inside, decide_eq_true shorter⟩, ?_⟩
    have same := @repeated_congr pattern.ways ((later ++ rest).length + rounds)
      (later ++ rest).length ⟨taken.reverse ++ before, later ++ rest, groups'⟩
      (Nat.le_add_right ..) (Nat.le_refl _)
    rwa [same]
  | group number _ ih =>
    obtain ⟨groups', inside⟩ := ih groups
    exact ⟨_, List.mem_map.2 ⟨_, inside, rfl⟩⟩

/-! ## The match that is found -/

/-- A pattern that begins at the start of the text is not found further on. -/
theorem findFrom?_start_of_ne {pattern : Pattern} {before : List Char} (filled : before ≠ [])
    (rest : List Char) : (inOrder start pattern).findFrom? before rest = none := by
  have none_ (place : Match) (later : place.before ≠ []) :
      (inOrder start pattern).ways place = [] := by
    simp [ways, later]
  induction rest generalizing before with
  | nil => rw [findFrom?, none_ _ filled, List.head?_nil]
  | cons character rest ih =>
    rw [findFrom?, none_ _ filled, List.head?_nil]
    exact ih (List.cons_ne_nil _ _)

/-- Of a pattern that begins at the start of the text, the first way from there is found. -/
theorem findFrom?_start (pattern : Pattern) (text : List Char) :
    (inOrder start pattern).findFrom? [] text = (pattern.ways ⟨[], text, []⟩).head? := by
  have all (groups : List (Nat × List Char)) :
      (inOrder start pattern).ways ⟨[], text, groups⟩ = pattern.ways ⟨[], text, groups⟩ := by
    simp [ways]
  cases text with
  | nil => rw [findFrom?, all]
  | cons character rest =>
    rw [findFrom?, all]
    cases (pattern.ways ⟨[], character :: rest, []⟩).head? with
    | none => exact findFrom?_start_of_ne (List.cons_ne_nil _ _) rest
    | some found => rfl

end Relink.Pattern
