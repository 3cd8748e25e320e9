import Relink.Proofs.Cursor.Statement

/-!
# Positions in a script

From every position of every list of units, each function that moves the cursor gives a result, and
leaves the cursor neither before that position nor past the end. What the loop over a script
passes over or reports is never empty, so that the cursor always advances.
-/

namespace Relink.Script

/-- A run that ends, at a position from `start` to the end of the script. -/
def Lands (script : List Char) (start : Nat) (run : Option Nat) : Prop :=
  ∃ stop, run = some stop ∧ start ≤ stop ∧ stop ≤ script.length

/-- A span that is not empty, between two quotes that stand after `start` and before `limit`. -/
structure Span.Within (span : Span) (start limit : Nat) : Prop where
  opens : start < span.start
  filled : span.start < span.stop
  closes : span.stop < span.next
  fits : span.next ≤ limit

/-- A run that ends, and what it finds lies between `start` and the end of the script. -/
def Finds (script : List Char) (start : Nat) (run : Option (Option Span)) : Prop :=
  ∃ answer, run = some answer ∧ ∀ span, answer = some span → span.Within start script.length

/-- Every function that moves the cursor keeps it in the script, and never moves it back. -/
structure Confined (script : List Char) : Prop where
  lineComment : ∀ i ≤ script.length, Lands script i (lineCommentEnd script i)
  blockComment : ∀ i ≤ script.length, Lands script i (some (blockCommentEnd script i))
  string : ∀ i < script.length, Lands script (i + 1) (stringEnd script i)
  template : ∀ i < script.length, Lands script (i + 1) (templateEndFrom script (i + 1))
  regex : ∀ i < script.length, Lands script (i + 1) (regexEndFrom script false (i + 1))
  trivia : ∀ i ≤ script.length, Lands script i (triviaEnd script i)
  opensRegex : ∀ i ≤ script.length, ∃ answer, opensRegexAt script i = some answer
  word : ∀ i ≤ script.length, ∀ word, ∃ answer, wordAt script i word = some answer
  quoted : ∀ i ≤ script.length, Finds script i (quotedAt script i)
  /-- A clause never begins a script. -/
  clause : ∀ i ≤ script.length, 0 < i → Finds script i (clauseAt script i)
  lexeme : ∀ i < script.length, ∃ answer, lexemeEnd? script i = some answer ∧
    ∀ stop, answer = some stop → i < stop ∧ stop ≤ script.length
  statement : ∀ i < script.length, ∃ answer, statementAt script i = some answer ∧
    ∀ length found, answer = some (length, found) → 0 < length ∧ i + length ≤ script.length ∧
      ∀ form span, found = some (form, span) → span.Within i script.length

section Bounds

variable {script : List Char} {i : Nat}

/-- A run that is told by a length lands where the length does. -/
theorem Lands.of_length {start length : Nat} {run : Option Nat} (moved : run = some (i + length))
    (after : start ≤ i + length) (fits : i + length ≤ script.length) : Lands script start run :=
  ⟨i + length, moved, after, fits⟩

theorem Reads.exists_cons (inside : i < script.length) :
    ∃ unit rest, Reads script i (unit :: rest) :=
  ⟨script[i], script.drop (i + 1), inside.le, List.drop_eq_getElem_cons inside⟩

/-- The end of a line comment lies in the text. -/
theorem lineCommentEnd_lands (within : i ≤ script.length) :
    Lands script i (lineCommentEnd script i) := by
  have cut : between? script i script.length = some (script.drop i) := by
    rw [between?_eq_some within (Nat.le_refl _), List.take_length]
  rw [lineCommentEnd, cut]
  simp only [Option.bind_eq_bind, Option.bind_some]
  cases found : (script.drop i).findIdx? (· == '\n') with
  | none => exact ⟨script.length, rfl, within, Nat.le_refl _⟩
  | some ahead =>
    have shorter := (List.findIdx?_eq_some_iff_getElem.1 found).1
    rw [List.length_drop] at shorter
    exact .of_length rfl (by omega) (by omega)

/-- The closing of a comment lies in the text. -/
theorem closing?_le {text : List Char} {ahead : Nat} (found : closing? text = some ahead) :
    ahead + 2 ≤ text.length := by
  fun_induction closing? text generalizing ahead with
  | case1 => cases found
  | case2 =>
    obtain rfl := Option.some.inj found
    simp
  | case3 unit rest open_ ih =>
    obtain ⟨later, further, rfl⟩ := Option.map_eq_some_iff.1 found
    have := ih further
    rw [List.length_cons]
    omega

/-- The end of a block comment lies in the text. -/
theorem blockCommentEnd_lands (within : i ≤ script.length) :
    Lands script i (some (blockCommentEnd script i)) := by
  rw [blockCommentEnd]
  cases found : closing? (script.drop (i + 2)) with
  | none => exact ⟨script.length, rfl, within, Nat.le_refl _⟩
  | some ahead =>
    have shorter := closing?_le found
    rw [List.length_drop] at shorter
    exact ⟨i + 2 + ahead + 2, rfl, by omega, by omega⟩

/-- The span of a quoted specifier lies in the text. -/
theorem Span.quotedAt_within {rest specifier : List Char} (reads : Reads script i rest)
    (found : quotedSpecifier? rest = some specifier) :
    (Span.quotedAt i specifier).Within i script.length := by
  obtain ⟨quote, tail, rfl, -, isSpecifier⟩ := exists_of_quotedSpecifier? found
  have filled := List.length_pos_iff.2 isSpecifier.ne_nil
  have fits := reads.length_eq
  simp only [List.length_cons, List.length_append] at fits
  constructor <;> simp only [Span.quotedAt] <;> omega

/-- Looking for a quoted specifier does not fail, and finds one in the text only. -/
theorem quotedAt_finds (within : i ≤ script.length) : Finds script i (quotedAt script i) := by
  have reads := Reads.here within
  refine ⟨_, quotedAt_eq reads, fun span found => ?_⟩
  obtain ⟨specifier, here, rfl⟩ := Option.map_eq_some_iff.1 found
  exact Span.quotedAt_within reads here

/-- Looking behind a clause does not fail, and finds a specifier in the text only. -/
theorem clauseAt_finds (within : i ≤ script.length) (begun : 0 < i) :
    Finds script i (clauseAt script i) := by
  have reads := Reads.here within
  have filled : script.take i ≠ [] := by
    intro empty
    have size := List.length_take_of_le within
    rw [empty, List.length_nil] at size
    omega
  refine ⟨_, clauseAt_eq reads (List.getLast?_eq_some_getLast filled), fun span found => ?_⟩
  obtain ⟨offset, -, ahead⟩ := Option.bind_eq_some_iff.1 found
  obtain ⟨specifier, here, rfl⟩ := Option.map_eq_some_iff.1 ahead
  have inside : offset ≤ (script.drop i).length := by
    by_contra past
    rw [List.drop_eq_nil_of_le (by omega)] at here
    cases here
  have span := Span.quotedAt_within (reads.drop inside) here
  exact ⟨Nat.lt_of_le_of_lt (Nat.le_add_right i offset) span.opens, span.filled, span.closes,
    span.fits⟩

/-- Skipping does not fail, moves on, and stays in the text. -/
theorem lexemeEnd?_within (inside : i < script.length) :
    ∃ answer, lexemeEnd? script i = some answer ∧
      ∀ stop, answer = some stop → i < stop ∧ stop ≤ script.length := by
  obtain ⟨unit, rest, reads⟩ := Reads.exists_cons inside
  refine ⟨_, lexemeEnd?_eq reads, fun stop found => ?_⟩
  obtain ⟨length, measured, rfl⟩ := Option.map_eq_some_iff.1 found
  have bounds := lexemeLength?_bounds measured
  have fits := reads.length_eq
  omega

/-- Reading a statement does not fail, moves on, and stays in the text. -/
theorem statementAt_within (inside : i < script.length) :
    ∃ answer, statementAt script i = some answer ∧
      ∀ length found, answer = some (length, found) → 0 < length ∧ i + length ≤ script.length ∧
        ∀ form span, found = some (form, span) → span.Within i script.length := by
  have reads := Reads.here inside.le
  have fits := reads.length_eq
  refine ⟨_, statementAt_eq reads, fun length found answer => ?_⟩
  obtain ⟨length', known, same⟩ := Option.map_eq_some_iff.1 answer
  obtain ⟨rfl, rfl⟩ := Prod.mk.inj same
  obtain ⟨word, following, split, rfl, filled, -⟩ := exists_word_of_keywordLength? known
  refine ⟨List.length_pos_iff.2 filled, ?_, fun form span found => ?_⟩
  · rw [split, List.length_append] at fits
    omega
  · obtain ⟨site, here, place⟩ := Option.map_eq_some_iff.1 found
    obtain ⟨-, opening, quote, rest, -, -, isSpecifier, shape, lead⟩ :=
      exists_opening_of_siteAt? here
    obtain ⟨-, rfl⟩ := Prod.mk.inj place
    have specifier := List.length_pos_iff.2 isSpecifier.ne_nil
    rw [shape] at fits
    simp only [List.length_append, List.length_cons, List.length_nil] at fits lead
    constructor <;> simp only <;> omega

/-- The cursor moves over a lexeme. -/
theorem lt_lexemeEnd? {stop : Nat} (inside : i < script.length)
    (found : lexemeEnd? script i = some (some stop)) : i < stop := by
  obtain ⟨answer, moved, ahead⟩ := lexemeEnd?_within inside
  rw [found, Option.some.injEq] at moved
  exact (ahead stop moved.symm).1

/-- The cursor moves over a keyword. -/
theorem keyword_pos {length : Nat} {found : Found} (inside : i < script.length)
    (stated : statementAt script i = some (some (length, found))) : 0 < length := by
  obtain ⟨answer, moved, ahead⟩ := statementAt_within inside
  rw [stated, Option.some.injEq] at moved
  exact (ahead length found moved.symm).1

/-- The cursor moves over a statement. -/
theorem lt_statement {length : Nat} {form : Form} {span : Span} (inside : i < script.length)
    (stated : statementAt script i = some (some (length, some (form, span)))) : i < span.next := by
  obtain ⟨answer, moved, ahead⟩ := statementAt_within inside
  rw [stated, Option.some.injEq] at moved
  have within := (ahead length _ moved.symm).2.2 form span rfl
  exact (within.opens.trans within.filled).trans within.closes

/-- No part of the scan leaves the text. -/
theorem confined (script : List Char) : Confined script where
  lineComment _ := lineCommentEnd_lands
  blockComment _ := blockCommentEnd_lands
  string i inside := by
    obtain ⟨quote, rest, reads⟩ := Reads.exists_cons inside
    have bounds := stringLength_bounds quote 1 rest
    have fits := reads.length_eq
    rw [List.length_cons] at fits
    exact .of_length (stringEnd_eq reads) (by omega) (by omega)
  template i inside := by
    obtain ⟨unit, rest, reads⟩ := Reads.exists_cons inside
    have bounds := templateLength_bounds 1 rest
    have fits := reads.length_eq
    rw [List.length_cons] at fits
    exact .of_length (templateEndFrom_eq reads.next) (by omega) (by omega)
  regex i inside := by
    obtain ⟨unit, rest, reads⟩ := Reads.exists_cons inside
    have bounds := regexLength_bounds false 1 rest
    have fits := reads.length_eq
    rw [List.length_cons] at fits
    exact .of_length (regexEndFrom_eq reads.next) (by omega) (by omega)
  trivia i within := by
    have reads := Reads.here within
    have shorter := triviaLength_le (script.drop i)
    have fits := reads.length_eq
    exact .of_length (triviaEnd_eq reads) (by omega) (by omega)
  opensRegex _ within := ⟨_, opensRegexAt_eq within⟩
  word _ within word := ⟨_, wordAt_eq (Reads.here within) word⟩
  quoted _ := quotedAt_finds
  clause _ := clauseAt_finds
  lexeme _ := lexemeEnd?_within
  statement _ := statementAt_within

end Bounds

end Relink.Script
