import Mathlib.Data.List.TakeWhile
import Relink.Script.Lexeme

/-!
# Comments and gaps

A gap is what may stand between two words of a statement: blanks and comments. `triviaLength`
measures exactly the longest gap that a text begins with, except where a comment never ends:
then it reaches to the end of the text.
-/

namespace Relink.Script

/-- A comment with its end: a block comment with its `*/`, a line comment with its line feed. -/
inductive Comment : List Char -> Prop where
  | block {body : List Char} (open_ : ¬['*', '/'] <:+: body ++ ['*']) :
      Comment ('/' :: '*' :: (body ++ ['*', '/']))
  | line {body : List Char} (oneLine : '\n' ∉ body) :
      Comment ('/' :: '/' :: (body ++ ['\n']))

/-- Blanks and comments. -/
inductive Gap : List Char -> Prop where
  | nil : Gap []
  | blank {character : Char} {rest : List Char} (isBlank : isBlank character = true)
      (gap : Gap rest) : Gap (character :: rest)
  | comment {text rest : List Char} (comment : Comment text) (gap : Gap rest) :
      Gap (text ++ rest)

/-- A comment is not empty, and begins with a slash. -/
theorem Comment.exists_cons {text : List Char} (comment : Comment text) :
    ∃ rest, text = '/' :: rest ∧ rest ≠ [] := by
  cases comment with
  | block _ => exact ⟨_, rfl, by simp⟩
  | line _ => exact ⟨_, rfl, by simp⟩

/-- A comment is not empty. -/
theorem Comment.length_pos {text : List Char} (comment : Comment text) : 0 < text.length := by
  obtain ⟨rest, rfl, -⟩ := comment.exists_cons
  simp

/-! ## Block comments -/

/-- A block comment ends at its first `*/`. -/
theorem blockCommentLength_closed {body : List Char} (passed : Nat) (rest : List Char)
    (open_ : ¬['*', '/'] <:+: body ++ ['*']) :
    blockCommentLength passed (body ++ '*' :: '/' :: rest) = passed + body.length + 2 := by
  induction body generalizing passed with
  | nil => rfl
  | cons character body ih =>
    have later : ¬['*', '/'] <:+: body ++ ['*'] := fun inside =>
      open_ (inside.trans (List.suffix_cons character _).isInfix)
    rw [List.cons_append, blockCommentLength.eq_3, ih (passed + 1) later, List.length_cons]
    · omega
    · rintro tail rfl same
      cases body with
      | nil => simp at same
      | cons next body =>
        obtain ⟨rfl, -⟩ := List.cons.inj same
        exact open_ ⟨[], body ++ ['*'], by simp⟩

/-- A text in which a block comment does not end is the whole of it. -/
theorem blockCommentLength_open {text : List Char} (passed : Nat)
    (open_ : ¬['*', '/'] <:+: text) :
    blockCommentLength passed text = passed + text.length := by
  induction text generalizing passed with
  | nil => rfl
  | cons character text ih =>
    have later : ¬['*', '/'] <:+: text := fun inside =>
      open_ (inside.trans (List.suffix_cons character _).isInfix)
    rw [blockCommentLength.eq_3, ih (passed + 1) later, List.length_cons]
    · omega
    · rintro tail rfl rfl
      exact open_ ⟨[], tail, by simp⟩

/-- A text holds `*/`, and then it splits at the first one, or it does not. -/
theorem open_or_closed (text : List Char) :
    (¬['*', '/'] <:+: text) ∨
      ∃ body rest, text = body ++ '*' :: '/' :: rest ∧ ¬['*', '/'] <:+: body ++ ['*'] := by
  induction text with
  | nil => exact .inl (by simp)
  | cons character text ih =>
    by_cases here : ['*', '/'] <+: character :: text
    · obtain ⟨rest, same⟩ := here
      exact .inr ⟨[], rest, by simpa using same.symm, by decide⟩
    rcases ih with open_ | ⟨body, rest, rfl, open_⟩
    · left
      intro inside
      rcases List.infix_cons_iff.1 inside with first | later
      · exact here first
      · exact open_ later
    · refine .inr ⟨character :: body, rest, rfl, fun inside => ?_⟩
      rcases List.infix_cons_iff.1 inside with first | later
      · refine here ?_
        obtain ⟨tail, same⟩ := first
        cases body with
        | nil => simp at same
        | cons next body =>
          simp only [List.cons_append, List.nil_append, List.cons.injEq] at same
          obtain ⟨rfl, rfl, -⟩ := same
          exact ⟨body ++ '*' :: '/' :: rest, by simp⟩
      · exact open_ later

/-! ## Comments -/

/-- How a text begins with a comment: one that ends, or one that reaches to the end of the
text. A line comment is measured without its line feed. -/
inductive BeginsComment : List Char -> Nat -> Prop where
  | block {body : List Char} (rest : List Char) (open_ : ¬['*', '/'] <:+: body ++ ['*']) :
      BeginsComment ('/' :: '*' :: (body ++ '*' :: '/' :: rest)) (body.length + 4)
  | line {body : List Char} (rest : List Char) (oneLine : '\n' ∉ body) :
      BeginsComment ('/' :: '/' :: (body ++ '\n' :: rest)) (body.length + 2)
  | endless {text : List Char} (begun : 2 ≤ text.length) : BeginsComment text text.length

/-- A block comment that is closed once is as long as that. -/
theorem commentLength?_block {body : List Char} (rest : List Char)
    (open_ : ¬['*', '/'] <:+: body ++ ['*']) :
    commentLength? ('/' :: '*' :: (body ++ '*' :: '/' :: rest)) = some (body.length + 4) := by
  rw [commentLength?, blockCommentLength_closed 2 rest open_]
  congr 1
  omega

/-- A line comment ends before its line feed. -/
theorem commentLength?_line {body : List Char} (rest : List Char) (oneLine : '\n' ∉ body) :
    commentLength? ('/' :: '/' :: (body ++ '\n' :: rest)) = some (body.length + 2) := by
  have inside : ∀ character ∈ body, (character != '\n') = true := by
    intro character member
    simpa using fun same : character = '\n' => oneLine (same ▸ member)
  rw [commentLength?, List.takeWhile_append_of_pos inside]
  simp [Nat.add_comm]

/-- A comment that a text begins with is one of three kinds. -/
theorem beginsComment_of_commentLength? {text : List Char} {length : Nat}
    (found : commentLength? text = some length) : BeginsComment text length := by
  unfold commentLength? at found
  split at found
  · rename_i rest
    obtain rfl := Option.some.inj found
    by_cases feed : '\n' ∈ rest
    · obtain ⟨body, tail, rfl, oneLine⟩ := List.eq_append_cons_of_mem feed
      have found := commentLength?_line tail oneLine
      rw [commentLength?] at found
      rw [Option.some.inj found]
      exact .line tail oneLine
    · have whole : rest.takeWhile (· != '\n') = rest := by
        apply List.takeWhile_eq_self_iff.2
        intro character member
        simpa using fun same : character = '\n' => feed (same ▸ member)
      rw [whole]
      rw [show 2 + rest.length = ('/' :: '/' :: rest).length by simp; omega]
      exact .endless (by simp)
  · rename_i rest
    obtain rfl := Option.some.inj found
    rcases open_or_closed rest with open_ | ⟨body, tail, rfl, open_⟩
    · rw [blockCommentLength_open 2 open_]
      rw [show 2 + rest.length = ('/' :: '*' :: rest).length by simp; omega]
      exact .endless (by simp)
    · rw [blockCommentLength_closed 2 tail open_,
        show 2 + body.length + 2 = body.length + 4 by omega]
      exact .block tail open_
  · cases found

/-- A comment that a text begins with ends, or it reaches to the end of the text. -/
theorem comment_or_endless {text : List Char} {length : Nat}
    (found : commentLength? text = some length) :
    (∃ comment rest, text = comment ++ rest ∧ Comment comment) ∨ length = text.length := by
  cases beginsComment_of_commentLength? found with
  | @block body rest open_ => exact .inl ⟨_, rest, by simp, .block open_⟩
  | @line body rest oneLine => exact .inl ⟨_, rest, by simp, .line oneLine⟩
  | endless _ => exact .inr rfl

/-- A comment takes at least two characters of the text, and at most all of them. -/
theorem commentLength?_bounds {text : List Char} {length : Nat}
    (found : commentLength? text = some length) : 2 ≤ length ∧ length ≤ text.length := by
  cases beginsComment_of_commentLength? found with
  | block rest _ => simp only [List.length_cons, List.length_append]; omega
  | line rest _ => simp only [List.length_cons, List.length_append]; omega
  | endless begun => exact ⟨begun, Nat.le_refl _⟩

/-- Only a slash begins a comment. -/
theorem commentLength?_eq_none {character : Char} (rest : List Char) (other : character ≠ '/') :
    commentLength? (character :: rest) = none := by
  unfold commentLength?
  split <;> simp_all

/-- A slash that neither a slash nor an asterisk follows begins no comment. -/
theorem commentLength?_slash {next : Char} (rest : List Char) (slash : next ≠ '/')
    (asterisk : next ≠ '*') : commentLength? ('/' :: next :: rest) = none := by
  unfold commentLength?
  split <;> simp_all

/-- The second character of a comment tells its kind. -/
theorem Comment.exists_cons_cons {text : List Char} (comment : Comment text) :
    ∃ second rest, text = '/' :: second :: rest ∧ (second = '/' ∨ second = '*') := by
  cases comment with
  | block _ => exact ⟨'*', _, rfl, .inr rfl⟩
  | line _ => exact ⟨'/', _, rfl, .inl rfl⟩

/-- A text begins with at most one comment. -/
theorem Comment.unique {first second rest rest' : List Char} (comment : Comment first)
    (comment' : Comment second) (same : first ++ rest = second ++ rest') : first = second := by
  have blockLength {body : List Char} (tail : List Char) (open_ : ¬['*', '/'] <:+: body ++ ['*']) :
      commentLength? ('/' :: '*' :: (body ++ ['*', '/']) ++ tail) = some (body.length + 4) := by
    rw [← commentLength?_block tail open_]
    simp
  have lineLength {body : List Char} (tail : List Char) (oneLine : '\n' ∉ body) :
      commentLength? ('/' :: '/' :: (body ++ ['\n']) ++ tail) = some (body.length + 2) := by
    rw [← commentLength?_line tail oneLine]
    simp
  cases comment with
  | block open_ =>
    cases comment' with
    | block open_' =>
      have lengths := blockLength rest open_
      rw [same, blockLength rest' open_', Option.some.injEq] at lengths
      exact List.append_inj_left same (by simp; omega)
    | line _ => simp at same
  | line oneLine =>
    cases comment' with
    | block _ => simp at same
    | line oneLine' =>
      have lengths := lineLength rest oneLine
      rw [same, lineLength rest' oneLine', Option.some.injEq] at lengths
      exact List.append_inj_left same (by simp; omega)

/-! ## Gaps -/

/-- What is passed already counts for the length of blanks and comments. -/
theorem triviaLengthFrom_eq_add (pending passed : Nat) (text : List Char) :
    triviaLengthFrom pending passed text = passed + triviaLengthFrom pending 0 text := by
  induction text generalizing pending passed with
  | nil => simp [triviaLengthFrom]
  | cons character rest ih =>
    cases pending with
    | succ more =>
      rw [triviaLengthFrom, triviaLengthFrom, ih more (passed + 1), ih more (0 + 1)]
      omega
    | zero =>
      rw [triviaLengthFrom, triviaLengthFrom]
      split
      · rw [ih 0 (passed + 1), ih 0 (0 + 1)]
        omega
      · split
        · rw [ih _ (passed + 1), ih _ (0 + 1)]
          omega
        · omega

/-- A part that is settled is passed over. -/
theorem triviaLengthFrom_append (passed : Nat) (settled rest : List Char) :
    triviaLengthFrom settled.length passed (settled ++ rest) =
      passed + settled.length + triviaLength rest := by
  induction settled generalizing passed with
  | nil => exact triviaLengthFrom_eq_add 0 passed rest
  | cons character settled ih =>
    rw [List.cons_append, List.length_cons, triviaLengthFrom, ih]
    omega

/-- A blank is passed over. -/
theorem triviaLength_blank {character : Char} (rest : List Char)
    (blank : isBlank character = true) :
    triviaLength (character :: rest) = triviaLength rest + 1 := by
  rw [triviaLength, triviaLengthFrom, if_pos blank, triviaLengthFrom_eq_add, triviaLength]
  omega

/-- A comment that a text begins with is passed over as a whole. -/
theorem triviaLength_of_comment {text : List Char} {length : Nat}
    (found : commentLength? text = some length) :
    triviaLength text = length + triviaLength (text.drop length) := by
  obtain ⟨two, fits⟩ := commentLength?_bounds found
  cases text with
  | nil => simp only [List.length_nil] at fits; omega
  | cons character rest =>
    obtain ⟨more, rfl⟩ : ∃ more, length = more + 1 := ⟨length - 1, by omega⟩
    have solid : isBlank character = false := by
      by_cases slash : character = '/'
      · rw [slash]; rfl
      · rw [commentLength?_eq_none rest slash] at found; cases found
    have fits : more ≤ rest.length := by simpa using fits
    rw [triviaLength, triviaLengthFrom, solid, found]
    have skipped := triviaLengthFrom_append 1 (rest.take more) (rest.drop more)
    rw [List.take_append_drop, List.length_take_of_le fits] at skipped
    simp only [Bool.false_eq_true, if_false, List.drop_succ_cons, Nat.zero_add, skipped]
    omega

/-- Where neither a blank nor a comment stands, there is no gap. -/
theorem triviaLength_solid {character : Char} {rest : List Char}
    (solid : isBlank character = false) (plain : commentLength? (character :: rest) = none) :
    triviaLength (character :: rest) = 0 := by
  rw [triviaLength, triviaLengthFrom, solid, plain]
  simp

theorem drop_block (body rest : List Char) :
    ('/' :: '*' :: (body ++ '*' :: '/' :: rest)).drop (body.length + 4) = rest := by
  simp

theorem drop_line (body rest : List Char) :
    ('/' :: '/' :: (body ++ '\n' :: rest)).drop (body.length + 2) = '\n' :: rest := by
  simp

/-- A comment is passed over. -/
theorem triviaLength_comment {text : List Char} (rest : List Char) (comment : Comment text) :
    triviaLength (text ++ rest) = text.length + triviaLength rest := by
  cases comment with
  | @block body open_ =>
    have found := commentLength?_block rest open_
    have shape : '/' :: '*' :: (body ++ ['*', '/']) ++ rest =
        '/' :: '*' :: (body ++ '*' :: '/' :: rest) := by simp
    rw [shape, triviaLength_of_comment found, drop_block]
    simp
  | @line body oneLine =>
    have found := commentLength?_line rest oneLine
    have shape : '/' :: '/' :: (body ++ ['\n']) ++ rest =
        '/' :: '/' :: (body ++ '\n' :: rest) := by simp
    -- The comment is measured without its line feed, which is a blank of its own.
    rw [shape, triviaLength_of_comment found, drop_line, triviaLength_blank rest rfl]
    simp only [List.length_cons, List.length_append, List.length_nil]
    omega

/-- A gap is passed over as a whole. -/
theorem triviaLength_gap {gap : List Char} (rest : List Char) (isGap : Gap gap) :
    triviaLength (gap ++ rest) = gap.length + triviaLength rest := by
  induction isGap with
  | nil => simp
  | blank blank _ ih =>
    rw [List.cons_append, triviaLength_blank _ blank, ih, List.length_cons]
    omega
  | comment comment _ ih =>
    rw [List.append_assoc, triviaLength_comment _ comment, ih, List.length_append]
    omega

/-- What stands before the first character that is not passed over is a gap. -/
theorem exists_gap_of_triviaLength {text : List Char} {next : Char}
    (stops : (text.drop (triviaLength text)).head? = some next) :
    ∃ gap rest, text = gap ++ next :: rest ∧ Gap gap ∧ gap.length = triviaLength text := by
  induction size : text.length using Nat.strong_induction_on generalizing text with
  | _ size ih =>
    subst size
    cases text with
    | nil => simp at stops
    | cons character rest =>
      by_cases blank : isBlank character = true
      · rw [triviaLength_blank rest blank] at stops ⊢
        obtain ⟨gap, tail, rfl, isGap, same⟩ := ih rest.length (by simp) stops rfl
        exact ⟨character :: gap, tail, rfl, .blank blank isGap, by simp [same]⟩
      · cases found : commentLength? (character :: rest) with
        | none =>
          rw [triviaLength_solid (by simpa using blank) found] at stops ⊢
          obtain rfl : character = next := by simpa using stops
          exact ⟨[], rest, rfl, .nil, rfl⟩
        | some length =>
          rcases comment_or_endless found with ⟨comment, tail, same, isComment⟩ | whole
          · rw [same, triviaLength_comment tail isComment, ← List.drop_drop, List.drop_left]
              at stops
            rw [same, triviaLength_comment tail isComment]
            have shorter : tail.length < (character :: rest).length := by
              rw [same, List.length_append]
              exact Nat.lt_add_of_pos_left isComment.length_pos
            obtain ⟨gap, tail, rfl, isGap, measured⟩ := ih tail.length shorter stops rfl
            exact ⟨comment ++ gap, tail, by simp, .comment isComment isGap, by simp [measured]⟩
          · rw [triviaLength_of_comment found, ← List.drop_drop, whole, List.drop_length] at stops
            simp at stops

end Relink.Script
