import Relink.Script.Lexeme

/-!
# How far literals reach

Strings, templates and regexes are read in the same way: a backslash takes the character after it
along, and any other character ends the literal or is passed over. What holds for all of them is
shown once, for a literal whose characters `turn` decides upon.
-/

namespace Relink.Script

/-- What a literal does at a character. -/
inductive Turn (State : Type) where
  /-- The literal ends before the character. -/
  | stops
  /-- The literal ends with the character. -/
  | closes
  | passes (state : State)

/-- The length of a literal whose characters `turn` decides upon, escapes apart. -/
def literalLength {State : Type} (turn : State -> Char -> Turn State) (state : State)
    (passed : Nat) : List Char -> Nat
  | [] => passed
  | ['\\'] => passed + 1
  | '\\' :: _ :: rest => literalLength turn state (passed + 2) rest
  | character :: rest =>
    match turn state character with
    | .stops => passed
    | .closes => passed + 1
    | .passes state => literalLength turn state (passed + 1) rest

/-- A backslash stands alone or before a character. -/
theorem ne_escape {character : Char} {rest : List Char}
    (alone : character = '\\' -> rest = [] -> False)
    (followed : ∀ next tail, character = '\\' -> rest = next :: tail -> False) :
    character ≠ '\\' := by
  rintro rfl
  cases rest with
  | nil => exact alone rfl rfl
  | cons next tail => exact followed next tail rfl rfl

section Literals

variable {State : Type} {turn : State -> Char -> Turn State}

/-- A character that is no backslash takes its turn. -/
theorem literalLength_plain {character : Char} (state : State) (passed : Nat) (rest : List Char)
    (plain : character ≠ '\\') :
    literalLength turn state passed (character :: rest) =
      match turn state character with
      | .stops => passed
      | .closes => passed + 1
      | .passes state => literalLength turn state (passed + 1) rest := by
  rw [literalLength]
  · rintro rfl
    exact absurd rfl plain
  · rintro next tail rfl
    exact absurd rfl plain

/-- A literal lies in the text that is left. -/
theorem literalLength_bounds (turn : State -> Char -> Turn State) (state : State) (passed : Nat)
    (text : List Char) :
    passed ≤ literalLength turn state passed text ∧
      literalLength turn state passed text ≤ passed + text.length := by
  fun_induction literalLength turn state passed text with grind

/-- A literal that ends in a text does not depend on what follows. -/
theorem literalLength_within {state : State} {passed : Nat} {ahead rest : List Char}
    (within : literalLength turn state passed (ahead ++ rest) ≤ passed + ahead.length) :
    literalLength turn state passed ahead = literalLength turn state passed (ahead ++ rest) := by
  fun_induction literalLength turn state passed ahead with
  | case1 state passed => exact Nat.le_antisymm (literalLength_bounds turn state passed rest).1 within
  | case2 state passed =>
    cases rest with
    | nil => rfl
    | cons next rest =>
      -- The escape takes along what follows, so that the literal ends behind it.
      have least := (literalLength_bounds turn state (passed + 2) rest).1
      have most : literalLength turn state (passed + 2) rest ≤ passed + 1 := within
      omega
  | case3 state passed next ahead ih =>
    refine ih (Nat.le_trans within (Nat.le_of_eq ?_))
    simp only [List.length_cons]
    omega
  | case4 state passed character ahead alone followed turns =>
    rw [List.cons_append, literalLength_plain _ _ _ (ne_escape alone followed), turns]
  | case5 state passed character ahead alone followed turns =>
    rw [List.cons_append, literalLength_plain _ _ _ (ne_escape alone followed), turns]
  | case6 state passed character ahead alone followed next turns ih =>
    rw [List.cons_append, literalLength_plain _ _ _ (ne_escape alone followed), turns] at within ⊢
    refine ih (Nat.le_trans within (Nat.le_of_eq ?_))
    rw [List.length_cons]
    omega

/-- A literal that ends before a character does not depend on what is behind it, unless the
character is a backslash. -/
theorem literalLength_local {character : Char} (plain : character ≠ '\\') {state : State}
    {passed : Nat} {ahead rest : List Char}
    (within : literalLength turn state passed (ahead ++ character :: rest) ≤
      passed + ahead.length) (rest' : List Char) :
    literalLength turn state passed (ahead ++ character :: rest') =
      literalLength turn state passed (ahead ++ character :: rest) := by
  fun_induction literalLength turn state passed ahead with
  | case1 state passed =>
    rw [List.nil_append, literalLength_plain _ _ _ plain] at within ⊢
    rw [List.nil_append, literalLength_plain _ _ _ plain]
    cases turns : turn state character with
    | stops => rfl
    | closes => rfl
    | passes next =>
      rw [turns] at within
      have least := (literalLength_bounds turn next (passed + 1) rest).1
      exact absurd (Nat.le_trans least within) (Nat.not_succ_le_self passed)
  | case2 state passed =>
    have least := (literalLength_bounds turn state (passed + 2) rest).1
    exact absurd (Nat.le_trans least within) (Nat.not_succ_le_self (passed + 1))
  | case3 state passed next ahead ih =>
    refine ih (Nat.le_trans within (Nat.le_of_eq ?_))
    simp only [List.length_cons]
    omega
  | case4 state passed other ahead alone followed turns =>
    have solid := ne_escape alone followed
    rw [List.cons_append, List.cons_append, literalLength_plain _ _ _ solid,
      literalLength_plain _ _ _ solid, turns]
  | case5 state passed other ahead alone followed turns =>
    have solid := ne_escape alone followed
    rw [List.cons_append, List.cons_append, literalLength_plain _ _ _ solid,
      literalLength_plain _ _ _ solid, turns]
  | case6 state passed other ahead alone followed next turns ih =>
    have solid := ne_escape alone followed
    rw [List.cons_append, literalLength_plain _ _ _ solid, turns] at within
    rw [List.cons_append, List.cons_append, literalLength_plain _ _ _ solid,
      literalLength_plain _ _ _ solid, turns]
    refine ih (Nat.le_trans within (Nat.le_of_eq ?_))
    rw [List.length_cons]
    omega

end Literals

/-! ## Strings, templates and regexes -/

/-- What a string in quotes does at a character. -/
def stringTurn (quote : Char) (_ : Unit) (character : Char) : Turn Unit :=
  if character = '\n' then .stops else if character = quote then .closes else .passes ()

/-- What a template does at a character. -/
def templateTurn (_ : Unit) (character : Char) : Turn Unit :=
  if character = '\x60' then .closes else .passes ()

/-- What a regex does at a character, within a class of characters or outside of one. -/
def regexTurn (inClass : Bool) (character : Char) : Turn Bool :=
  if character = '\n' then .stops
  else if character = '[' then .passes true
  else if character = ']' then .passes false
  else if character = '/' && !inClass then .closes
  else .passes inClass

/-- A string is a literal that a line feed stops and its quote closes. -/
theorem stringLength_eq (quote : Char) (passed : Nat) (text : List Char) :
    stringLength quote passed text = literalLength (stringTurn quote) () passed text := by
  fun_induction stringLength quote passed text <;> simp_all [literalLength, stringTurn]

/-- A template is a literal that only a backtick closes. -/
theorem templateLength_eq (passed : Nat) (text : List Char) :
    templateLength passed text = literalLength templateTurn () passed text := by
  fun_induction templateLength passed text <;> simp_all [literalLength, templateTurn]

/-- A regex is a literal whose state is whether a class of characters is open. -/
theorem regexLength_eq (inClass : Bool) (passed : Nat) (text : List Char) :
    regexLength inClass passed text = literalLength regexTurn inClass passed text := by
  fun_induction regexLength inClass passed text with grind [literalLength, regexTurn]

/-- A string lies in the text that is left. -/
theorem stringLength_bounds (quote : Char) (passed : Nat) (text : List Char) :
    passed ≤ stringLength quote passed text ∧
      stringLength quote passed text ≤ passed + text.length := by
  rw [stringLength_eq]
  exact literalLength_bounds ..

/-- A template lies in the text that is left. -/
theorem templateLength_bounds (passed : Nat) (text : List Char) :
    passed ≤ templateLength passed text ∧ templateLength passed text ≤ passed + text.length := by
  rw [templateLength_eq]
  exact literalLength_bounds ..

/-- A regex lies in the text that is left. -/
theorem regexLength_bounds (inClass : Bool) (passed : Nat) (text : List Char) :
    passed ≤ regexLength inClass passed text ∧
      regexLength inClass passed text ≤ passed + text.length := by
  rw [regexLength_eq]
  exact literalLength_bounds ..

theorem stringLength_escape (quote next : Char) (passed : Nat) (rest : List Char) :
    stringLength quote passed ('\\' :: next :: rest) = stringLength quote (passed + 2) rest :=
  rfl

theorem templateLength_escape (next : Char) (passed : Nat) (rest : List Char) :
    templateLength passed ('\\' :: next :: rest) = templateLength (passed + 2) rest :=
  rfl

/-- One turn over a string, at a character that is no backslash. -/
theorem stringLength_plain {quote character : Char} (passed : Nat) (rest : List Char)
    (plain : character ≠ '\\') :
    stringLength quote passed (character :: rest) =
      if character = '\n' then passed
      else if character = quote then passed + 1
      else stringLength quote (passed + 1) rest := by
  rw [stringLength]
  · rintro rfl
    exact absurd rfl plain
  · rintro next tail rfl
    exact absurd rfl plain

/-- One turn over a template, at a character that is no backslash. -/
theorem templateLength_plain {character : Char} (passed : Nat) (rest : List Char)
    (plain : character ≠ '\\') :
    templateLength passed (character :: rest) =
      if character = '\x60' then passed + 1 else templateLength (passed + 1) rest := by
  rw [templateLength]
  · rintro rfl
    exact absurd rfl plain
  · rintro next tail rfl
    exact absurd rfl plain

end Relink.Script
