import Relink.Proofs.Script.Replacement

/-!
# A cursor over the units of a script

A scan can also be made with a position that moves over a list of units, as over the bytes of a
file. Then each look at a unit, and each cut between two positions, can fail, and a result `none`
stands for that. A loop ends as each of its turns moves the cursor ahead. Each function that moves
the cursor gives a result from every position of every list, and where it leaves the cursor is told
by the length of what the list function of the same name measures.
-/

namespace Relink.Script

/-- The units from `start` up to `stop`. The cut fails unless both are positions of the script,
in this order. -/
def between? (script : List Char) (start stop : Nat) : Option (List Char) :=
  if start ≤ stop ∧ stop ≤ script.length then some ((script.take stop).drop start) else none

/-- A cut between two places of the text does not fail, and is what lies between them. -/
theorem between?_eq_some {script : List Char} {start stop : Nat} (ordered : start ≤ stop)
    (within : stop ≤ script.length) :
    between? script start stop = some ((script.take stop).drop start) :=
  if_pos ⟨ordered, within⟩

/-- A cursor at `i`, with the units `rest` ahead of it. -/
structure Reads (script : List Char) (i : Nat) (rest : List Char) : Prop where
  within : i ≤ script.length
  drop_eq : script.drop i = rest

namespace Reads

variable {script first rest : List Char} {unit : Char} {i : Nat}

/-- What a text reads at a place is what is left after it. -/
theorem here (within : i ≤ script.length) : Reads script i (script.drop i) :=
  ⟨within, rfl⟩

/-- What is left makes up the rest of the length. -/
theorem length_eq (reads : Reads script i rest) : script.length = i + rest.length := by
  have shorter := List.length_drop (i := i) (l := script)
  have within := reads.within
  rw [reads.drop_eq] at shorter
  omega

/-- A look ahead sees what is left. -/
theorem getElem?_eq (reads : Reads script i rest) (ahead : Nat) :
    script[i + ahead]? = rest[ahead]? := by
  rw [← reads.drop_eq, List.getElem?_drop]

/-- What follows is read behind what is passed over. -/
theorem skip (reads : Reads script i (first ++ rest)) : Reads script (i + first.length) rest := by
  constructor
  · have := reads.length_eq
    rw [List.length_append] at this
    omega
  · rw [← List.drop_drop, reads.drop_eq, List.drop_left]

/-- Behind a part of what is left the rest of it is read. -/
theorem drop {length : Nat} (reads : Reads script i rest) (fits : length ≤ rest.length) :
    Reads script (i + length) (rest.drop length) := by
  have split : Reads script i (rest.take length ++ rest.drop length) := by
    rwa [List.take_append_drop]
  have skipped := split.skip
  rwa [List.length_take_of_le fits] at skipped

theorem next (reads : Reads script i (unit :: rest)) : Reads script (i + 1) rest :=
  @skip _ [unit] _ _ reads

theorem unit_eq (reads : Reads script i (unit :: rest)) : script[i]? = some unit :=
  reads.getElem?_eq 0

theorem next_eq (reads : Reads script i (unit :: rest)) : script[i + 1]? = rest.head? := by
  rw [reads.getElem?_eq 1, List.head?_eq_getElem?]
  rfl

/-- A place at which a unit is read lies in the text. -/
theorem lt (reads : Reads script i (unit :: rest)) : i < script.length := by
  have := reads.length_eq
  simp only [List.length_cons] at this
  omega

/-- A place where two units were seen reads these two. -/
theorem of_two {next : Char} (first : script[i]? = some unit)
    (second : script[i + 1]? = some next) :
    Reads script i (unit :: next :: script.drop (i + 2)) := by
  obtain ⟨inside, rfl⟩ := List.getElem?_eq_some_iff.1 first
  obtain ⟨inside', rfl⟩ := List.getElem?_eq_some_iff.1 second
  exact ⟨inside.le, by rw [List.drop_eq_getElem_cons inside, List.drop_eq_getElem_cons inside']⟩

theorem eq_length (reads : Reads script i []) : script.length = i := by
  simpa using reads.length_eq

/-- A cut over what is passed gives what is passed. -/
theorem between?_eq (reads : Reads script i (first ++ rest)) :
    between? script i (i + first.length) = some first := by
  have fits := reads.skip.within
  rw [between?, if_pos ⟨Nat.le_add_right .., fits⟩, List.drop_take, reads.drop_eq,
    Nat.add_sub_cancel_left, List.take_left]

end Reads

section Lexemes

variable {script rest : List Char} {unit quote : Char} {i start passed : Nat} {inClass : Bool}

/-! ## Comments -/

/-- The position of the line feed that ends a line comment. -/
def lineCommentEnd (script : List Char) (start : Nat) : Option Nat := do
  let rest ← between? script start script.length
  return match rest.findIdx? (· == '\n') with
    | some ahead => start + ahead
    | none => script.length

/-- How many units come before the first `*/`. -/
def closing? : List Char -> Option Nat
  | [] => none
  | '*' :: '/' :: _ => some 0
  | _ :: rest => (closing? rest).map (· + 1)

/-- The position after a block comment. -/
def blockCommentEnd (script : List Char) (start : Nat) : Nat :=
  match closing? (script.drop (start + 2)) with
  | some ahead => start + 2 + ahead + 2
  | none => script.length

/-- A line is as long as the place of its first line break, or as the text. -/
theorem length_takeWhile_line (text : List Char) :
    (text.takeWhile (· != '\n')).length = (text.findIdx? (· == '\n')).getD text.length := by
  induction text with
  | nil => rfl
  | cons unit rest ih =>
    by_cases feed : unit = '\n'
    · simp [feed, List.findIdx?_cons]
    · rw [List.takeWhile_cons_of_pos (by simpa using feed), List.length_cons, ih,
        List.findIdx?_cons]
      cases rest.findIdx? (· == '\n') <;> simp [feed]

/-- A block comment ends behind its closing, or with the text. -/
theorem blockCommentLength_closing (passed : Nat) (text : List Char) :
    blockCommentLength passed text =
      passed + ((closing? text).map (· + 2)).getD text.length := by
  fun_induction blockCommentLength passed text with
  | case1 => rfl
  | case2 => rfl
  | case3 passed unit rest open_ ih =>
    rw [ih, closing?.eq_3 _ _ open_, List.length_cons]
    cases closing? rest <;> simp <;> omega

/-- A line comment ends in front of the next line break. -/
theorem lineCommentEnd_eq (reads : Reads script i ('/' :: '/' :: rest)) :
    lineCommentEnd script i = some (i + (2 + (rest.takeWhile (· != '\n')).length)) := by
  have whole : between? script i script.length = some ('/' :: '/' :: rest) := by
    have all : Reads script i ('/' :: '/' :: rest ++ []) := by simpa using reads
    rw [reads.length_eq]
    exact all.between?_eq
  have ends := reads.length_eq
  rw [lineCommentEnd, whole, length_takeWhile_line]
  simp only [Option.bind_eq_bind, Option.bind_some, Option.pure_def, Option.some.injEq,
    List.findIdx?_cons]
  cases rest.findIdx? (· == '\n') <;> simp at ends ⊢ <;> omega

/-- The place where a block comment ends is told by its length. -/
theorem blockCommentEnd_eq (reads : Reads script i ('/' :: '*' :: rest)) :
    blockCommentEnd script i = i + blockCommentLength 2 rest := by
  have ends := reads.length_eq
  rw [blockCommentEnd, reads.next.next.drop_eq, blockCommentLength_closing]
  cases closing? rest <;> simp at ends ⊢ <;> omega

/-! ## Strings, templates and regular expressions -/

/-- Passes over a string that `quote` opened. -/
def stringEndFrom (script : List Char) (quote : Char) (i : Nat) : Option Nat :=
  if i < script.length then do
    let unit ← script[i]?
    if unit = '\\' then stringEndFrom script quote (i + 2)
    else if unit = '\n' then return i
    else if unit = quote then return i + 1
    else stringEndFrom script quote (i + 1)
  else return script.length
termination_by script.length - i

/-- The position after a string. -/
def stringEnd (script : List Char) (start : Nat) : Option Nat := do
  let quote ← script[start]?
  stringEndFrom script quote (start + 1)

/-- Passes over a template. -/
def templateEndFrom (script : List Char) (i : Nat) : Option Nat :=
  if i < script.length then do
    let unit ← script[i]?
    if unit = '\\' then templateEndFrom script (i + 2)
    else if unit = '\x60' then return i + 1
    else templateEndFrom script (i + 1)
  else return script.length
termination_by script.length - i

/-- Passes over a regular expression. -/
def regexEndFrom (script : List Char) (inClass : Bool) (i : Nat) : Option Nat :=
  if i < script.length then do
    let unit ← script[i]?
    if unit = '\\' then regexEndFrom script inClass (i + 2)
    else if unit = '\n' then return i
    else if unit = '[' then regexEndFrom script true (i + 1)
    else if unit = ']' then regexEndFrom script false (i + 1)
    else if unit = '/' && !inClass then return i + 1
    else regexEndFrom script inClass (i + 1)
  else return script.length
termination_by script.length - i

/-- Behind the text a string ends where the text does. -/
theorem stringEndFrom_past (past : script.length ≤ i) :
    stringEndFrom script quote i = some script.length := by
  rw [stringEndFrom, if_neg (Nat.not_lt.2 past)]
  rfl

theorem templateEndFrom_past (past : script.length ≤ i) :
    templateEndFrom script i = some script.length := by
  rw [templateEndFrom, if_neg (Nat.not_lt.2 past)]
  rfl

theorem regexEndFrom_past (past : script.length ≤ i) :
    regexEndFrom script inClass i = some script.length := by
  rw [regexEndFrom, if_neg (Nat.not_lt.2 past)]
  rfl

/-- One turn of the loop over a string. -/
theorem stringEndFrom_unit (reads : Reads script i (unit :: rest)) :
    stringEndFrom script quote i =
      if unit = '\\' then stringEndFrom script quote (i + 2)
      else if unit = '\n' then some i
      else if unit = quote then some (i + 1)
      else stringEndFrom script quote (i + 1) := by
  rw [stringEndFrom, if_pos reads.lt, reads.unit_eq]
  rfl

/-- One turn of the loop over a template. -/
theorem templateEndFrom_unit (reads : Reads script i (unit :: rest)) :
    templateEndFrom script i =
      if unit = '\\' then templateEndFrom script (i + 2)
      else if unit = '\x60' then some (i + 1)
      else templateEndFrom script (i + 1) := by
  rw [templateEndFrom, if_pos reads.lt, reads.unit_eq]
  rfl

/-- One turn of the loop over a regex. -/
theorem regexEndFrom_unit (reads : Reads script i (unit :: rest)) :
    regexEndFrom script inClass i =
      if unit = '\\' then regexEndFrom script inClass (i + 2)
      else if unit = '\n' then some i
      else if unit = '[' then regexEndFrom script true (i + 1)
      else if unit = ']' then regexEndFrom script false (i + 1)
      else if unit = '/' && !inClass then some (i + 1)
      else regexEndFrom script inClass (i + 1) := by
  rw [regexEndFrom, if_pos reads.lt, reads.unit_eq]
  rfl

/-- An escape may carry the cursor past the end of the script, where the loop ends. -/
theorem stringEndFrom_eq (reads : Reads script (start + passed) rest) :
    stringEndFrom script quote (start + passed) =
      some (start + stringLength quote passed rest) := by
  fun_induction stringLength quote passed rest with
  | case1 passed => rw [stringEndFrom_past reads.eq_length.le, reads.eq_length]
  | case2 passed =>
    have ends := reads.next.eq_length
    rw [stringEndFrom_unit reads, if_pos rfl, stringEndFrom_past (by omega), ends]
    rfl
  | case3 passed next rest ih =>
    rw [stringEndFrom_unit reads, if_pos rfl]
    exact ih reads.next.next
  | case4 =>
    rw [stringEndFrom_unit reads, if_neg (by decide), if_pos rfl]
  | case5 _ _ alone followed line =>
    rw [stringEndFrom_unit reads, if_neg (ne_escape alone followed), if_neg line, if_pos rfl]
    rfl
  | case6 _ _ _ alone followed line other ih =>
    rw [stringEndFrom_unit reads, if_neg (ne_escape alone followed), if_neg line, if_neg other]
    exact ih reads.next

/-- The place where a string ends is told by its length, and no index of the loop fails. -/
theorem stringEnd_eq (reads : Reads script i (quote :: rest)) :
    stringEnd script i = some (i + stringLength quote 1 rest) := by
  rw [stringEnd, reads.unit_eq]
  exact stringEndFrom_eq reads.next

/-- The place where a template ends is told by its length, and no index of the loop fails. -/
theorem templateEndFrom_eq (reads : Reads script (start + passed) rest) :
    templateEndFrom script (start + passed) = some (start + templateLength passed rest) := by
  fun_induction templateLength passed rest with
  | case1 passed => rw [templateEndFrom_past reads.eq_length.le, reads.eq_length]
  | case2 passed =>
    have ends := reads.next.eq_length
    rw [templateEndFrom_unit reads, if_pos rfl, templateEndFrom_past (by omega), ends]
    rfl
  | case3 passed next rest ih =>
    rw [templateEndFrom_unit reads, if_pos rfl]
    exact ih reads.next.next
  | case4 _ _ alone followed =>
    rw [templateEndFrom_unit reads, if_neg (ne_escape alone followed), if_pos rfl]
    rfl
  | case5 _ _ _ alone followed other ih =>
    rw [templateEndFrom_unit reads, if_neg (ne_escape alone followed), if_neg other]
    exact ih reads.next

/-- The place where a regex ends is told by its length, and no index of the loop fails. -/
theorem regexEndFrom_eq (reads : Reads script (start + passed) rest) :
    regexEndFrom script inClass (start + passed) =
      some (start + regexLength inClass passed rest) := by
  fun_induction regexLength inClass passed rest with
  | case1 inClass passed => rw [regexEndFrom_past reads.eq_length.le, reads.eq_length]
  | case2 inClass passed =>
    have ends := reads.next.eq_length
    rw [regexEndFrom_unit reads, if_pos rfl, regexEndFrom_past (by omega), ends]
    rfl
  | case3 inClass passed next rest ih =>
    rw [regexEndFrom_unit reads, if_pos rfl]
    exact ih reads.next.next
  | case4 _ _ _ alone followed =>
    rw [regexEndFrom_unit reads, if_neg (ne_escape alone followed), if_pos rfl]
  | case5 _ _ _ alone followed line ih =>
    rw [regexEndFrom_unit reads, if_neg (ne_escape alone followed), if_neg line, if_pos rfl]
    exact ih reads.next
  | case6 _ _ _ alone followed line opens ih =>
    rw [regexEndFrom_unit reads, if_neg (ne_escape alone followed), if_neg line, if_neg opens,
      if_pos rfl]
    exact ih reads.next
  | case7 _ _ _ _ alone followed line opens closes ends =>
    rw [regexEndFrom_unit reads, if_neg (ne_escape alone followed), if_neg line, if_neg opens,
      if_neg closes, if_pos ends]
    rfl
  | case8 _ _ _ _ alone followed line opens closes inside ih =>
    rw [regexEndFrom_unit reads, if_neg (ne_escape alone followed), if_neg line, if_neg opens,
      if_neg closes, if_neg inside]
    exact ih reads.next

/-! ## Looking back -/

/-- Moves back over the blanks before `i`. -/
def blanksStart (script : List Char) : Nat -> Option Nat
  | 0 => return 0
  | i + 1 => do
    let unit ← script[i]?
    if isBlank unit then blanksStart script i else return i + 1

/-- Moves back over the word before `i`. -/
def wordStart (script : List Char) : Nat -> Option Nat
  | 0 => return 0
  | i + 1 => do
    let unit ← script[i]?
    if isWord unit then wordStart script i else return i + 1

/-- Whether a slash at `i` opens a regular expression. -/
def opensRegexAt (script : List Char) (i : Nat) : Option Bool := do
  let stop ← blanksStart script i
  if stop = 0 then return true
  else
    let unit ← script[stop - 1]?
    if isOperator unit then return true
    else if isWord unit then
      let start ← wordStart script stop
      let word ← between? script start stop
      return operatorWords.contains (String.ofList word)
    else return false

theorem reverse_take_succ (within : i < script.length) :
    (script.take (i + 1)).reverse = script[i] :: (script.take i).reverse := by
  rw [List.take_succ_eq_append_getElem within, List.reverse_append]
  rfl

/-- The walk back over blanks ends where the reversed text has its first character that is none. -/
theorem blanksStart_eq (within : i ≤ script.length) :
    ∃ stop ≤ i, blanksStart script i = some stop ∧
      (script.take i).reverse.dropWhile isBlank = (script.take stop).reverse := by
  induction i with
  | zero => exact ⟨0, Nat.le_refl 0, rfl, rfl⟩
  | succ i ih =>
    have inside : i < script.length := within
    rw [blanksStart, List.getElem?_eq_getElem inside, reverse_take_succ inside]
    simp only [Option.bind_eq_bind, Option.bind_some]
    by_cases blank : isBlank script[i] = true
    · obtain ⟨stop, before, moved, same⟩ := ih inside.le
      rw [if_pos blank, List.dropWhile_cons_of_pos blank]
      exact ⟨stop, Nat.le_succ_of_le before, moved, same⟩
    · rw [if_neg blank, List.dropWhile_cons_of_neg blank, ← reverse_take_succ inside]
      exact ⟨i + 1, Nat.le_refl _, rfl, rfl⟩

/-- The walk back over a word ends in front of the word, which lies between. -/
theorem wordStart_eq (within : i ≤ script.length) :
    ∃ start ≤ i, wordStart script i = some start ∧
      ((script.take i).reverse.takeWhile isWord).reverse = (script.take i).drop start := by
  induction i with
  | zero => exact ⟨0, Nat.le_refl 0, rfl, rfl⟩
  | succ i ih =>
    have inside : i < script.length := within
    rw [wordStart, List.getElem?_eq_getElem inside, reverse_take_succ inside]
    simp only [Option.bind_eq_bind, Option.bind_some]
    by_cases part : isWord script[i] = true
    · obtain ⟨start, before, moved, same⟩ := ih inside.le
      refine ⟨start, Nat.le_succ_of_le before, by rw [if_pos part, moved], ?_⟩
      rw [List.takeWhile_cons_of_pos part, List.reverse_cons, same,
        List.take_succ_eq_append_getElem inside, List.drop_append_of_le_length]
      rw [List.length_take]
      omega
    · rw [if_neg part, List.takeWhile_cons_of_neg part]
      refine ⟨i + 1, Nat.le_refl _, rfl, ?_⟩
      rw [List.drop_eq_nil_of_le (List.length_take_le ..)]
      rfl

/-- Looking back by indices finds what looking back over the reversed text does. -/
theorem opensRegexAt_eq (within : i ≤ script.length) :
    opensRegexAt script i = some (slashOpensRegex (script.take i).reverse) := by
  obtain ⟨stop, before, moved, solid⟩ := blanksStart_eq within
  rw [opensRegexAt, moved, slashOpensRegex, solid]
  simp only [Option.bind_eq_bind, Option.bind_some]
  cases stop with
  | zero => rfl
  | succ last =>
    have inside : last < script.length := by omega
    obtain ⟨start, first, moved, word⟩ := wordStart_eq (by omega : last + 1 ≤ script.length)
    rw [reverse_take_succ inside] at word
    rw [if_neg (Nat.succ_ne_zero last), Nat.add_sub_cancel, List.getElem?_eq_getElem inside,
      reverse_take_succ inside, moved]
    simp only [Option.bind_some, Option.pure_def]
    by_cases operator : isOperator script[last] = true
    · rw [if_pos operator, operator, Bool.true_or]
    · rw [if_neg operator, Bool.eq_false_iff.2 operator, Bool.false_or]
      by_cases part : isWord script[last] = true
      · rw [if_pos part, between?_eq_some first inside, word]
        rfl
      · rw [if_neg part, List.takeWhile_cons_of_neg part]
        rfl

/-! ## Lexemes and gaps -/

/-- The position after the comment or literal that begins at `i`, if one begins there. -/
def lexemeEnd? (script : List Char) (i : Nat) : Option (Option Nat) := do
  let unit ← script[i]?
  let next := script[i + 1]?
  if unit = '/' ∧ next = some '/' then return some (← lineCommentEnd script i)
  else if unit = '/' ∧ next = some '*' then return some (blockCommentEnd script i)
  else if isQuote unit then return some (← stringEnd script i)
  else if unit = '\x60' then return some (← templateEndFrom script (i + 1))
  else if unit = '/' then
    if ← opensRegexAt script i then return some (← regexEndFrom script false (i + 1))
    else return none
  else return none

/-- A line comment ends behind its first slash. -/
theorem lt_lineCommentEnd {stop : Nat} (first : script[i]? = some '/')
    (second : script[i + 1]? = some '/') (moved : lineCommentEnd script i = some stop) :
    i < stop := by
  rw [lineCommentEnd_eq (.of_two first second), Option.some.injEq] at moved
  omega

/-- A block comment ends behind the place where it begins. -/
theorem lt_blockCommentEnd (inside : i < script.length) : i < blockCommentEnd script i := by
  unfold blockCommentEnd
  split <;> omega

/-- Passes over blanks and comments. -/
def triviaEnd (script : List Char) (i : Nat) : Option Nat :=
  if i < script.length then
    -- What each look finds is kept for the proof that the cursor moves ahead.
    match _ : script[i]? with
    | none => none
    | some unit =>
      if isBlank unit then triviaEnd script (i + 1)
      else if unit = '/' ∧ script[i + 1]? = some '/' then
        match _ : lineCommentEnd script i with
        | none => none
        | some stop => triviaEnd script stop
      else if unit = '/' ∧ script[i + 1]? = some '*' then
        triviaEnd script (blockCommentEnd script i)
      else some i
  else some i
termination_by script.length - i
decreasing_by
  · omega
  · rename_i look _ mark moved
    have ahead := lt_lineCommentEnd (mark.1 ▸ look) mark.2 moved
    omega
  · have ahead := lt_blockCommentEnd ‹i < script.length›
    omega

/-- What the first two units of a text tell of a comment. -/
inductive CommentMark : Char -> List Char -> Prop where
  | line (tail : List Char) : CommentMark '/' ('/' :: tail)
  | block (tail : List Char) : CommentMark '/' ('*' :: tail)
  | other {unit : Char} {rest : List Char} (noComment : commentLength? (unit :: rest) = none)
      (noLine : ¬(unit = '/' ∧ rest.head? = some '/'))
      (noBlock : ¬(unit = '/' ∧ rest.head? = some '*')) : CommentMark unit rest

/-- A unit and what follows it begin a line comment, a block comment, or neither. -/
theorem commentMark (unit : Char) (rest : List Char) : CommentMark unit rest := by
  by_cases slash : unit = '/'
  · subst slash
    cases rest with
    | nil => exact .other rfl (by simp) (by simp)
    | cons next tail =>
      by_cases line : next = '/'
      · exact line ▸ .line tail
      · by_cases block : next = '*'
        · exact block ▸ .block tail
        · exact .other (commentLength?_slash tail line block) (by simpa using line)
            (by simpa using block)
  · exact .other (commentLength?_eq_none rest slash) (by simp [slash]) (by simp [slash])

/-- The cursor passes over a lexeme as far as it is long. -/
theorem lexemeEnd?_eq (reads : Reads script i (unit :: rest)) :
    lexemeEnd? script i =
      some ((lexemeLength? (script.take i).reverse (unit :: rest)).map (i + ·)) := by
  rw [lexemeEnd?, reads.unit_eq, reads.next_eq]
  simp only [Option.bind_eq_bind, Option.bind_some]
  cases commentMark unit rest with
  | line tail =>
    rw [if_pos ⟨rfl, rfl⟩, lineCommentEnd_eq reads]
    rfl
  | block tail =>
    rw [if_neg (by simp), if_pos ⟨rfl, rfl⟩, blockCommentEnd_eq reads]
    rfl
  | other noComment noLine noBlock =>
    rw [if_neg noLine, if_neg noBlock]
    by_cases marked : isMark unit = true
    · simp only [isMark, Script.isQuote, Bool.or_eq_true, beq_iff_eq] at marked
      rcases marked with (rfl | rfl | rfl) | rfl
      · rw [if_neg (by decide), if_neg (by decide), if_pos rfl, opensRegexAt_eq reads.within,
          lexemeLength?, noComment]
        simp only [Option.bind_some]
        split
        · rw [regexEndFrom_eq reads.next]
          rfl
        · rfl
      · rw [if_pos (by decide), stringEnd_eq reads]
        rfl
      · rw [if_pos (by decide), stringEnd_eq reads]
        rfl
      · rw [if_neg (by decide), if_pos rfl, templateEndFrom_eq reads.next]
        rfl
    · rw [Bool.not_eq_true] at marked
      have plain := marked
      simp only [isMark, Bool.or_eq_false_iff, beq_eq_false_iff_ne] at plain
      rw [plain.1.2, if_neg (by decide), if_neg plain.2, if_neg plain.1.1,
        lexemeLength?_plain _ _ marked]
      rfl

theorem triviaEnd_past (past : script.length ≤ i) : triviaEnd script i = some i := by
  rw [triviaEnd, if_neg (Nat.not_lt.2 past)]

/-- One turn of the loop over blanks and comments. -/
theorem triviaEnd_unit (reads : Reads script i (unit :: rest)) :
    triviaEnd script i =
      if isBlank unit then triviaEnd script (i + 1)
      else if unit = '/' ∧ rest.head? = some '/' then
        (lineCommentEnd script i).bind (triviaEnd script)
      else if unit = '/' ∧ rest.head? = some '*' then triviaEnd script (blockCommentEnd script i)
      else some i := by
  rw [triviaEnd, if_pos reads.lt, reads.unit_eq, reads.next_eq]
  cases lineCommentEnd script i <;> rfl

/-- The place where blanks and comments end is told by their length. -/
theorem triviaEnd_eq (reads : Reads script i rest) :
    triviaEnd script i = some (i + triviaLength rest) := by
  induction size : rest.length using Nat.strong_induction_on generalizing i rest with
  | _ size ih =>
    subst size
    cases rest with
    | nil =>
      rw [triviaEnd_past reads.eq_length.le]
      rfl
    | cons unit rest =>
      have comment {length : Nat} (found : commentLength? (unit :: rest) = some length) :
          triviaEnd script (i + length) = some (i + triviaLength (unit :: rest)) := by
        obtain ⟨two, fits⟩ := commentLength?_bounds found
        rw [ih _ (by rw [List.length_drop]; omega) (reads.drop fits) rfl,
          triviaLength_of_comment found, Nat.add_assoc]
      rw [triviaEnd_unit reads]
      by_cases blank : isBlank unit = true
      · rw [if_pos blank, triviaLength_blank rest blank, ih _ (by simp) reads.next rfl,
          Nat.add_right_comm, Nat.add_assoc]
      rw [if_neg blank]
      cases commentMark unit rest with
      | line tail =>
        rw [if_pos ⟨rfl, rfl⟩, lineCommentEnd_eq reads]
        exact comment rfl
      | block tail =>
        rw [if_neg (by simp), if_pos ⟨rfl, rfl⟩, blockCommentEnd_eq reads]
        exact comment rfl
      | other noComment noLine noBlock =>
        rw [if_neg noLine, if_neg noBlock, triviaLength_solid (Bool.eq_false_iff.2 blank) noComment]
        rfl

/-- The cursor moves over a comment. -/
theorem lt_triviaEnd {stop : Nat} (first : script[i]? = some '/')
    (second : script[i + 1]? = some '/' ∨ script[i + 1]? = some '*')
    (moved : triviaEnd script i = some stop) : i < stop := by
  have filled {next : Char} (reads : Reads script i ('/' :: next :: script.drop (i + 2)))
      {length : Nat} (found : commentLength? ('/' :: next :: script.drop (i + 2)) = some length) :
      i < stop := by
    have two := (commentLength?_bounds found).1
    rw [triviaEnd_eq reads, Option.some.injEq, triviaLength_of_comment found] at moved
    omega
  rcases second with line | block
  · exact filled (.of_two first line) rfl
  · exact filled (.of_two first block) rfl

theorem triviaLengthFrom_le (pending passed : Nat) (text : List Char) :
    triviaLengthFrom pending passed text ≤ passed + text.length := by
  fun_induction triviaLengthFrom pending passed text with grind

/-- Blanks and comments lie in the text. -/
theorem triviaLength_le (text : List Char) : triviaLength text ≤ text.length := by
  have bound := triviaLengthFrom_le 0 0 text
  rwa [Nat.zero_add] at bound

/-- What stands after the blanks and comments ahead. -/
theorem Reads.head?_trivia (reads : Reads script i rest) :
    script[i + triviaLength rest]? = (rest.drop (triviaLength rest)).head? := by
  rw [List.head?_eq_getElem?]
  exact (reads.drop (triviaLength_le rest)).getElem?_eq 0

/-- Where a unit follows them, blanks and comments end within the text. -/
theorem triviaLength_lt (found : (rest.drop (triviaLength rest)).head? = some unit) :
    triviaLength rest < rest.length := by
  by_contra past
  rw [List.drop_eq_nil_of_le (Nat.not_lt.1 past)] at found
  cases found

end Lexemes

end Relink.Script
