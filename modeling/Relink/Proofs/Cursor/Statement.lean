import Relink.Proofs.Cursor.Lexeme
import Relink.Proofs.Script.Opening

/-!
# A cursor over statements

The statement that begins at a position: its keyword, what leads to the quote, and the quoted
specifier. A statement that names no module is told apart from a fault: the one is an answer
`none`, the other is no answer.
-/

namespace Relink.Script

/-- Where a quoted specifier stands: its first unit, its closing quote, and what follows. -/
structure Span where
  start : Nat
  stop : Nat
  next : Nat
deriving DecidableEq, Repr

/-- The span of a specifier whose opening quote stands at `i`. -/
def Span.quotedAt (i : Nat) (specifier : List Char) : Span :=
  ⟨i + 1, i + 1 + specifier.length, i + 1 + specifier.length + 1⟩

section Statements

variable {script rest : List Char} {unit quote : Char} {i start : Nat}

/-! ## Words -/

/-- Whether the unit before `i` keeps a word from beginning there. -/
def insideAt (script : List Char) (i : Nat) : Option Bool :=
  if 0 < i then (script[i - 1]?).map fun unit => isWord unit || unit == '.' else some false

/-- Whether a word goes on at `i`. -/
def goesOnAt (script : List Char) (i : Nat) : Option Bool :=
  if i < script.length then (script[i]?).map isWord else some false

/-- Whether `word` stands at `i`, and is neither a part of a longer word nor the name of a
property. -/
def wordAt (script : List Char) (i : Nat) (word : List Char) : Option Bool := do
  if script.length < i + word.length then
    return false
  let units ← between? script i (i + word.length)
  if units ≠ word then
    return false
  if ← insideAt script i then
    return false
  return !(← goesOnAt script (i + word.length))

/-- A place lies inside a word if the character before it says so. -/
theorem insideAt_eq (within : i ≤ script.length) :
    insideAt script i =
      some ((script.take i).getLast?.any fun unit => isWord unit || unit == '.') := by
  rw [insideAt, List.getLast?_take]
  split
  · rename_i after
    rw [if_neg after.ne', List.getElem?_eq_getElem (by omega)]
    rfl
  · rename_i first
    rw [if_pos (by omega)]
    rfl

/-- A word goes on at a place if the character there is part of one. -/
theorem goesOnAt_eq (reads : Reads script i rest) :
    goesOnAt script i = some (rest.head?.any isWord) := by
  cases rest with
  | nil =>
    rw [goesOnAt, if_neg (by rw [reads.eq_length]; exact Nat.lt_irrefl i)]
    rfl
  | cons unit rest =>
    rw [goesOnAt, if_pos reads.lt, reads.unit_eq]
    rfl

/-- A word is seen at a place exactly if what is left begins with it, and no index fails. -/
theorem wordAt_eq (reads : Reads script i rest) (word : List Char) :
    wordAt script i word = some (beginsWithWord (script.take i).getLast? word rest) := by
  have fits := reads.length_eq
  unfold wordAt beginsWithWord
  by_cases long : script.length < i + word.length
  · have other : word.isPrefixOf rest = false := by
      rw [Bool.eq_false_iff, ne_eq, List.isPrefixOf_iff_prefix]
      intro first
      have := first.length_le
      omega
    rw [if_pos long, other]
    rfl
  have cut : between? script i (i + word.length) = some (rest.take word.length) := by
    rw [between?_eq_some (Nat.le_add_right ..) (by omega), List.drop_take, reads.drop_eq,
      Nat.add_sub_cancel_left]
  rw [if_neg long, cut]
  simp only [Option.bind_eq_bind, Option.bind_some]
  by_cases same : rest.take word.length = word
  · have after := reads.drop (by omega : word.length ≤ rest.length)
    have begins : word.isPrefixOf rest = true := by
      rw [List.isPrefixOf_iff_prefix, ← same]
      exact List.take_prefix ..
    rw [if_neg (by simpa using same), insideAt_eq reads.within, goesOnAt_eq after, begins]
    simp only [Option.bind_some]
    split
    · rename_i inside
      rw [inside]
      rfl
    · rename_i outside
      rw [Bool.eq_false_iff.2 outside]
      rfl
  · have other : word.isPrefixOf rest = false := by
      rw [Bool.eq_false_iff, ne_eq, List.isPrefixOf_iff_prefix]
      exact fun first => same (List.prefix_iff_eq_take.1 first).symm
    rw [if_pos same, other]
    rfl

/-! ## Quoted specifiers -/

/-- Passes over the specifier that begins at `start`, up to its quote. -/
def quotedFrom (script : List Char) (quote : Char) (start i : Nat) : Option (Option Span) :=
  if i < script.length then do
    let unit ← script[i]?
    if unit = quote then
      if i = start then return none
      else return some ⟨start, i, i + 1⟩
    else if isBlank unit || isQuote unit then return none
    else quotedFrom script quote start (i + 1)
  else return none
termination_by script.length - i

/-- The quoted specifier at `i`. -/
def quotedAt (script : List Char) (i : Nat) : Option (Option Span) :=
  match script[i]? with
  | none => some none
  | some quote => if isQuote quote then quotedFrom script quote (i + 1) (i + 1) else some none

/-- One turn of the loop over a quoted specifier. -/
theorem quotedFrom_unit (reads : Reads script i (unit :: rest)) :
    quotedFrom script quote start i =
      if unit = quote then if i = start then some none else some (some ⟨start, i, i + 1⟩)
      else if isBlank unit || isQuote unit then some none
      else quotedFrom script quote start (i + 1) := by
  rw [quotedFrom, if_pos reads.lt, reads.unit_eq]
  rfl

theorem quotedFrom_past (past : script.length ≤ i) :
    quotedFrom script quote start i = some none := by
  rw [quotedFrom, if_neg (Nat.not_lt.2 past)]
  rfl

/-- The characters of a specifier are passed over. -/
theorem quotedFrom_skip {specifier : List Char} (quoted : isQuote quote = true)
    (reads : Reads script i (specifier ++ rest))
    (plain : ∀ unit ∈ specifier, isSpecifierCharacter unit = true) :
    quotedFrom script quote start i = quotedFrom script quote start (i + specifier.length) := by
  induction specifier generalizing i with
  | nil => rfl
  | cons unit specifier ih =>
    have inside := plain unit (List.mem_cons_self ..)
    have open_ : unit ≠ quote := by
      rintro rfl
      exact quote_not_mem quoted plain (List.mem_cons_self ..)
    rw [isSpecifierCharacter, ← Bool.not_or, Bool.not_eq_true'] at inside
    rw [quotedFrom_unit reads, if_neg open_, inside, if_neg (by decide),
      ih reads.next fun other member => plain other (List.mem_cons_of_mem _ member),
      List.length_cons, Nat.add_right_comm, Nat.add_assoc]

/-- A specifier ends at the first character that it cannot hold. -/
theorem quotedFrom_end (reads : Reads script i rest)
    (ends : rest.head?.all fun unit => !isSpecifierCharacter unit) :
    quotedFrom script quote start i =
      some (if rest.head? = some quote ∧ i ≠ start then some ⟨start, i, i + 1⟩ else none) := by
  cases rest with
  | nil => exact quotedFrom_past reads.eq_length.le
  | cons unit rest =>
    rw [quotedFrom_unit reads]
    by_cases closes : unit = quote
    · by_cases first : i = start <;> simp [closes, first]
    · have foreign : (isBlank unit || isQuote unit) = true := by
        simpa [isSpecifierCharacter, Decidable.or_iff_not_imp_left] using ends
      rw [if_neg closes, if_pos foreign, if_neg (by simp [closes])]

/-- The quoted specifier at a place is the one that what is left begins with. -/
theorem quotedAt_eq (reads : Reads script i rest) :
    quotedAt script i = some ((quotedSpecifier? rest).map (Span.quotedAt i)) := by
  cases rest with
  | nil =>
    rw [quotedAt, List.getElem?_eq_none reads.eq_length.le]
    rfl
  | cons quote rest =>
    rw [quotedAt, reads.unit_eq, quotedSpecifier?]
    dsimp only
    by_cases quoted : isQuote quote = true
    · have plain : ∀ unit ∈ rest.takeWhile isSpecifierCharacter,
          isSpecifierCharacter unit = true := fun _ member => List.mem_takeWhile_imp member
      have ends : (rest.dropWhile isSpecifierCharacter).head?.all
          fun unit => !isSpecifierCharacter unit := by
        have first := List.head?_dropWhile_not isSpecifierCharacter rest
        cases found : (rest.dropWhile isSpecifierCharacter).head? with
        | none => rfl
        | some unit => simpa [found] using first
      have split := List.takeWhile_append_dropWhile (p := isSpecifierCharacter) (l := rest)
      generalize rest.takeWhile isSpecifierCharacter = specifier at *
      generalize rest.dropWhile isSpecifierCharacter = tail at *
      subst split
      rw [if_pos quoted, quotedFrom_skip quoted reads.next plain,
        quotedFrom_end reads.next.skip ends, quoted, List.drop_left]
      cases specifier with
      | nil => simp
      | cons unit specifier =>
        by_cases closed : tail.head? = some quote <;> simp [closed, Span.quotedAt]
    · rw [if_neg quoted, Bool.eq_false_iff.2 quoted]
      rfl

/-! ## Clauses -/

/-- The quoted specifier after the clause that goes on at `i`. -/
def clauseAt (script : List Char) (i : Nat) : Option (Option Span) :=
  if i < script.length then do
    if ← wordAt script i "from".toList then
      let ahead ← triviaEnd script (i + 4)
      if (script[ahead]?).any isQuote then quotedAt script ahead
      else clauseAt script (i + 4)
    else
      match _ : script[i]? with
      | none => none
      | some unit =>
        if unit = '/' ∧ (script[i + 1]? = some '/' ∨ script[i + 1]? = some '*') then
          match _ : triviaEnd script i with
          | none => none
          | some ahead => clauseAt script ahead
        else if isClauseCharacter unit then clauseAt script (i + 1)
        else return none
  else return none
termination_by script.length - i
decreasing_by
  · omega
  · rename_i look mark moved
    have ahead := lt_triviaEnd (mark.1 ▸ look) mark.2 moved
    omega
  · omega

/-- What a clause leads to, told by its length. -/
def clauseSpan? (previous : Char) (i : Nat) (rest : List Char) : Option Span :=
  (clauseLengthFrom? previous 0 0 rest).bind fun offset =>
    (quotedSpecifier? (rest.drop offset)).map (Span.quotedAt (i + offset))

/-- The specifier behind a clause is told from any place in it. -/
theorem clauseSpan?_skip {previous last : Char} (length : Nat)
    (skips : clauseLengthFrom? previous 0 0 rest =
      (clauseLengthFrom? last 0 0 (rest.drop length)).map (length + ·)) :
    clauseSpan? previous i rest = clauseSpan? last (i + length) (rest.drop length) := by
  rw [clauseSpan?, clauseSpan?, skips, Option.bind_map]
  simp only [Function.comp_def, List.drop_drop, Nat.add_assoc]

/-- Where the last of a longer text stands. -/
theorem getLast?_take_add (previous : Char) (text : List Char) (first second : Nat) :
    (text.take (first + second)).getLast?.getD previous =
      ((text.drop first).take second).getLast?.getD ((text.take first).getLast?.getD previous) := by
  rw [List.take_add, List.getLast?_append]
  cases ((text.drop first).take second).getLast? <;> rfl

/-- A clause goes on after the blanks and comments that it begins with. -/
theorem clauseLengthFrom?_trivia (previous : Char) (text : List Char) :
    clauseLengthFrom? previous 0 0 text =
      (clauseLengthFrom? ((text.take (triviaLength text)).getLast?.getD previous) 0 0
        (text.drop (triviaLength text))).map (triviaLength text + ·) := by
  induction size : text.length using Nat.strong_induction_on generalizing previous text with
  | _ size ih =>
    subst size
    -- One part of the gap, and then the rest of it.
    have part {length : Nat} (filled : 0 < length) (fits : length ≤ text.length)
        (measured : triviaLength text = length + triviaLength (text.drop length))
        (skips : clauseLengthFrom? previous 0 0 text =
          (clauseLengthFrom? ((text.take length).getLast?.getD previous) 0 0
            (text.drop length)).map (length + ·)) :
        clauseLengthFrom? previous 0 0 text =
          (clauseLengthFrom? ((text.take (triviaLength text)).getLast?.getD previous) 0 0
            (text.drop (triviaLength text))).map (triviaLength text + ·) := by
      rw [skips, ih _ (by rw [List.length_drop]; omega) _ _ rfl, measured, getLast?_take_add,
        List.drop_drop, Option.map_map]
      simp only [Function.comp_def, Nat.add_assoc]
    cases text with
    | nil => rfl
    | cons unit rest =>
      by_cases blank : isBlank unit = true
      · have noWord : beginsWithWord (some previous) "from".toList (unit :: rest) = false := by
          by_cases letter : unit = 'f'
          · rw [letter] at blank
            exact absurd blank (by decide)
          · simp [beginsWithWord, Ne.symm letter]
        refine @part 1 Nat.one_pos (by simp) ?_ ?_
        · rw [triviaLength_blank rest blank, Nat.add_comm]
          rfl
        · exact clauseLengthFrom?_character (by simp [isClauseCharacter, blank]) noWord
      · cases found : commentLength? (unit :: rest) with
        | some length =>
          obtain ⟨two, fits⟩ := commentLength?_bounds found
          exact part (by omega) fits (triviaLength_of_comment found)
            (clauseLengthFrom?_of_comment found)
        | none =>
          rw [triviaLength_solid (Bool.eq_false_iff.2 blank) found]
          simp

/-- The unit before a place further on is the last one that is passed. -/
theorem Reads.getLast?_take {previous : Char} (reads : Reads script i rest)
    (last : (script.take i).getLast? = some previous) (length : Nat) :
    (script.take (i + length)).getLast? = some ((rest.take length).getLast?.getD previous) := by
  rw [List.take_add, reads.drop_eq, List.getLast?_append, last]
  cases (rest.take length).getLast? <;> rfl

theorem clauseAt_past (past : script.length ≤ i) : clauseAt script i = some none := by
  rw [clauseAt, if_neg (Nat.not_lt.2 past)]
  rfl

/-- One turn of the loop over a clause. -/
theorem clauseAt_unit (reads : Reads script i (unit :: rest)) :
    clauseAt script i =
      (wordAt script i "from".toList).bind fun named =>
        if named then (triviaEnd script (i + 4)).bind fun ahead =>
          if (script[ahead]?).any isQuote then quotedAt script ahead else clauseAt script (i + 4)
        else if unit = '/' ∧ (rest.head? = some '/' ∨ rest.head? = some '*') then
          (triviaEnd script i).bind (clauseAt script)
        else if isClauseCharacter unit then clauseAt script (i + 1)
        else some none := by
  rw [clauseAt, if_pos reads.lt, reads.unit_eq, reads.next_eq]
  cases triviaEnd script i <;> rfl

/-- A clause leads the cursor to what its length tells. -/
theorem clauseAt_eq {previous : Char} (reads : Reads script i rest)
    (last : (script.take i).getLast? = some previous) :
    clauseAt script i = some (clauseSpan? previous i rest) := by
  induction size : rest.length using Nat.strong_induction_on
    generalizing i rest previous with
  | _ size ih =>
    subst size
    cases rest with
    | nil => exact clauseAt_past reads.eq_length.le
    | cons unit rest =>
      rw [clauseAt_unit reads, wordAt_eq reads, last, Option.bind_some]
      by_cases named : beginsWithWord (some previous) "from".toList (unit :: rest) = true
      · obtain ⟨-, following, same, -⟩ := beginsWithWord_iff.1 named
        rw [if_pos named]
        rw [same] at reads named ih ⊢
        have after : Reads script (i + 4) following := reads.skip
        have ahead := after.drop (triviaLength_le following)
        rw [triviaEnd_eq after, Option.bind_some, after.head?_trivia]
        by_cases quoted : (following.drop (triviaLength following)).head?.any isQuote = true
        · rw [if_pos quoted, quotedAt_eq ahead, clauseSpan?, clauseLengthFrom?_from named quoted,
            Option.bind_some, ← List.drop_drop, ← Nat.add_assoc]
          rfl
        · rw [if_neg quoted, clauseSpan?_skip 4
            (clauseLengthFrom?_name named (Bool.eq_false_iff.2 quoted))]
          exact ih _ (by simp; omega) after (reads.getLast?_take last 4) rfl
      rw [if_neg named]
      -- The cursor passes over all blanks and comments ahead, the list function over one of them.
      have comment {length : Nat} (found : commentLength? (unit :: rest) = some length) :
          (triviaEnd script i).bind (clauseAt script) =
            some (clauseSpan? previous i (unit :: rest)) := by
        obtain ⟨two, -⟩ := commentLength?_bounds found
        have measured := triviaLength_of_comment found
        have fits := triviaLength_le (unit :: rest)
        rw [triviaEnd_eq reads, Option.bind_some,
          clauseSpan?_skip _ (clauseLengthFrom?_trivia previous (unit :: rest))]
        exact ih _ (by rw [List.length_drop]; omega) (reads.drop fits)
          (reads.getLast?_take last _) rfl
      cases commentMark unit rest with
      | line tail =>
        rw [if_pos ⟨rfl, .inl rfl⟩]
        exact comment rfl
      | block tail =>
        rw [if_pos ⟨rfl, .inr rfl⟩]
        exact comment rfl
      | other noComment noLine noBlock =>
        rw [if_neg fun mark => mark.2.elim (noLine ⟨mark.1, ·⟩) (noBlock ⟨mark.1, ·⟩)]
        by_cases plain : isClauseCharacter unit = true
        · have skips := clauseLengthFrom?_character plain (Bool.eq_false_iff.2 named)
          rw [if_pos plain, clauseSpan?_skip 1 skips]
          exact ih _ (by simp) reads.next (reads.getLast?_take last 1) rfl
        · rw [if_neg plain, clauseSpan?,
            clauseLengthFrom?_foreign (Bool.eq_false_iff.2 plain) noComment]
          rfl

/-! ## Statements -/

/-- A statement that names a module: its form, and where the specifier stands. -/
abbrev Found := Option (Form × Span)

/-- A statement whose specifier stands at `i`. -/
def bareAt (script : List Char) (form : Form) (i : Nat) : Option Found := do
  return (← quotedAt script i).map (form, ·)

/-- A call whose bracket stands before `i`. -/
def argumentAt (script : List Char) (form : Form) (i : Nat) : Option Found := do
  let ahead ← triviaEnd script i
  bareAt script form ahead

/-- A statement whose clause begins at `i`. -/
def fromClauseAt (script : List Char) (form : Form) (i : Nat) : Option Found := do
  return (← clauseAt script i).map (form, ·)

/-- The statement that began with `import` before `i`. -/
def importAt (script : List Char) (i : Nat) : Option Found := do
  let ahead ← triviaEnd script i
  if script[ahead]? = some '(' then argumentAt script .dynamicImport (ahead + 1)
  else if (script[ahead]?).any isQuote then bareAt script .staticImport ahead
  else fromClauseAt script .staticImport ahead

/-- The statement that began with `export` before `i`. -/
def exportAt (script : List Char) (i : Nat) : Option Found := do
  let ahead ← triviaEnd script i
  fromClauseAt script .exportFrom ahead

/-- The call that began with `require` before `i`. -/
def requireAt (script : List Char) (i : Nat) : Option Found := do
  let ahead ← triviaEnd script i
  if script[ahead]? = some '(' then argumentAt script .requireCall (ahead + 1) else return none

/-- The statement whose keyword stands at `i`, with the length of the keyword. -/
def statementAt (script : List Char) (i : Nat) : Option (Option (Nat × Found)) := do
  if ← wordAt script i "import".toList then return some (6, ← importAt script (i + 6))
  else if ← wordAt script i "export".toList then return some (6, ← exportAt script (i + 6))
  else if ← wordAt script i "require".toList then return some (7, ← requireAt script (i + 7))
  else return none

/-- Where a site stands whose keyword begins at `i`. -/
def Site.found (i : Nat) (site : Site) : Form × Span :=
  (site.form, ⟨i + site.lead, i + site.lead + site.specifier.length,
    i + site.lead + site.specifier.length + 1⟩)

variable {following : List Char} {keyword offset : Nat} {form : Form}

/-- What is found with a quoted specifier is its span. -/
theorem quotedSite?_found (form : Form) (keyword offset : Nat) (following : List Char) (i : Nat) :
    (quotedSite? form keyword offset following).map (Site.found i) =
      ((quotedSpecifier? (following.drop offset)).map
        (Span.quotedAt (i + keyword + offset))).map (form, ·) := by
  rw [quotedSite?, Option.map_map, Option.map_map]
  congr 1
  funext specifier
  simp only [Function.comp_apply, Site.found, Span.quotedAt, Nat.add_assoc]

/-- A specifier right behind a keyword is found by index as in the text that is left. -/
theorem bareAt_eq (reads : Reads script (i + keyword) following)
    (fits : offset ≤ following.length) :
    bareAt script form (i + keyword + offset) =
      some ((quotedSite? form keyword offset following).map (Site.found i)) := by
  rw [bareAt, quotedAt_eq (reads.drop fits), quotedSite?_found]
  rfl

/-- A specifier as an argument is found by index as in the text that is left. -/
theorem argumentAt_eq (reads : Reads script (i + keyword) following)
    (fits : offset < following.length) :
    argumentAt script form (i + keyword + offset + 1) =
      some ((argumentSite? form keyword offset following).map (Site.found i)) := by
  have inner := reads.drop (Nat.succ_le_of_lt fits)
  have shorter := triviaLength_le (following.drop (offset + 1))
  rw [List.length_drop] at shorter
  rw [argumentAt, Nat.add_assoc _ offset, triviaEnd_eq inner, Nat.add_assoc _ (offset + 1),
    argumentSite?, ← bareAt_eq reads (by omega)]
  rfl

/-- A clause that blanks and comments lead to. -/
theorem fromClauseAt_eq (reads : Reads script (i + keyword) following)
    (last : (script.take (i + keyword)).getLast? = some 't') :
    fromClauseAt script form (i + keyword + triviaLength following) =
      some ((clauseSite? form keyword following).map (Site.found i)) := by
  have sites : (clauseSite? form keyword following).map (Site.found i) =
      (clauseSpan? 't' (i + keyword) following).map (form, ·) := by
    rw [clauseSite?, clauseSpan?, Option.map_bind, Option.map_bind]
    congr 1
    funext offset
    exact quotedSite?_found form keyword offset following i
  rw [fromClauseAt, clauseAt_eq (reads.drop (triviaLength_le following))
    (reads.getLast?_take last _), sites,
    clauseSpan?_skip _ (clauseLengthFrom?_trivia 't' following)]
  rfl

/-- The three kinds of statements that begin with `import`, told by conditions. -/
theorem importSite?_eq (following : List Char) :
    importSite? following =
      let gap := triviaLength following
      if (following.drop gap).head? = some '(' then
        argumentSite? .dynamicImport "import".toList.length gap following
      else if (following.drop gap).head?.any isQuote then
        quotedSite? .staticImport "import".toList.length gap following
      else clauseSite? .staticImport "import".toList.length following := by
  unfold importSite?
  dsimp only
  split
  · rename_i bracket
    rw [if_pos bracket]
    rfl
  · rename_i single
    rw [single]
    rfl
  · rename_i double
    rw [double]
    rfl
  · rename_i bracket single double
    rw [if_neg bracket, if_neg]
    · rfl
    · intro quoted
      obtain ⟨quote, head, isQuote⟩ := (Option.any_eq_true _ _).1 quoted
      simp only [Script.isQuote, Bool.or_eq_true, beq_iff_eq] at isQuote
      rcases isQuote with rfl | rfl
      · exact single head
      · exact double head

/-- What `import` begins is found by index as in the text that is left. -/
theorem importAt_eq (reads : Reads script (i + 6) following)
    (last : (script.take (i + 6)).getLast? = some 't') :
    importAt script (i + 6) = some ((importSite? following).map (Site.found i)) := by
  rw [importAt, triviaEnd_eq reads, importSite?_eq]
  simp only [Option.bind_eq_bind, Option.bind_some]
  rw [reads.head?_trivia]
  split
  · rename_i bracket
    exact argumentAt_eq reads (triviaLength_lt bracket)
  split
  · exact bareAt_eq reads (triviaLength_le following)
  · exact fromClauseAt_eq reads last

/-- What `export` begins is found by index as in the text that is left. -/
theorem exportAt_eq (reads : Reads script (i + 6) following)
    (last : (script.take (i + 6)).getLast? = some 't') :
    exportAt script (i + 6) = some ((exportSite? following).map (Site.found i)) := by
  rw [exportAt, triviaEnd_eq reads]
  exact fromClauseAt_eq reads last

/-- What `require` begins is found by index as in the text that is left. -/
theorem requireAt_eq (reads : Reads script (i + 7) following) :
    requireAt script (i + 7) = some ((requireSite? following).map (Site.found i)) := by
  rw [requireAt, triviaEnd_eq reads, requireSite?]
  simp only [Option.bind_eq_bind, Option.bind_some]
  rw [reads.head?_trivia]
  split
  · rename_i bracket
    exact argumentAt_eq reads (triviaLength_lt bracket)
  · rfl

/-- The length of the keyword that a text begins with. -/
def keywordLength? (previous : Option Char) (text : List Char) : Option Nat :=
  if beginsWithWord previous "import".toList text then some 6
  else if beginsWithWord previous "export".toList text then some 6
  else if beginsWithWord previous "require".toList text then some 7
  else none

/-- A keyword that is found is a word that the text begins with. -/
theorem exists_word_of_keywordLength? {previous : Option Char} {text : List Char} {length : Nat}
    (found : keywordLength? previous text = some length) :
    ∃ word following, text = word ++ following ∧ word.length = length ∧ word ≠ [] ∧
      ∀ unit ∈ word, isWord unit = true := by
  unfold keywordLength? at found
  split at found
  · rename_i begins
    obtain ⟨-, following, same, -⟩ := beginsWithWord_iff.1 begins
    exact ⟨_, following, same, Option.some.inj found, by decide, isWord_import⟩
  split at found
  · rename_i begins
    obtain ⟨-, following, same, -⟩ := beginsWithWord_iff.1 begins
    exact ⟨_, following, same, Option.some.inj found, by decide, isWord_export⟩
  split at found
  · rename_i begins
    obtain ⟨-, following, same, -⟩ := beginsWithWord_iff.1 begins
    exact ⟨_, following, same, Option.some.inj found, by decide, isWord_require⟩
  · cases found

/-- The last character of a word, read from the position after it. -/
theorem Reads.getLast?_word {word : List Char} (reads : Reads script i (word ++ rest))
    (filled : word ≠ []) : (script.take (i + word.length)).getLast? = word.getLast? := by
  rw [List.take_add, reads.drop_eq, List.take_left, List.getLast?_append,
    List.getLast?_eq_some_getLast filled, Option.some_or]

/-- A statement names a module at a position exactly where the units ahead have a site. -/
theorem statementAt_eq (reads : Reads script i rest) :
    statementAt script i =
      some ((keywordLength? (script.take i).getLast? rest).map fun length =>
        (length, (siteAt? (script.take i).getLast? rest).map (Site.found i))) := by
  have keyword {word : List Char}
      (begins : beginsWithWord (script.take i).getLast? word rest = true) :
      ∃ following, rest = word ++ following := by
    obtain ⟨-, following, same, -⟩ := beginsWithWord_iff.1 begins
    exact ⟨following, same⟩
  rw [statementAt, wordAt_eq reads, wordAt_eq reads, wordAt_eq reads, keywordLength?, siteAt?]
  simp only [Option.bind_eq_bind, Option.bind_some]
  split
  · rename_i begins
    obtain ⟨following, rfl⟩ := keyword begins
    rw [importAt_eq (by exact reads.skip) (by exact reads.getLast?_word (by decide))]
    rfl
  split
  · rename_i begins
    obtain ⟨following, rfl⟩ := keyword begins
    rw [exportAt_eq (by exact reads.skip) (by exact reads.getLast?_word (by decide))]
    rfl
  split
  · rename_i begins
    obtain ⟨following, rfl⟩ := keyword begins
    rw [requireAt_eq (by exact reads.skip)]
    rfl
  · rfl

end Statements

end Relink.Script
