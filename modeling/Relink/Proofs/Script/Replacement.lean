import Relink.Proofs.Script.Scan

/-!
# Replacing specifiers

When the specifiers of a script are replaced by other specifiers, the script falls into the same
pieces as before, with the replacements in their places. Nothing that is decided before a
specifier looks beyond its opening quote, and nothing that is decided after it looks back beyond
its closing quote. The first part needs that no attempt at a statement passes over the quote of a
specifier that is found later: such a quote would stand in a comment, and the scan steps over
comments as a whole.
-/

namespace Relink.Script

/-- A text that an attempt at a statement passes over: comments as a whole, and no other comment
or literal. -/
inductive Walk : List Char -> Prop where
  | nil : Walk []
  | character {character : Char} {rest : List Char} (plain : isMark character = false)
      (walk : Walk rest) : Walk (character :: rest)
  | comment {text rest : List Char} (comment : Comment text) (walk : Walk rest) :
      Walk (text ++ rest)

/-- A text whose end no comment reaches over, when it is read up to its first literal. -/
inductive Exposed : List Char -> Prop where
  | nil : Exposed []
  | character {character : Char} {rest : List Char} (plain : isMark character = false)
      (exposed : Exposed rest) : Exposed (character :: rest)
  | comment {text rest : List Char} (comment : Comment text) (exposed : Exposed rest) :
      Exposed (text ++ rest)
  | literal {character : Char} {rest : List Char} (isMark : isMark character = true)
      (noComment : character = '/' -> ∀ next, rest.head? = some next -> next ≠ '/' ∧ next ≠ '*') :
      Exposed (character :: rest)

/-! ## Openings are walks -/

/-- What is passed over behind what is passed over is passed over. -/
theorem Walk.append {first second : List Char} (walk : Walk first) (next : Walk second) :
    Walk (first ++ second) := by
  induction walk with
  | nil => exact next
  | character plain _ ih => exact .character plain ih
  | comment comment _ ih =>
    rw [List.append_assoc]
    exact .comment comment ih

/-- A word is passed over. -/
theorem Walk.of_word {word : List Char} (isWord_ : ∀ character ∈ word, isWord character = true) :
    Walk word := by
  induction word with
  | nil => exact .nil
  | cons character word ih =>
    exact .character (isMark_of_isWord (isWord_ character (List.mem_cons_self ..)))
      (ih fun other member => isWord_ other (List.mem_cons_of_mem _ member))

/-- A gap is passed over. -/
theorem Gap.walk {gap : List Char} (isGap : Gap gap) : Walk gap := by
  induction isGap with
  | nil => exact .nil
  | blank blank _ ih =>
    exact .character (isMark_of_isClauseCharacter (by simp [isClauseCharacter, blank])) ih
  | comment comment _ ih => exact .comment comment ih

/-- A clause is passed over. -/
theorem Clause.walk {clause : List Char} (isClause : Clause clause) : Walk clause := by
  induction isClause with
  | nil => exact .nil
  | character plain _ ih => exact .character (isMark_of_isClauseCharacter plain) ih
  | comment comment _ ih => exact .comment comment ih

/-- A statement is passed over up to the quote of its specifier. -/
theorem Opening.walk {form : Form} {opening : List Char} (opens : Opening form opening) :
    Walk opening := by
  have bracket {rest : List Char} (walk : Walk rest) : Walk ('(' :: rest) :=
    .character (by decide) walk
  cases opens with
  | bareImport isGap => exact (Walk.of_word isWord_import).append isGap.walk
  | importFrom isClause _ isGap =>
    exact (Walk.of_word isWord_import).append
      (isClause.walk.append ((Walk.of_word isWord_from).append isGap.walk))
  | exportFrom isClause _ isGap =>
    exact (Walk.of_word isWord_export).append
      (isClause.walk.append ((Walk.of_word isWord_from).append isGap.walk))
  | dynamicImport isGap isInner =>
    exact (Walk.of_word isWord_import).append (isGap.walk.append (bracket isInner.walk))
  | requireCall isGap isInner =>
    exact (Walk.of_word isWord_require).append (isGap.walk.append (bracket isInner.walk))

/-- No comment reaches over the end of what is passed over. -/
theorem Walk.exposed {text : List Char} (walk : Walk text) : Exposed text := by
  induction walk with
  | nil => exact .nil
  | character plain _ ih => exact .character plain ih
  | comment comment _ ih => exact .comment comment ih

/-! ## Quotes that a walk passes over -/

/-- Behind a character that is no mark, still no comment reaches over the end. -/
theorem Exposed.tail {character : Char} {ahead : List Char} (plain : isMark character = false)
    (exposed : Exposed (character :: ahead)) : Exposed ahead := by
  generalize shape : character :: ahead = text at exposed
  cases exposed with
  | nil => cases shape
  | character _ exposed =>
    obtain ⟨-, rfl⟩ := List.cons.inj shape
    exact exposed
  | comment comment _ =>
    obtain ⟨_, rfl, -⟩ := comment.exists_cons
    rw [(List.cons.inj shape).1] at plain
    exact absurd plain (by decide)
  | literal isMark _ =>
    rw [(List.cons.inj shape).1, isMark] at plain
    cases plain

/-- A quote that a walk passes over stands in a comment. -/
theorem Walk.not_exposed {walked ahead : List Char} {quote : Char} (walk : Walk walked)
    (isQuote : isQuote quote = true) (within : ahead ++ [quote] <+: walked) :
    ¬Exposed ahead := by
  -- The quote would lie in the text that was walked over: in a plain character, which it is not, or
  -- in a comment, which would then reach over the end of `ahead`.
  induction walk generalizing ahead with
  | nil => simp at within
  | @character character rest plain _ ih =>
    cases ahead with
    | nil =>
      obtain ⟨_, same⟩ := within
      obtain ⟨rfl, -⟩ := List.cons.inj same
      rw [isMark_of_isQuote isQuote] at plain
      cases plain
    | cons first ahead =>
      rw [List.cons_append, List.cons_prefix_cons] at within
      obtain ⟨rfl, within⟩ := within
      exact fun exposed => ih within (exposed.tail plain)
  | @comment text rest comment _ ih =>
    obtain ⟨second, body, rfl, kind⟩ := comment.exists_cons_cons
    have unquoted : Script.isQuote second = false ∧ Script.isQuote '/' = false := by
      rcases kind with rfl | rfl <;> decide
    intro exposed
    cases exposed with
    | nil =>
      obtain ⟨_, same⟩ := within
      obtain ⟨rfl, -⟩ := List.cons.inj same
      rw [unquoted.2] at isQuote
      cases isQuote
    | character plain _ =>
      obtain ⟨_, same⟩ := within
      rw [(List.cons.inj same).1] at plain
      exact absurd plain (by decide)
    | @comment text' ahead comment' exposed =>
      obtain ⟨tail, same⟩ := within
      have equal := comment'.unique comment
        (by rw [← same]; simp only [List.append_assoc] : text' ++ (ahead ++ [quote] ++ tail) = _)
      subst equal
      rw [List.append_assoc, List.append_assoc] at same
      exact ih ⟨tail, by rw [← List.append_cancel_left same]; simp⟩ exposed
    | @literal character ahead _ noComment =>
      obtain ⟨tail, same⟩ := within
      obtain ⟨rfl, tails⟩ := List.cons.inj same
      cases ahead with
      | nil =>
        obtain ⟨rfl, -⟩ := List.cons.inj tails
        rw [unquoted.1] at isQuote
        cases isQuote
      | cons next ahead =>
        obtain ⟨rfl, -⟩ := List.cons.inj tails
        obtain ⟨noSlash, noAsterisk⟩ := noComment rfl next rfl
        rcases kind with rfl | rfl
        · exact noSlash rfl
        · exact noAsterisk rfl

/-! ## Texts that differ in their specifiers -/

/-- Two texts that are the same, or the same up to the quote of a specifier. -/
inductive Agree : List Char -> List Char -> Prop where
  | same (text : List Char) : Agree text text
  | site {ahead specifier specifier' rest rest' : List Char} {quote : Char}
      (exposed : Exposed ahead) (isQuote : isQuote quote = true)
      (isSpecifier : IsSpecifier specifier) :
      Agree (ahead ++ quote :: (specifier ++ quote :: rest))
        (ahead ++ quote :: (specifier' ++ quote :: rest'))

/-- Two texts, given from their last character back, that are the same, or the same back to the
quote after a specifier. -/
inductive Alike : List Char -> List Char -> Prop where
  | same (before : List Char) : Alike before before
  | quote {since earlier earlier' : List Char} {quote : Char} (isQuote : isQuote quote = true) :
      Alike (since ++ quote :: earlier) (since ++ quote :: earlier')

theorem Alike.of_quote {quote : Char} (isQuote : isQuote quote = true)
    (earlier earlier' : List Char) : Alike (quote :: earlier) (quote :: earlier') := by
  have alike : Alike ([] ++ quote :: earlier) ([] ++ quote :: earlier') := .quote isQuote
  exact alike

/-- Texts that are alike stay so with more behind them. -/
theorem Alike.append {before before' : List Char} (alike : Alike before before')
    (text : List Char) : Alike (text ++ before) (text ++ before') := by
  cases alike with
  | same => exact .same _
  | quote isQuote =>
    rw [← List.append_assoc, ← List.append_assoc]
    exact .quote isQuote

/-- Texts that are alike end with the same character. -/
theorem Alike.head?_eq {before before' : List Char} (alike : Alike before before') :
    before.head? = before'.head? := by
  cases alike with
  | same => rfl
  | @quote since => cases since <;> rfl

/-- Words end at a character of another kind. -/
theorem takeWhile_isWord_append {character : Char} {text : List Char}
    (wordless : isWord character = false) (tail : List Char) :
    (text ++ character :: tail).takeWhile isWord = text.takeWhile isWord := by
  induction text with
  | nil => simp [wordless]
  | cons first text ih =>
    rw [List.cons_append, List.takeWhile_cons, List.takeWhile_cons, ih]

/-- Blanks end at a character of another kind. -/
theorem dropWhile_isBlank_append {character : Char} {text : List Char}
    (solid : isBlank character = false) (tail : List Char) :
    (text ++ character :: tail).dropWhile isBlank =
      text.dropWhile isBlank ++ character :: tail := by
  induction text with
  | nil => simp [solid]
  | cons first text ih =>
    rw [List.cons_append, List.dropWhile_cons, List.dropWhile_cons, ih]
    split <;> rfl

/-- Looking back from a slash ends at a character that is neither a blank nor a part of a word. -/
theorem slashOpensRegex_append_cons {character : Char} (solid : isBlank character = false)
    (wordless : isWord character = false) (since earlier earlier' : List Char) :
    slashOpensRegex (since ++ character :: earlier) =
      slashOpensRegex (since ++ character :: earlier') := by
  unfold slashOpensRegex
  rw [dropWhile_isBlank_append solid, dropWhile_isBlank_append solid]
  cases since.dropWhile isBlank with
  | nil => simp [wordless]
  | cons first since =>
    simp only [List.cons_append]
    rw [← List.cons_append, ← List.cons_append, takeWhile_isWord_append wordless,
      takeWhile_isWord_append wordless]

/-- Behind texts that are alike, a slash opens a regex alike. -/
theorem Alike.slashOpensRegex_eq {before before' : List Char} (alike : Alike before before') :
    slashOpensRegex before = slashOpensRegex before' := by
  cases alike with
  | same => rfl
  | @quote since earlier earlier' quote isQuote =>
    have solid : isBlank quote = false := by
      simp only [Script.isQuote, Bool.or_eq_true, beq_iff_eq] at isQuote
      rcases isQuote with rfl | rfl <;> decide
    exact slashOpensRegex_append_cons solid (isWord_of_isQuote isQuote) since earlier earlier'

/-! ## Lexemes that end before a quote -/

/-- Where a string ends before a quote does not depend on what comes after the quote. -/
theorem stringLength_local {opening quote : Char} {passed : Nat} {ahead rest : List Char}
    (isQuote : isQuote quote = true)
    (within : stringLength opening passed (ahead ++ quote :: rest) ≤ passed + ahead.length)
    (rest' : List Char) :
    stringLength opening passed (ahead ++ quote :: rest') =
      stringLength opening passed (ahead ++ quote :: rest) := by
  simp only [stringLength_eq] at within ⊢
  exact literalLength_local (quote_ne isQuote).1 within rest'

/-- A template that ends before a quote does not depend on what is behind the quote. -/
theorem templateLength_local {quote : Char} {passed : Nat} {ahead rest : List Char}
    (isQuote : isQuote quote = true)
    (within : templateLength passed (ahead ++ quote :: rest) ≤ passed + ahead.length)
    (rest' : List Char) :
    templateLength passed (ahead ++ quote :: rest') =
      templateLength passed (ahead ++ quote :: rest) := by
  simp only [templateLength_eq] at within ⊢
  exact literalLength_local (quote_ne isQuote).1 within rest'

/-- A regex that ends before a quote does not depend on what is behind the quote. -/
theorem regexLength_local {quote : Char} {inClass : Bool} {passed : Nat} {ahead rest : List Char}
    (isQuote : isQuote quote = true)
    (within : regexLength inClass passed (ahead ++ quote :: rest) ≤ passed + ahead.length)
    (rest' : List Char) :
    regexLength inClass passed (ahead ++ quote :: rest') =
      regexLength inClass passed (ahead ++ quote :: rest) := by
  simp only [regexLength_eq] at within ⊢
  exact literalLength_local (quote_ne isQuote).1 within rest'

/-- A block comment lies in the text that is left. -/
theorem blockCommentLength_bounds (passed : Nat) (text : List Char) :
    passed ≤ blockCommentLength passed text ∧
      blockCommentLength passed text ≤ passed + text.length := by
  fun_induction blockCommentLength passed text with grind

/-- A block comment that ends before a quote does not depend on what is behind the quote. -/
theorem blockCommentLength_local {quote : Char} {passed : Nat} {ahead rest : List Char}
    (isQuote : isQuote quote = true)
    (within : blockCommentLength passed (ahead ++ quote :: rest) ≤ passed + ahead.length)
    (rest' : List Char) :
    blockCommentLength passed (ahead ++ quote :: rest') =
      blockCommentLength passed (ahead ++ quote :: rest) := by
  obtain ⟨-, -, -, noSlash, -, -, noAsterisk⟩ := quote_ne isQuote
  have plain (passed : Nat) (character : Char) (rest : List Char)
      (open_ : character = '*' -> rest.head? ≠ some '/') :
      blockCommentLength passed (character :: rest) = blockCommentLength (passed + 1) rest := by
    rw [blockCommentLength.eq_3]
    rintro tail rfl rfl
    exact open_ rfl rfl
  fun_induction blockCommentLength passed ahead with
  | case1 passed =>
    have := blockCommentLength_bounds (passed + 1) rest
    grind
  | case2 => rfl
  | case3 passed character ahead open_ ih =>
    have open_ (tail : List Char) :
        character = '*' -> (ahead ++ quote :: tail).head? ≠ some '/' := by
      rintro rfl
      cases ahead with
      | nil => simpa using noSlash
      | cons next ahead =>
        rw [List.cons_append, List.head?_cons, ne_eq, Option.some.injEq]
        rintro rfl
        exact open_ ahead rfl rfl
    rw [List.cons_append, plain _ _ _ (open_ rest)] at within
    rw [List.cons_append, List.cons_append, plain _ _ _ (open_ rest), plain _ _ _ (open_ rest')]
    exact ih (by rw [List.length_cons] at within; omega)

/-- A comment that ends before a quote does not depend on what is behind the quote. -/
theorem commentLength?_local {quote : Char} {ahead rest : List Char}
    (isQuote : isQuote quote = true)
    (within : ∀ length, commentLength? (ahead ++ quote :: rest) = some length ->
      length ≤ ahead.length) (rest' : List Char) :
    commentLength? (ahead ++ quote :: rest') = commentLength? (ahead ++ quote :: rest) := by
  obtain ⟨-, noFeed, -, noSlash, -, -, noAsterisk⟩ := quote_ne isQuote
  -- The kind of a comment is told by its first two characters, so both of them are looked at.
  match ahead with
  | [] => rw [List.nil_append, List.nil_append, commentLength?_eq_none _ noSlash,
      commentLength?_eq_none _ noSlash]
  | [first] =>
    by_cases slash : first = '/'
    · subst slash
      exact (commentLength?_slash rest' noSlash noAsterisk).trans
        (commentLength?_slash rest noSlash noAsterisk).symm
    · exact (commentLength?_eq_none _ slash).trans (commentLength?_eq_none _ slash).symm
  | first :: second :: ahead =>
    by_cases slash : first = '/'
    · subst slash
      by_cases line : second = '/'
      · subst line
        simp only [List.cons_append, commentLength?, Option.some.injEq] at within ⊢
        have shorter := within _ rfl
        by_cases feed : '\n' ∈ ahead
        · obtain ⟨body, tail, rfl, oneLine⟩ := List.eq_append_cons_of_mem feed
          have inside : ∀ character ∈ body, (character != '\n') = true := by
            intro character member
            simpa using fun same : character = '\n' => oneLine (same ▸ member)
          simp only [List.append_assoc, List.takeWhile_append_of_pos inside, List.cons_append]
          rfl
        · have inside : ∀ character ∈ ahead, (character != '\n') = true := by
            intro character member
            simpa using fun same : character = '\n' => feed (same ▸ member)
          rw [List.takeWhile_append_of_pos inside,
            List.takeWhile_cons_of_pos (by simpa using noFeed)]
            at shorter
          simp only [List.length_append, List.length_cons] at shorter
          omega
      · by_cases block : second = '*'
        · subst block
          simp only [List.cons_append, commentLength?, Option.some.injEq] at within ⊢
          refine blockCommentLength_local isQuote ?_ rest'
          have := within _ rfl
          simp only [List.length_cons] at this
          omega
        · exact (commentLength?_slash _ line block).trans (commentLength?_slash _ line block).symm
    · exact (commentLength?_eq_none _ slash).trans (commentLength?_eq_none _ slash).symm

/-- A lexeme that ends before a quote does not depend on what comes after the quote. -/
theorem lexemeLength?_local {before before' ahead rest : List Char} {quote : Char}
    (alike : Alike before before') (isQuote : isQuote quote = true) (filled : ahead ≠ [])
    (within : (lexemeLength? before (ahead ++ quote :: rest)).getD 1 ≤ ahead.length)
    (rest' : List Char) :
    lexemeLength? before' (ahead ++ quote :: rest') =
      lexemeLength? before (ahead ++ quote :: rest) := by
  obtain ⟨first, ahead, rfl⟩ := List.exists_cons_of_ne_nil filled
  simp only [List.length_cons, List.cons_append] at within ⊢
  by_cases marked : isMark first = true
  · simp only [isMark, Script.isQuote, Bool.or_eq_true, beq_iff_eq] at marked
    rcases marked with (rfl | rfl | rfl) | rfl
    · have whole := @commentLength?_local quote ('/' :: ahead) rest isQuote
      simp only [lexemeLength?, List.cons_append, List.length_cons] at whole within ⊢
      rw [← alike.slashOpensRegex_eq, whole _ rest']
      · cases found : commentLength? ('/' :: (ahead ++ quote :: rest)) with
        | some length => rfl
        | none =>
          simp only [found] at within ⊢
          split at within
          · rename_i opens
            rw [Option.getD_some, Nat.add_comm] at within
            rw [if_pos opens, if_pos opens, regexLength_local isQuote within rest']
          · rename_i divides
            rw [if_neg divides, if_neg divides]
      · intro length found
        simpa [found] using within
    all_goals simp only [lexemeLength?, Option.getD_some, Nat.add_comm ahead.length] at within ⊢
    · rw [stringLength_local isQuote within rest']
    · rw [stringLength_local isQuote within rest']
    · rw [templateLength_local isQuote within rest']
  · rw [Bool.not_eq_true] at marked
    rw [lexemeLength?_plain _ _ marked, lexemeLength?_plain _ _ marked]

/-! ## One step of a scan -/

/-- A comment that ends before a quote keeps the quote within reach. One that ends before its line
feed takes that from what follows. -/
theorem Exposed.of_comment {text ahead rest : List Char} {quote : Char}
    (isQuote : isQuote quote = true)
    (found : commentLength? (text ++ (ahead ++ quote :: rest)) = some text.length)
    (exposed : Exposed ahead) : Exposed (text ++ ahead) := by
  have taken : (text ++ (ahead ++ quote :: rest)).take text.length = text := List.take_left
  have dropped : (text ++ (ahead ++ quote :: rest)).drop text.length = ahead ++ quote :: rest :=
    List.drop_left
  generalize text.length = length at found taken dropped
  generalize text ++ (ahead ++ quote :: rest) = script at found taken dropped
  cases beginsComment_of_commentLength? found with
  | @block body tail open_ =>
    have same : text = '/' :: '*' :: (body ++ ['*', '/']) := by
      rw [← taken, show '/' :: '*' :: (body ++ '*' :: '/' :: tail) =
        '/' :: '*' :: (body ++ ['*', '/']) ++ tail by simp]
      exact List.take_left' (by simp)
    rw [same]
    exact .comment (.block open_) exposed
  | @line body tail oneLine =>
    have same : text = '/' :: '/' :: body := by
      rw [← taken]
      exact (List.take_left' (by simp) :
        ('/' :: '/' :: body ++ '\n' :: tail).take (body.length + 2) = '/' :: '/' :: body)
    rw [drop_line] at dropped
    cases exposed with
    | nil => exact absurd (List.cons.inj dropped).1.symm (quote_ne isQuote).2.1
    | @character character ahead plain exposed =>
      rw [← (List.cons.inj dropped).1, same,
        show '/' :: '/' :: body ++ '\n' :: ahead = '/' :: '/' :: (body ++ ['\n']) ++ ahead
          by simp]
      exact .comment (.line oneLine) exposed
    | comment comment _ =>
      obtain ⟨_, rfl, -⟩ := comment.exists_cons
      exact absurd (List.cons.inj dropped).1 (by decide)
    | literal isMark _ =>
      rw [← (List.cons.inj dropped).1] at isMark
      exact absurd isMark (by decide)
  | endless _ => simp at dropped

/-- A lexeme that ends before a quote keeps the quote within reach. -/
theorem Exposed.of_lexeme {before text ahead rest : List Char} {quote : Char}
    (isQuote : isQuote quote = true) (filled : text ≠ [])
    (measured : (lexemeLength? before (text ++ (ahead ++ quote :: rest))).getD 1 = text.length)
    (exposed : Exposed ahead) : Exposed (text ++ ahead) := by
  obtain ⟨first, text, rfl⟩ := List.exists_cons_of_ne_nil filled
  by_cases marked : isMark first = true
  · by_cases slash : first = '/'
    · subst slash
      cases found : commentLength? ('/' :: (text ++ (ahead ++ quote :: rest))) with
      | none =>
        refine .literal marked fun _ next head => ?_
        obtain ⟨tail, same⟩ : ∃ tail, text ++ (ahead ++ quote :: rest) = next :: tail := by
          obtain ⟨tail, same⟩ := List.head?_eq_some_iff.1 head
          change text ++ ahead = next :: tail at same
          exact ⟨tail ++ quote :: rest, by rw [← List.append_assoc, same]; rfl⟩
        rw [same] at found
        refine ⟨?_, ?_⟩ <;> rintro rfl <;> simp [commentLength?] at found
      | some length =>
        have whole : commentLength? ('/' :: text ++ (ahead ++ quote :: rest)) =
            some ('/' :: text).length := by
          rw [← measured, List.cons_append, lexemeLength?, found]
          rfl
        exact .of_comment isQuote whole exposed
    · exact .literal marked fun same => absurd same slash
  · rw [Bool.not_eq_true] at marked
    rw [List.cons_append, lexemeLength?_plain _ _ marked] at measured
    obtain rfl : text = [] := by simpa using measured.symm
    exact .character marked exposed

/-- No statement begins ahead of an exposed specifier because of what the specifier is. -/
theorem siteAt?_local {previous : Option Char} {ahead specifier specifier' rest rest' : List Char}
    {quote : Char} (exposed : Exposed ahead) (isQuote : isQuote quote = true)
    (isSpecifier : IsSpecifier specifier)
    (noSite : siteAt? previous (ahead ++ quote :: (specifier ++ quote :: rest)) = none) :
    siteAt? previous (ahead ++ quote :: (specifier' ++ quote :: rest')) = none := by
  rw [Option.eq_none_iff_forall_ne_some]
  intro site found
  obtain ⟨before, opening, quote', tail, opens, isQuote', isSpecifier'', same, -⟩ :=
    exists_opening_of_siteAt? found
  simp only [List.nil_append] at same opens
  have absent {text : List Char} (isText : IsSpecifier text) (later : List Char)
      (same : ahead ++ quote :: (specifier ++ quote :: rest) =
        opening ++ quote' :: (text ++ quote' :: later)) : False := by
    rw [same, siteAt?_opening later before opens isQuote' isText] at noSite
    cases noSite
  rcases List.append_eq_append_iff.1 same with ⟨between, rfl, tails⟩ | ⟨between, rfl, tails⟩
  · cases between with
    | nil =>
      obtain ⟨rfl, -⟩ := List.cons.inj tails
      exact absent isSpecifier rest (by simp)
    | cons first between =>
      obtain ⟨rfl, -⟩ := List.cons.inj tails
      exact opens.walk.not_exposed isQuote ⟨between, by simp⟩ exposed
  · cases between with
    | nil =>
      obtain ⟨rfl, -⟩ := List.cons.inj tails
      exact absent isSpecifier rest (by simp)
    | cons first between =>
      -- The literal opens ahead of the specifier, and closes at its opening quote at the latest.
      obtain ⟨rfl, ends⟩ := List.cons.inj tails
      rcases List.append_eq_append_iff.1 ends with ⟨inner, rfl, closes⟩ | ⟨inner, shape, closes⟩
      · cases inner with
        | nil =>
          obtain ⟨rfl, -⟩ := List.cons.inj closes
          exact absent isSpecifier'' (specifier ++ quote' :: rest) (by simp)
        | cons next inner =>
          obtain ⟨rfl, -⟩ := List.cons.inj closes
          exact absent isSpecifier'' (inner ++ quote :: (specifier ++ quote :: rest)) (by simp)
      · cases inner with
        | nil =>
          obtain ⟨rfl, -⟩ := List.cons.inj closes
          rw [List.append_nil] at shape
          exact absent isSpecifier'' (specifier ++ quote :: rest) (by simp [shape])
        | cons next inner =>
          obtain ⟨rfl, -⟩ := List.cons.inj closes
          exact quote_not_mem isQuote isSpecifier''.characters (by rw [shape]; simp)

/-! ## The whole scan -/

/-- A piece with another specifier. -/
def Piece.replace (change : List Char -> List Char) : Piece -> Piece
  | plain text => plain text
  | site form specifier => site form (change specifier)

/-- A scan of a text is a scan of the text with other specifiers, after a text that is the same
back to the last specifier. -/
theorem Scan.replace {before text : List Char} {found : List Piece} (scan : Scan before text found)
    {change : List Char -> List Char}
    (fits : ∀ form specifier, .site form specifier ∈ found -> IsSpecifier (change specifier)) :
    Agree text ((found.map (Piece.replace change)).flatMap Piece.text) ∧
      ∀ before', Alike before before' ->
        Scan before' ((found.map (Piece.replace change)).flatMap Piece.text)
          (found.map (Piece.replace change)) := by
  -- The induction is on the scan. What lies before a piece changes with the specifiers there, but
  -- only up to `Alike`.
  induction scan with
  | done => exact ⟨.same [], fun _ _ => .done⟩
  | @plain before text rest found noSite measured filled later ih =>
    obtain ⟨agree, scans⟩ := ih fun form specifier member =>
      fits form specifier (List.mem_cons_of_mem _ member)
    simp only [List.map_cons, Piece.replace, List.flatMap_cons, Piece.text]
    generalize (found.map (Piece.replace change)).flatMap Piece.text = rest' at agree scans ⊢
    cases agree with
    | same =>
      refine ⟨.same _, fun before' alike => ?_⟩
      refine .plain (alike.head?_eq ▸ noSite) ?_ filled (scans _ (alike.append _))
      rw [← measured]
      unfold lexemeLength?
      rw [alike.slashOpensRegex_eq]
    | @site ahead specifier specifier' rest rest' quote exposed isQuote isSpecifier =>
      have exposed := exposed.of_lexeme isQuote filled measured
      rw [← List.append_assoc] at noSite measured
      refine ⟨?_, fun before' alike => ?_⟩
      · rw [← List.append_assoc, ← List.append_assoc]
        exact .site exposed isQuote isSpecifier
      · refine .plain ?_ ?_ filled (scans _ (alike.append _))
        · rw [← List.append_assoc, ← alike.head?_eq]
          exact siteAt?_local exposed isQuote isSpecifier noSite
        · rw [← List.append_assoc, lexemeLength?_local alike isQuote (by simp [filled])
            (by rw [measured, List.length_append]; omega), measured]
  | @site before lead specifier rest quote form found here later ih =>
    obtain ⟨-, scans⟩ := ih fun form specifier member =>
      fits form specifier (by simp [member])
    have isSpecifier' := fits form specifier (by simp)
    obtain ⟨opening, rfl, previous, opens, isQuote, isSpecifier⟩ := exists_opening_of_site here
    simp only [List.map_cons, Piece.replace, List.flatMap_cons, Piece.text, List.singleton_append]
    generalize (found.map (Piece.replace change)).flatMap Piece.text = rest' at scans ⊢
    refine ⟨?_, fun before' alike => ?_⟩
    · simp only [List.append_assoc, List.singleton_append]
      exact .site opens.walk.exposed isQuote isSpecifier
    · refine .site ?_ (scans _ (.of_quote isQuote _ _))
      rw [alike.head?_eq] at previous
      simp only [List.append_assoc, List.singleton_append]
      rw [siteAt?_opening rest' previous opens isQuote isSpecifier', List.length_append]
      rfl

/-- When specifiers are replaced by specifiers, the pieces of the script stay the same but for
the specifiers. -/
theorem pieces_replace {script : List Char} {change : List Char -> List Char}
    (fits : ∀ form specifier, .site form specifier ∈ pieces script ->
      IsSpecifier (change specifier)) :
    pieces (((pieces script).map (Piece.replace change)).flatMap Piece.text) =
      (pieces script).map (Piece.replace change) :=
  (((scan_pieces script).replace fits).2 [] (.same [])).pieces_eq

end Relink.Script
