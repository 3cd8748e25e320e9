import Relink.Proofs.Script.Scan

/-!
# Scanning what was rendered

A script is put together from items, each ended by a semicolon: statements that name a module,
and texts that only look like it. The scan finds the specifiers of the statements, each with its
form, its span and its line, and nothing in the other items. What makes it compose is that an
item leaves the scan where a word may begin, and that nothing in an item reaches beyond its
semicolon.
-/

namespace Relink.Script

/-- The text of a string between its quotes: escapes, and characters that do not end it. -/
inductive StringBody (quote : Char) : List Char -> Prop where
  | nil : StringBody quote []
  | plain {character : Char} {rest : List Char} (noEscape : character ≠ '\\')
      (noFeed : character ≠ '\n') (other : character ≠ quote) (body : StringBody quote rest) :
      StringBody quote (character :: rest)
  | escape {rest : List Char} (character : Char) (body : StringBody quote rest) :
      StringBody quote ('\\' :: character :: rest)

/-- The text of a template literal between its marks. -/
inductive TemplateBody : List Char -> Prop where
  | nil : TemplateBody []
  | plain {character : Char} {rest : List Char} (noEscape : character ≠ '\\')
      (other : character ≠ '\x60') (body : TemplateBody rest) : TemplateBody (character :: rest)
  | escape {rest : List Char} (character : Char) (body : TemplateBody rest) :
      TemplateBody ('\\' :: character :: rest)

/-- What stands between the quote after a specifier and the semicolon. -/
inductive Closing : Form -> List Char -> Prop where
  | staticImport {gap : List Char} (isGap : Gap gap) : Closing .staticImport gap
  | exportFrom {gap : List Char} (isGap : Gap gap) : Closing .exportFrom gap
  | dynamicImport {gap inner : List Char} (isInner : Gap inner) (isGap : Gap gap) :
      Closing .dynamicImport (inner ++ ')' :: gap)
  | requireCall {gap inner : List Char} (isInner : Gap inner) (isGap : Gap gap) :
      Closing .requireCall (inner ++ ')' :: gap)

/-- A text that names no module, though it may look like it. -/
inductive Noise : List Char -> Prop where
  | string {quote : Char} {body : List Char} (isQuote : isQuote quote = true)
      (isBody : StringBody quote body) : Noise (quote :: (body ++ [quote]))
  | template {body : List Char} (isBody : TemplateBody body) :
      Noise ('\x60' :: (body ++ ['\x60']))
  | comment {text : List Char} (isComment : Comment text) : Noise text
  /-- Names that are exported from where they are. -/
  | exportNames {gap names : List Char} (isGap : Gap gap) (isClause : Clause names) :
      Noise ("export".toList ++ (gap ++ '{' :: (names ++ ['}'])))
  /-- A method that is called `require`. -/
  | memberCall {object gap inner specifier last : List Char} {quote : Char}
      (isObject : ∀ character ∈ object, isWord character = true) (isGap : Gap gap)
      (isInner : Gap inner) (isQuote : isQuote quote = true) (isBody : StringBody quote specifier)
      (isLast : Gap last) :
      Noise (object ++ ('.' :: ("require".toList ++ (gap ++ '(' :: (inner ++
        quote :: (specifier ++ quote :: (last ++ [')'])))))))

/-- What stands before the semicolon of an item. -/
inductive Item where
  /-- A statement that names a module. -/
  | reference (form : Form) (opening : List Char) (quote : Char) (specifier closing : List Char)
      (opens : Opening form opening) (isQuote : isQuote quote = true)
      (isSpecifier : IsSpecifier specifier) (closes : Closing form closing)
  | noise (text : List Char) (isNoise : Noise text)

/-- The characters of an item. -/
def Item.text : Item -> List Char
  | reference _ opening quote specifier closing _ _ _ _ =>
    opening ++ quote :: (specifier ++ quote :: closing)
  | noise text _ => text

/-- The specifier of an item that begins at the byte `offset` of the line `line`. -/
def Item.occurrences (offset line : Nat) : Item -> List Occurrence
  | reference form opening _ specifier _ _ _ _ _ =>
    let start := offset + Text.byteLength opening + 1
    [⟨String.ofList specifier, start, start + Text.byteLength specifier, form,
      line + Text.lineFeeds opening⟩]
  | noise _ _ => []

/-- An item with its semicolon and the gap after it. -/
structure Sentence where
  item : Item
  gap : List Char
  isGap : Gap gap

/-- The characters of a sentence. -/
def Sentence.text (sentence : Sentence) : List Char :=
  sentence.item.text ++ ';' :: sentence.gap

/-- The script that sentences make. -/
def render : List Sentence -> List Char
  | [] => []
  | sentence :: rest => sentence.text ++ render rest

/-- The specifiers of sentences of which the first begins at the byte `offset` of the line
`line`. -/
def rendered (offset line : Nat) : List Sentence -> List Occurrence
  | [] => []
  | sentence :: rest =>
    sentence.item.occurrences offset line ++
      rendered (offset + Text.byteLength sentence.text) (line + Text.lineFeeds sentence.text) rest

/-! ## Closed literals -/

/-- A string ends with the quote behind its body. -/
theorem stringLength_closed {quote : Char} {body : List Char} (passed : Nat) (rest : List Char)
    (isQuote : isQuote quote = true) (isBody : StringBody quote body) :
    stringLength quote passed (body ++ quote :: rest) = passed + body.length + 1 := by
  obtain ⟨noEscape, noFeed, -⟩ := quote_ne isQuote
  induction isBody generalizing passed with
  | nil => rw [List.nil_append, stringLength_plain _ _ noEscape, if_neg noFeed, if_pos rfl]; rfl
  | plain noEscape noFeed other _ ih =>
    rw [List.cons_append, stringLength_plain _ _ noEscape, if_neg noFeed, if_neg other, ih,
      List.length_cons]
    omega
  | escape character _ ih =>
    rw [List.cons_append, List.cons_append, stringLength_escape, ih, List.length_cons,
      List.length_cons]
    omega

/-- A template ends with the mark behind its body. -/
theorem templateLength_closed {body : List Char} (passed : Nat) (rest : List Char)
    (isBody : TemplateBody body) :
    templateLength passed (body ++ '\x60' :: rest) = passed + body.length + 1 := by
  induction isBody generalizing passed with
  | nil => rw [List.nil_append, templateLength_plain _ _ (by decide), if_pos rfl]; rfl
  | plain noEscape other _ ih =>
    rw [List.cons_append, templateLength_plain _ _ noEscape, if_neg other, ih, List.length_cons]
    omega
  | escape character _ ih =>
    rw [List.cons_append, List.cons_append, templateLength_escape, ih, List.length_cons,
      List.length_cons]
    omega

/-! ## Places where no statement begins -/

/-- A statement begins with a word. -/
theorem Opening.exists_cons {form : Form} {opening : List Char} (opens : Opening form opening) :
    ∃ first rest, opening = first :: rest ∧ isWord first = true := by
  cases opens with
  | bareImport _ => exact ⟨'i', _, rfl, by decide⟩
  | importFrom _ _ _ => exact ⟨'i', _, rfl, by decide⟩
  | exportFrom _ _ _ => exact ⟨'e', _, rfl, by decide⟩
  | dynamicImport _ _ => exact ⟨'i', _, rfl, by decide⟩
  | requireCall _ _ => exact ⟨'r', _, rfl, by decide⟩

/-- No statement begins where no opening leads to a quote. -/
theorem siteAt?_eq_none_of_ne {previous : Option Char} {text : List Char}
    (apart : ∀ {form : Form} {opening : List Char} {quote : Char} (rest : List Char),
      Opening form opening -> isQuote quote = true -> text ≠ opening ++ quote :: rest) :
    siteAt? previous text = none := by
  rw [Option.eq_none_iff_forall_ne_some]
  intro site found
  obtain ⟨-, opening, quote, rest, opens, isQuote, -, same, -⟩ := exists_opening_of_siteAt? found
  exact apart _ opens isQuote same

/-- No statement begins with a character of no word. -/
theorem siteAt?_solid {character : Char} (previous : Option Char) (rest : List Char)
    (solid : isWord character = false) : siteAt? previous (character :: rest) = none := by
  refine siteAt?_eq_none_of_ne fun _ opens _ same => ?_
  obtain ⟨first, opening, rfl, isWord_⟩ := opens.exists_cons
  rw [(List.cons.inj same).1, isWord_] at solid
  cases solid

/-- No statement begins inside a word, or after a point. -/
theorem siteAt?_inside {previous : Option Char} (text : List Char)
    (inside : ¬BeforeWord previous) : siteAt? previous text = none := by
  rw [Option.eq_none_iff_forall_ne_some]
  intro site found
  exact inside (exists_opening_of_siteAt? found).1

/-- A quote belongs to no clause, and begins no comment. -/
theorem quote_foreign {quote : Char} (isQuote : isQuote quote = true) :
    isClauseCharacter quote = false ∧ quote ≠ '/' := by
  refine ⟨?_, (quote_ne isQuote).2.2.2.1⟩
  by_contra plain
  rw [isQuote_of_isClauseCharacter (by simpa using plain)] at isQuote
  cases isQuote

/-- Two clauses that begin a text and end before characters that no clause holds are the same. -/
theorem Clause.unique {clause clause' rest rest' : List Char} {next next' : Char}
    (isClause : Clause clause) (isClause' : Clause clause')
    (foreign : isClauseCharacter next = false ∧ next ≠ '/')
    (foreign' : isClauseCharacter next' = false ∧ next' ≠ '/')
    (same : clause ++ next :: rest = clause' ++ next' :: rest') : clause = clause' := by
  -- Both clauses are read along each other; they part only where one of them ends.
  induction isClause generalizing clause' with
  | nil =>
    cases isClause' with
    | nil => rfl
    | character plain _ =>
      rw [← (List.cons.inj same).1, foreign.1] at plain
      cases plain
    | comment comment _ =>
      obtain ⟨_, rfl, -⟩ := comment.exists_cons
      exact absurd (List.cons.inj same).1 foreign.2
  | @character character rest plain _ ih =>
    cases isClause' with
    | nil =>
      rw [(List.cons.inj same).1, foreign'.1] at plain
      cases plain
    | character _ isClause' =>
      obtain ⟨rfl, later⟩ := List.cons.inj same
      rw [ih isClause' later]
    | comment comment _ =>
      obtain ⟨_, rfl, -⟩ := comment.exists_cons
      exact absurd (List.cons.inj same).1 (not_slash_of_isClauseCharacter plain)
  | @comment text rest comment _ ih =>
    cases isClause' with
    | nil =>
      obtain ⟨_, rfl, -⟩ := comment.exists_cons
      exact absurd (List.cons.inj same).1.symm foreign'.2
    | character plain _ =>
      obtain ⟨_, rfl, -⟩ := comment.exists_cons
      exact absurd (List.cons.inj same).1.symm (not_slash_of_isClauseCharacter plain)
    | comment comment' isClause' =>
      rw [List.append_assoc, List.append_assoc] at same
      obtain rfl := comment.unique comment' same
      rw [ih isClause' (List.append_cancel_left same)]

/-- Clauses behind clauses are clauses. -/
theorem Clause.append {clause later : List Char} (isClause : Clause clause)
    (isLater : Clause later) : Clause (clause ++ later) := by
  induction isClause with
  | nil => exact isLater
  | character plain _ ih => exact .character plain ih
  | comment comment _ ih =>
    rw [List.append_assoc]
    exact .comment comment ih

/-- A gap is a clause. -/
theorem Gap.clause {gap : List Char} (isGap : Gap gap) : Clause gap := by
  induction isGap with
  | nil => exact .nil
  | blank isBlank _ ih => exact .character (by simp [isClauseCharacter, isBlank]) ih
  | comment comment _ ih => exact .comment comment ih

/-- A statement up to the first of its characters that no clause holds: the quote of its specifier
or the bracket of its call. -/
theorem Opening.exists_clause {form : Form} {opening : List Char} {quote : Char}
    (opens : Opening form opening) (isQuote : isQuote quote = true) (rest : List Char) :
    ∃ clause next later, opening ++ quote :: rest = clause ++ next :: later ∧ Clause clause ∧
      (next = '(' ∨ Script.isQuote next = true) := by
  cases opens with
  | bareImport isGap =>
    exact ⟨_, quote, rest, rfl, isGap.clause.word_append isWord_import, .inr isQuote⟩
  | importFrom isClause _ isGap =>
    exact ⟨_, quote, rest, rfl,
      (isClause.append (isGap.clause.word_append isWord_from)).word_append isWord_import,
      .inr isQuote⟩
  | exportFrom isClause _ isGap =>
    exact ⟨_, quote, rest, rfl,
      (isClause.append (isGap.clause.word_append isWord_from)).word_append isWord_export,
      .inr isQuote⟩
  | @dynamicImport gap inner isGap _ =>
    exact ⟨"import".toList ++ gap, '(', inner ++ quote :: rest, by simp,
      isGap.clause.word_append isWord_import, .inl rfl⟩
  | @requireCall gap inner isGap _ =>
    exact ⟨"require".toList ++ gap, '(', inner ++ quote :: rest, by simp,
      isGap.clause.word_append isWord_require, .inl rfl⟩

/-- No statement begins in a clause that is broken off before its quote. -/
theorem Clause.siteAt?_eq_none {clause : List Char} {next : Char} (isClause : Clause clause)
    (foreign : isClauseCharacter next = false ∧ next ≠ '/')
    (breaks : next ≠ '(' ∧ isQuote next = false) (previous : Option Char) (rest : List Char) :
    siteAt? previous (clause ++ next :: rest) = none := by
  refine siteAt?_eq_none_of_ne fun tail opens isQuote same => ?_
  obtain ⟨clause', next', later, shape, isClause', kind⟩ := opens.exists_clause isQuote tail
  have foreign' : isClauseCharacter next' = false ∧ next' ≠ '/' := by
    rcases kind with rfl | isQuote
    · decide
    · exact quote_foreign isQuote
  obtain rfl := isClause.unique isClause' foreign foreign' (same.trans shape)
  obtain ⟨rfl, -⟩ := List.cons.inj (List.append_cancel_left (same.trans shape))
  rcases kind with bracket | isQuote
  · exact breaks.1 bracket
  · rw [breaks.2] at isQuote
    cases isQuote

/-! ## Quiet texts -/

/-- A text that stands after `before`, given from its last character back, and before `rest`, and
holds no statement of its own: the scan passes over it part by part. -/
inductive Quiet (rest : List Char) : List Char -> List Char -> Prop where
  | nil {before : List Char} : Quiet rest before []
  | part {before part text : List Char}
      (noSite : siteAt? before.head? (part ++ (text ++ rest)) = none)
      (measured : (lexemeLength? before (part ++ (text ++ rest))).getD 1 = part.length)
      (filled : part ≠ []) (later : Quiet rest (part.reverse ++ before) text) :
      Quiet rest before (part ++ text)

/-- Two texts without statements, one behind the other, make one. -/
theorem Quiet.append {before text later rest : List Char}
    (quiet : Quiet (later ++ rest) before text)
    (next : Quiet rest (text.reverse ++ before) later) : Quiet rest before (text ++ later) := by
  induction quiet with
  | nil => exact next
  | part noSite measured filled _ ih =>
    rw [List.append_assoc]
    refine .part ?_ ?_ filled (ih ?_)
    · rwa [List.append_assoc]
    · rwa [List.append_assoc]
    · rwa [List.reverse_append, List.append_assoc] at next

/-- A quiet text of one part. -/
theorem Quiet.of_part {before part rest : List Char}
    (noSite : siteAt? before.head? (part ++ rest) = none)
    (measured : (lexemeLength? before (part ++ rest)).getD 1 = part.length) (filled : part ≠ []) :
    Quiet rest before part := by
  have quiet : Quiet rest before (part ++ []) := .part noSite measured filled .nil
  rwa [List.append_nil] at quiet

/-- A single character that begins neither a word nor a comment nor a literal. -/
theorem Quiet.solid {character : Char} (before rest : List Char)
    (solid : isWord character = false) (plain : isMark character = false) :
    Quiet rest before [character] := by
  refine .of_part (siteAt?_solid _ _ solid) ?_ (by simp)
  rw [List.singleton_append, lexemeLength?_plain _ _ plain]
  rfl

/-- A comment has no statements in it. -/
theorem Quiet.comment {text : List Char} (before rest : List Char) (comment : Comment text) :
    Quiet rest before text := by
  cases comment with
  | @block body open_ =>
    have found := commentLength?_block rest open_
    refine .of_part (siteAt?_solid _ _ (by decide)) ?_ (by simp)
    simp only [List.cons_append, List.append_assoc, List.nil_append, lexemeLength?, found]
    simp
  | @line body oneLine =>
    have found := commentLength?_line rest oneLine
    have quiet : Quiet rest before (('/' :: '/' :: body) ++ ['\n']) := by
      refine .part (siteAt?_solid _ _ (by decide)) ?_ (by simp)
        (.solid _ _ (by decide) (by decide))
      simp only [List.cons_append, List.nil_append, lexemeLength?, found]
      simp
    exact quiet

/-- A gap has no statements in it. -/
theorem Quiet.gap {gap : List Char} (before rest : List Char) (isGap : Gap gap) :
    Quiet rest before gap := by
  induction isGap generalizing before with
  | nil => exact .nil
  | @blank character gap isBlank _ ih =>
    have solid : isWord character = false := isWord_of_isBlank isBlank
    have plain : isMark character = false :=
      isMark_of_isClauseCharacter (by simp [isClauseCharacter, isBlank])
    exact (Quiet.solid before (gap ++ rest) solid plain).append (ih _)
  | comment comment _ ih => exact (Quiet.comment before _ comment).append (ih _)

/-- A clause is quiet if no statement begins in it. -/
theorem Quiet.of_clause {clause rest : List Char} (before : List Char) (isClause : Clause clause)
    (noSite : ∀ later, Clause later -> later <:+ clause -> later ≠ [] -> ∀ previous,
      siteAt? previous (later ++ rest) = none) : Quiet rest before clause := by
  induction isClause generalizing before with
  | nil => exact .nil
  | @character character clause plain isClause ih =>
    change Quiet _ _ ([character] ++ clause)
    refine .part ?_ ?_ (by simp) (ih _ fun later isLater ends =>
      noSite later isLater (ends.trans (List.suffix_cons ..)))
    · exact noSite _ (.character plain isClause) List.suffix_rfl (by simp) _
    · rw [List.singleton_append, lexemeLength?_plain _ _ (isMark_of_isClauseCharacter plain)]
      rfl
  | comment comment _ ih =>
    exact (Quiet.comment before _ comment).append (ih _ fun later isLater ends =>
      noSite later isLater (ends.trans (List.suffix_append ..)))

/-- A clause is quiet when it is broken off before its quote. -/
theorem Quiet.clause {clause : List Char} {next : Char} (before rest : List Char)
    (isClause : Clause clause) (foreign : isClauseCharacter next = false ∧ next ≠ '/')
    (breaks : next ≠ '(' ∧ isQuote next = false) : Quiet (next :: rest) before clause :=
  .of_clause before isClause fun _ isLater _ _ previous =>
    isLater.siteAt?_eq_none foreign breaks previous rest

/-- A word is quiet after a point. -/
theorem Quiet.word {word : List Char} (before rest : List Char)
    (isWord_ : ∀ character ∈ word, isWord character = true)
    (inside : ¬BeforeWord before.head?) : Quiet rest before word := by
  induction word generalizing before with
  | nil => exact .nil
  | cons character word ih =>
    have here : isWord character = true := isWord_ character (by simp)
    change Quiet _ _ ([character] ++ word)
    refine .part (siteAt?_inside _ inside) ?_ (by simp)
      (ih _ (fun other member => isWord_ other (by simp [member])) ?_)
    · rw [List.singleton_append, lexemeLength?_plain _ _ (isMark_of_isWord here)]
      rfl
    · intro begins
      have := (begins character rfl).1
      rw [here] at this
      cases this

/-- A string has no statements in it. -/
theorem Quiet.string {quote : Char} {body : List Char} (before rest : List Char)
    (isQuote : isQuote quote = true) (isBody : StringBody quote body) :
    Quiet rest before (quote :: (body ++ [quote])) := by
  refine .of_part (siteAt?_solid _ _ (isWord_of_isQuote isQuote)) ?_ (by simp)
  have closed := stringLength_closed 1 rest isQuote isBody
  have measured : lexemeLength? before (quote :: (body ++ quote :: rest)) =
      some (stringLength quote 1 (body ++ quote :: rest)) := by
    simp only [Script.isQuote, Bool.or_eq_true, beq_iff_eq] at isQuote
    rcases isQuote with rfl | rfl <;> rfl
  simp only [List.cons_append, List.append_assoc, List.nil_append, measured, closed]
  simp
  omega

/-- A template has no statements in it. -/
theorem Quiet.template {body : List Char} (before rest : List Char)
    (isBody : TemplateBody body) : Quiet rest before ('\x60' :: (body ++ ['\x60'])) := by
  refine .of_part (siteAt?_solid _ _ (by decide)) ?_ (by simp)
  have closed := templateLength_closed 1 rest isBody
  simp only [List.cons_append, List.append_assoc, List.nil_append, lexemeLength?, closed]
  simp
  omega

/-! ## Items -/

theorem semicolon_foreign : isClauseCharacter ';' = false ∧ ';' ≠ '/' := by
  decide

/-- A text that names no module is quiet up to its semicolon. -/
theorem Quiet.noise {text : List Char} (before rest : List Char) (isNoise : Noise text) :
    Quiet (';' :: rest) before text := by
  cases isNoise with
  | string isQuote isBody => exact .string _ _ isQuote isBody
  | template isBody => exact .template _ _ isBody
  | comment isComment => exact .comment _ _ isComment
  | @exportNames gap names isGap isClause =>
    refine .clause _ _ ?_ semicolon_foreign (by decide)
    refine Clause.word_append (isGap.clause.append (.character (by decide) ?_)) isWord_export
    exact isClause.append (.character (by decide) .nil)
  | @memberCall object gap inner specifier last quote isObject isGap isInner isQuote isBody
      isLast =>
    have inside {earlier : List Char} : ¬BeforeWord ('.' :: earlier).head? :=
      fun begins => (begins '.' rfl).2 rfl
    have call (before : List Char) : Quiet (';' :: rest) before
        (gap ++ (['('] ++ (inner ++ (quote :: (specifier ++ [quote]) ++ (last ++ [')']))))) :=
      (Quiet.gap _ _ isGap).append <| (Quiet.solid _ _ (by decide) (by decide)).append <|
        (Quiet.gap _ _ isInner).append <| (Quiet.string _ _ isQuote isBody).append <|
        (Quiet.gap _ _ isLast).append (Quiet.solid _ _ (by decide) (by decide))
    have method (before : List Char) := (Quiet.word ('.' :: before) _ isWord_require inside).append
      (call _)
    have whole := (Quiet.clause before _ (.word isObject) (by decide : isClauseCharacter '.' = false ∧ _)
      (by decide)).append ((Quiet.solid _ _ (by decide) (by decide)).append (method _))
    simpa only [List.singleton_append, List.cons_append, List.append_assoc, List.nil_append]
      using whole

/-- What comes after the quote of a specifier is quiet up to the semicolon. -/
theorem Quiet.closing {form : Form} {closing : List Char} (before rest : List Char)
    (closes : Closing form closing) : Quiet rest before closing := by
  have call {inner gap : List Char} (isInner : Gap inner) (isGap : Gap gap) :
      Quiet rest before (inner ++ ')' :: gap) :=
    (Quiet.gap _ _ isInner).append
      ((Quiet.solid _ _ (by decide) (by decide)).append (Quiet.gap _ _ isGap))
  cases closes with
  | staticImport isGap => exact .gap _ _ isGap
  | exportFrom isGap => exact .gap _ _ isGap
  | dynamicImport isInner isGap => exact call isInner isGap
  | requireCall isInner isGap => exact call isInner isGap

/-- The end of an item is quiet. -/
theorem Quiet.ending {gap : List Char} (before rest : List Char) (isGap : Gap gap) :
    Quiet rest before (';' :: gap) :=
  (Quiet.solid before (gap ++ rest) (by decide) (by decide)).append (Quiet.gap _ _ isGap)

/-- A quiet text falls into plain pieces. -/
theorem Quiet.scan {before text rest : List Char} (quiet : Quiet rest before text) :
    ∃ parts : List (List Char), parts.flatten = text ∧ ∀ found,
      Scan (text.reverse ++ before) rest found ->
        Scan before (text ++ rest) (parts.map Piece.plain ++ found) := by
  induction quiet with
  | nil => exact ⟨[], rfl, fun _ scan => scan⟩
  | @part before part text noSite measured filled _ ih =>
    obtain ⟨parts, rfl, scans⟩ := ih
    refine ⟨part :: parts, rfl, fun found scan => ?_⟩
    rw [List.append_assoc]
    refine .plain noSite measured filled (scans found ?_)
    rwa [List.reverse_append, List.append_assoc] at scan

/-- Two texts have the line feeds of both. -/
theorem lineFeeds_append (first second : List Char) :
    Text.lineFeeds (first ++ second) = Text.lineFeeds first + Text.lineFeeds second :=
  List.count_append

/-- A specifier has no line feeds. -/
theorem IsSpecifier.lineFeeds {specifier : List Char} (isSpecifier : IsSpecifier specifier) :
    Text.lineFeeds specifier = 0 := by
  apply List.count_eq_zero.2
  intro member
  exact absurd (isSpecifier.characters _ member) (by decide)

/-- Plain pieces move what is found behind them by their bytes and their lines. -/
theorem occurrencesFrom_plain (offset line : Nat) (parts : List (List Char))
    (found : List Piece) :
    occurrencesFrom offset line (parts.map Piece.plain ++ found) =
      occurrencesFrom (offset + Text.byteLength parts.flatten)
        (line + Text.lineFeeds parts.flatten) found := by
  induction parts generalizing offset line with
  | nil => rfl
  | cons part parts ih =>
    rw [List.map_cons, List.cons_append, occurrencesFrom, ih, List.flatten_cons,
      Text.byteLength_append, lineFeeds_append, Nat.add_assoc, Nat.add_assoc]

/-- A text that is not empty takes bytes. -/
theorem byteLength_pos {text : List Char} (filled : text ≠ []) : 0 < Text.byteLength text := by
  obtain ⟨character, rest, rfl⟩ := List.exists_cons_of_ne_nil filled
  exact Nat.add_pos_left character.utf8Size_pos _

/-- A quote takes one byte. -/
theorem byteLength_quote {quote : Char} (isQuote : isQuote quote = true) :
    Text.byteLength [quote] = 1 := by
  simp only [Script.isQuote, Bool.or_eq_true, beq_iff_eq] at isQuote
  rcases isQuote with rfl | rfl <;> rfl

/-- A gap ends where a word may begin. -/
theorem Gap.beforeWord {gap : List Char} {previous : Char} (isGap : Gap gap)
    (open_ : isWord previous = false ∧ previous ≠ '.') :
    BeforeWord (previous :: gap).getLast? := by
  induction isGap generalizing previous with
  | nil =>
    rintro character same
    rw [List.getLast?_singleton, Option.some.injEq] at same
    exact same ▸ open_
  | @blank character gap isBlank _ ih =>
    rw [List.getLast?_cons_cons]
    refine ih ⟨isWord_of_isBlank isBlank, ?_⟩
    rintro rfl
    exact absurd isBlank (by decide)
  | @comment text gap comment _ ih =>
    obtain ⟨last, ends, open_'⟩ : ∃ last, text.getLast? = some last ∧
        isWord last = false ∧ last ≠ '.' := by
      rcases comment.getLast? with ends | ends <;> exact ⟨_, ends, by decide⟩
    obtain ⟨body, rfl⟩ := List.getLast?_eq_some_iff.1 ends
    have joined := ih open_'
    rw [show previous :: (body ++ [last] ++ gap) = previous :: body ++ (last :: gap) by simp,
      List.getLast?_append, List.getLast?_cons, Option.some_or, ← List.getLast?_cons]
    exact joined

/-- A sentence ends where a word may begin. -/
theorem Sentence.beforeWord (sentence : Sentence) (before : List Char) :
    BeforeWord (sentence.text.reverse ++ before).head? := by
  have ends := sentence.isGap.beforeWord (by decide : isWord ';' = false ∧ ';' ≠ '.')
  rw [← List.head?_reverse] at ends
  rw [Sentence.text, List.reverse_append, List.append_assoc]
  obtain ⟨last, text, shape⟩ := List.exists_cons_of_ne_nil
    (by simp : (';' :: sentence.gap).reverse ≠ [])
  rw [shape] at ends ⊢
  exact ends

/-! ## Yields -/

/-- A text that stands after `before` and before `rest` is scanned by itself: the scan stops at its
end, and finds the specifiers `here` in it, if the text begins at a byte of a line. -/
def Yields (rest before text : List Char) (here : Nat -> Nat -> List Occurrence) : Prop :=
  ∃ pieces : List Piece,
    (∀ found, Scan (text.reverse ++ before) rest found ->
      Scan before (text ++ rest) (pieces ++ found)) ∧
      ∀ offset line found, occurrencesFrom offset line (pieces ++ found) =
        here offset line ++ occurrencesFrom (offset + Text.byteLength text)
          (line + Text.lineFeeds text) found

/-- What two texts yield, one behind the other, is found in this order, the second moved by the
bytes and the lines of the first. -/
theorem Yields.append {rest before text later : List Char}
    {here there : Nat -> Nat -> List Occurrence} (yields : Yields (later ++ rest) before text here)
    (next : Yields rest (text.reverse ++ before) later there) :
    Yields rest before (text ++ later) fun offset line => here offset line ++
      there (offset + Text.byteLength text) (line + Text.lineFeeds text) := by
  obtain ⟨first, scansFirst, countsFirst⟩ := yields
  obtain ⟨second, scansSecond, countsSecond⟩ := next
  refine ⟨first ++ second, fun found scan => ?_, fun offset line found => ?_⟩
  · rw [List.append_assoc, List.append_assoc]
    refine scansFirst _ (scansSecond _ ?_)
    rwa [List.reverse_append, List.append_assoc] at scan
  · rw [List.append_assoc, countsFirst, countsSecond, List.append_assoc, Text.byteLength_append,
      lineFeeds_append, Nat.add_assoc, Nat.add_assoc]

/-- A text without statements yields nothing. -/
theorem Quiet.yields {rest before text : List Char} (quiet : Quiet rest before text) :
    Yields rest before text fun _ _ => [] := by
  obtain ⟨parts, rfl, scans⟩ := quiet.scan
  exact ⟨parts.map Piece.plain, scans, fun offset line found => occurrencesFrom_plain ..⟩

/-- A text without statements behind another adds nothing to what that yields. -/
theorem Yields.append_quiet {rest before text later : List Char}
    {here : Nat -> Nat -> List Occurrence} (yields : Yields (later ++ rest) before text here)
    (quiet : Quiet rest (text.reverse ++ before) later) :
    Yields rest before (text ++ later) here := by
  have whole := yields.append quiet.yields
  simpa only [List.append_nil] using whole

/-- What leads to a specifier, the specifier and the quote after it are scanned for the
specifier. -/
theorem Opening.yields {form : Form} {opening specifier : List Char} {quote : Char}
    (rest before : List Char) (begins : BeforeWord before.head?) (opens : Opening form opening)
    (isQuote : isQuote quote = true) (isSpecifier : IsSpecifier specifier) :
    Yields rest before (opening ++ quote :: (specifier ++ [quote])) fun offset line =>
      [⟨String.ofList specifier, offset + Text.byteLength opening + 1,
        offset + Text.byteLength opening + 1 + Text.byteLength specifier, form,
        line + Text.lineFeeds opening⟩] := by
  have size := byteLength_quote isQuote
  refine ⟨[.plain (opening ++ [quote]), .site form specifier, .plain [quote]],
    fun found scan => ?_, fun offset line found => ?_⟩
  · have here : siteAt? before.head? (opening ++ [quote] ++ (specifier ++ quote :: rest)) =
        some ⟨form, (opening ++ [quote]).length, specifier⟩ := by
      simpa using siteAt?_opening rest begins opens isQuote isSpecifier
    have step := Scan.site here (by simpa using scan)
    simpa using step
  · have quoted (text : List Char) :
        Text.byteLength (quote :: text) = 1 + Text.byteLength text := by
      rw [← size, ← Text.byteLength_append]
      rfl
    have noFeed (text : List Char) : Text.lineFeeds (quote :: text) = Text.lineFeeds text :=
      List.count_cons_of_ne (quote_ne isQuote).2.1
    have noFeeds : Text.lineFeeds [] = 0 := rfl
    simp only [occurrencesFrom, List.cons_append, List.nil_append, Text.byteLength_append,
      lineFeeds_append, quoted, noFeed, noFeeds, isSpecifier.lineFeeds, Text.byteLength_nil,
      Nat.add_zero, Nat.add_assoc]

/-- A script that is scanned by itself holds the specifiers that are found in it. -/
theorem Yields.occurrences_eq {text : List Char} {here : Nat -> Nat -> List Occurrence}
    (yields : Yields [] [] text here) : occurrences (String.ofList text) = here 0 1 := by
  obtain ⟨pieces, scans, counts⟩ := yields
  have scan := scans [] .done
  rw [List.append_nil] at scan
  rw [occurrences, String.toList_ofList, scan.pieces_eq, counts]
  exact List.append_nil _

/-- An item is scanned for its specifier. If it names no module, what comes after it must not make
a statement of it. -/
theorem Item.yields (item : Item) {before rest : List Char} (begins : BeforeWord before.head?)
    (quiet : ∀ text isNoise, item = .noise text isNoise -> Quiet rest before text) :
    Yields rest before item.text fun offset line => item.occurrences offset line := by
  cases item with
  | noise text isNoise => exact (quiet text isNoise rfl).yields
  | reference form opening quote specifier closing opens isQuote isSpecifier closes =>
    have whole := (Opening.yields (closing ++ rest) before begins opens isQuote
      isSpecifier).append_quiet (Quiet.closing _ _ closes)
    simpa [Item.text, Item.occurrences] using whole

/-- A sentence is scanned for its specifier, whatever comes after it. -/
theorem Sentence.yields (sentence : Sentence) {before : List Char}
    (begins : BeforeWord before.head?) (rest : List Char) :
    Yields rest before sentence.text fun offset line =>
      sentence.item.occurrences offset line :=
  (sentence.item.yields begins fun _ isNoise _ => Quiet.noise before _ isNoise).append_quiet
    (Quiet.ending _ rest sentence.isGap)

/-! ## Scripts -/

/-- Sentences are scanned as they are rendered, wherever a word may begin. -/
theorem exists_scan_render (sentences : List Sentence) (before : List Char)
    (begins : BeforeWord before.head?) :
    ∃ found, Scan before (render sentences) found ∧
      ∀ offset line, occurrencesFrom offset line found = rendered offset line sentences := by
  induction sentences generalizing before with
  | nil => exact ⟨[], .done, fun _ _ => rfl⟩
  | cons sentence rest ih =>
    obtain ⟨found, later, same⟩ := ih _ (sentence.beforeWord before)
    obtain ⟨pieces, scans, counts⟩ := sentence.yields begins (render rest)
    refine ⟨pieces ++ found, scans found later, fun offset line => ?_⟩
    rw [counts, same]
    rfl

/-- The specifiers of a rendered script are those of its statements, in their order. -/
theorem occurrences_render (sentences : List Sentence) :
    occurrences (String.ofList (render sentences)) = rendered 0 1 sentences := by
  obtain ⟨found, scan, same⟩ := exists_scan_render sentences []
    (fun _ impossible => by cases impossible)
  rw [occurrences, String.toList_ofList, scan.pieces_eq, same]

end Relink.Script
