import Relink.Proofs.Script.Locality

/-!
# Statements on lines of their own

Statements need no semicolons where each begins a line. Two statements on two lines are found as
each of them is found alone, except where the first one exports names from where they are and the
second one imports by a clause: the walk over the clause of the first one goes on through the line
break, and the `from` of the second one makes an export of both.
-/

namespace Relink.Script

/-- The quoted specifier at the end of a statement. -/
structure Source where
  quote : Char
  specifier : List Char
  isQuote : isQuote quote = true
  isSpecifier : IsSpecifier specifier

/-- What stands between a keyword and the quote after its `from`. -/
structure FromClause where
  clause : List Char
  gap : List Char
  isClause : Clause clause
  apart : Apart clause
  isGap : Gap gap

def FromClause.text (lead : FromClause) : List Char :=
  lead.clause ++ ("from".toList ++ lead.gap)

/-- What stands between an `export` and the end of its statement, if it has no `from`. -/
structure Exports where
  gap : List Char
  names : List Char
  isGap : Gap gap
  isClause : Clause names

def Exports.text (exports : Exports) : List Char :=
  exports.gap ++ '{' :: (exports.names ++ ['}'])

/-- A statement without a semicolon. -/
inductive Statement where
  /-- `import "…"`. -/
  | bareImport (gap : List Char) (isGap : Gap gap) (source : Source)
  /-- `import … from "…"`. -/
  | importFrom (lead : FromClause) (source : Source)
  /-- `export … from "…"`. -/
  | exportFrom (lead : FromClause) (source : Source)
  /-- `export { … }`. -/
  | exportNames (exports : Exports)

/-- The item that a semicolon would end. -/
def Statement.item : Statement -> Item
  | bareImport gap isGap source =>
    .reference .staticImport ("import".toList ++ gap) source.quote source.specifier []
      (.bareImport isGap) source.isQuote source.isSpecifier (.staticImport .nil)
  | importFrom lead source =>
    .reference .staticImport ("import".toList ++ lead.text) source.quote source.specifier []
      (.importFrom lead.isClause lead.apart lead.isGap) source.isQuote source.isSpecifier
      (.staticImport .nil)
  | exportFrom lead source =>
    .reference .exportFrom ("export".toList ++ lead.text) source.quote source.specifier []
      (.exportFrom lead.isClause lead.apart lead.isGap) source.isQuote source.isSpecifier
      (.exportFrom .nil)
  | exportNames exports =>
    .noise ("export".toList ++ exports.text) (.exportNames exports.isGap exports.isClause)

/-- The characters of a statement. -/
def Statement.text (statement : Statement) : List Char :=
  statement.item.text

/-- Whether a statement takes the `from` of the next one for its own: the first one exports exports
from where they are, and the second one imports by a clause. -/
def Statement.RunsInto : Statement -> Statement -> Prop
  | exportNames _, importFrom _ _ => True
  | _, _ => False

/-! ## Clauses and the gaps after them -/

/-- A clause without the comment that it begins with is a clause. -/
theorem Clause.of_comment_append {text rest : List Char} (isClause : Clause (text ++ rest))
    (comment : Comment text) : Clause rest := by
  obtain ⟨tail, same, -⟩ := comment.exists_cons
  generalize whole : text ++ rest = clause at isClause
  cases isClause with
  | nil => simp [same] at whole
  | character plain _ =>
    rw [same] at whole
    exact absurd (List.cons.inj whole).1.symm (not_slash_of_isClauseCharacter plain)
  | comment comment' isClause =>
    obtain rfl := comment.unique comment' whole
    exact List.append_cancel_left whole ▸ isClause

/-- What comes after a clause in a clause is a clause. -/
theorem Clause.of_append {clause later : List Char} (isClause : Clause clause)
    (whole : Clause (clause ++ later)) : Clause later := by
  induction isClause with
  | nil => exact whole
  | character plain _ ih => exact ih (whole.of_cons (not_slash_of_isClauseCharacter plain))
  | comment comment _ ih =>
    rw [List.append_assoc] at whole
    exact ih (whole.of_comment_append comment)

/-- A clause that a gap begins with is a gap. -/
theorem Gap.of_clause {clause later : List Char} (isClause : Clause clause)
    (isGap : Gap (clause ++ later)) : Gap clause := by
  induction isClause with
  | nil => exact .nil
  | @character character clause plain _ ih =>
    generalize whole : character :: clause ++ later = gap at isGap
    cases isGap with
    | nil => cases whole
    | blank isBlank isGap =>
      obtain ⟨rfl, rfl⟩ := List.cons.inj whole
      exact .blank isBlank (ih isGap)
    | comment comment _ =>
      obtain ⟨_, rfl, -⟩ := comment.exists_cons
      exact absurd (List.cons.inj whole).1 (not_slash_of_isClauseCharacter plain)
  | @comment text clause comment _ ih =>
    obtain ⟨tail, same, -⟩ := comment.exists_cons
    generalize whole : text ++ clause ++ later = gap at isGap
    rw [List.append_assoc] at whole
    cases isGap with
    | nil => simp [same] at whole
    | blank isBlank _ =>
      rw [same] at whole
      rw [← (List.cons.inj whole).1] at isBlank
      exact absurd isBlank (by decide)
    | comment comment' isGap =>
      obtain rfl := comment.unique comment' whole
      obtain rfl := List.append_cancel_left whole
      exact .comment comment (ih isGap)

/-- No gap ends in a word. -/
theorem Gap.getLast?_any {gap : List Char} (isGap : Gap gap) :
    gap.getLast?.any isWord = false := by
  cases last : gap.getLast? with
  | none => rfl
  | some character =>
    refine (isGap.beforeWord (by decide : isWord ' ' = false ∧ ' ' ≠ '.') character ?_).1
    rw [List.getLast?_cons, last]
    rfl

/-- Where a word ends a clause is told by the clause and the gap after it. -/
theorem Clause.eq_of_append_gap {clause clause' gap gap' : List Char} (isClause : Clause clause)
    (isClause' : Clause clause') (isGap : Gap gap) (isGap' : Gap gap')
    (ends : clause.getLast?.any isWord = true) (ends' : clause'.getLast?.any isWord = true)
    (same : clause ++ gap = clause' ++ gap') : clause = clause' := by
  have alike {clause gap between rest : List Char} (isClause : Clause clause)
      (whole : Clause (clause ++ between)) (isGap : Gap gap) (shape : gap = between ++ rest)
      (ends : (clause ++ between).getLast?.any isWord = true) : between = [] := by
    by_contra filled
    have noWord := (Gap.of_clause (isClause.of_append whole) (shape ▸ isGap)).getLast?_any
    rw [List.getLast?_append, List.getLast?_eq_some_getLast filled, Option.some_or,
      ← List.getLast?_eq_some_getLast filled, noWord] at ends
    cases ends
  rcases List.append_eq_append_iff.1 same with ⟨between, rfl, shape⟩ | ⟨between, rfl, shape⟩
  · rw [alike isClause isClause' isGap shape ends', List.append_nil]
  · rw [alike isClause' isClause isGap' shape ends, List.append_nil]

/-! ## Statements in clauses -/

/-- No statement begins in a clause that goes on to the end of the text. -/
theorem Clause.siteAt?_end {clause : List Char} (isClause : Clause clause)
    (previous : Option Char) : siteAt? previous clause = none := by
  rw [Option.eq_none_iff_forall_ne_some]
  intro site found
  have broken := isClause.siteAt?_eq_none semicolon_foreign (by decide) previous []
  rw [siteAt?_append [';'] found] at broken
  cases broken

/-- The quote of a bare import belongs to no statement that begins on a line before. -/
theorem Opening.ne_bareImport {form : Form} {opening clause gap rest tail : List Char}
    {quote quote' : Char} (opens : Opening form opening) (isClause : Clause clause)
    (isGap : Gap gap) (isQuote : isQuote quote = true) (isQuote' : Script.isQuote quote' = true) :
    clause ++ ('\n' :: "import".toList) ++ gap ++ quote :: rest ≠ opening ++ quote' :: tail := by
  intro same
  have isLine : Clause (clause ++ '\n' :: "import".toList) :=
    isClause.append (.character (by decide) (.word isWord_import))
  have lineEnds : (clause ++ '\n' :: "import".toList).getLast? = some 't' := by simp
  have isWhole := isLine.append isGap.clause
  -- Before the gap and the quote stands one word, whichever statement it is taken from.
  have word {front gap' : List Char} {last : Char} (isFront : Clause front) (isGap' : Gap gap')
      (ends : front.getLast? = some last) (isWord_ : isWord last = true)
      (split : opening = front ++ gap') : clause ++ '\n' :: "import".toList = front := by
    subst split
    refine isLine.eq_of_append_gap isFront isGap isGap' (by rw [lineEnds]; decide)
      (by rw [ends]; exact isWord_) ?_
    exact isWhole.unique (isFront.append isGap'.clause) (quote_foreign isQuote)
      (quote_foreign isQuote') same
  have clauseFrom {keyword clause' gap' : List Char}
      (isKeyword : ∀ character ∈ keyword, isWord character = true) (isClause' : Clause clause')
      (isGap' : Gap gap') (split : opening = keyword ++ (clause' ++ ("from".toList ++ gap'))) :
      False := by
    have isFront : Clause (keyword ++ (clause' ++ "from".toList)) :=
      (isClause'.append (.word isWord_from)).word_append isKeyword
    have ends : (keyword ++ (clause' ++ "from".toList)).getLast? = some 'm' := by simp
    have equal := word isFront isGap' ends (by decide) (by simp [split])
    rw [equal, ends] at lineEnds
    exact absurd lineEnds (by decide)
  have call {keyword gap' inner : List Char}
      (isKeyword : ∀ character ∈ keyword, isWord character = true) (isGap' : Gap gap')
      (split : opening = keyword ++ (gap' ++ '(' :: inner)) : False := by
    have shape : opening ++ quote' :: tail =
        (keyword ++ gap') ++ '(' :: (inner ++ quote' :: tail) := by simp [split]
    rw [shape] at same
    have equal := isWhole.unique (isGap'.clause.word_append isKeyword) (quote_foreign isQuote)
      (by decide) same
    rw [equal] at same
    rw [(List.cons.inj (List.append_cancel_left same)).1] at isQuote
    exact absurd isQuote (by decide)
  cases opens with
  | bareImport isGap' =>
    have equal := word (.word isWord_import) isGap' rfl (by decide) rfl
    have lengths := congrArg List.length equal
    simp only [List.length_append, List.length_cons] at lengths
    omega
  | importFrom isClause' _ isGap' => exact clauseFrom isWord_import isClause' isGap' rfl
  | exportFrom isClause' _ isGap' => exact clauseFrom isWord_export isClause' isGap' rfl
  | dynamicImport isGap' _ => exact call isWord_import isGap' rfl
  | requireCall isGap' _ => exact call isWord_require isGap' rfl

/-- No statement begins in a clause on the line before a bare import. -/
theorem Clause.siteAt?_bareImport {clause gap : List Char} {quote : Char}
    (isClause : Clause clause) (isGap : Gap gap) (isQuote : isQuote quote = true)
    (previous : Option Char) (rest : List Char) :
    siteAt? previous (clause ++ ('\n' :: "import".toList) ++ gap ++ quote :: rest) = none :=
  siteAt?_eq_none_of_ne fun _ opens isQuote' => opens.ne_bareImport isClause isGap isQuote isQuote'

/-! ## Statements alone -/

/-- Exported names are a clause. -/
theorem Exports.clause (exports : Exports) : Clause ("export".toList ++ exports.text) := by
  refine Clause.word_append (exports.isGap.clause.append (.character (by decide) ?_)) isWord_export
  exact exports.isClause.append (.character (by decide) .nil)

/-- At the end of a text, exported names are no statement. -/
theorem Exports.quiet_end (exports : Exports) (before : List Char) :
    Quiet [] before ("export".toList ++ exports.text) := by
  refine .of_clause before exports.clause fun later isLater _ _ previous => ?_
  rw [List.append_nil]
  exact isLater.siteAt?_end previous

/-- A statement yields its own specifier, wherever a word may begin. -/
theorem Statement.yields (statement : Statement) {before rest : List Char}
    (begins : BeforeWord before.head?)
    (quiet : ∀ exports, statement = .exportNames exports ->
      Quiet rest before ("export".toList ++ exports.text)) :
    Yields rest before statement.text fun offset line =>
      statement.item.occurrences offset line := by
  refine statement.item.yields begins fun text isNoise same => ?_
  cases statement with
  | bareImport | importFrom | exportFrom => cases same
  | exportNames exports =>
    obtain rfl := Item.noise.inj same
    exact quiet exports rfl

theorem beforeWord_none : BeforeWord ([] : List Char).head? :=
  nofun

/-- A statement alone is found with its own form. -/
theorem Statement.occurrences_text (statement : Statement) :
    occurrences (String.ofList statement.text) = statement.item.occurrences 0 1 :=
  (statement.yields beforeWord_none fun exports _ => exports.quiet_end []).occurrences_eq

/-! ## Statements on two lines -/

/-- What an item yields further on is what it yields at the start, moved. -/
theorem Item.occurrences_shift (item : Item) (bytes lines offset line : Nat) :
    (item.occurrences offset line).map (Occurrence.shift bytes lines) =
      item.occurrences (bytes + offset) (lines + line) := by
  cases item with
  | noise => rfl
  | reference => simp [Item.occurrences, Occurrence.shift, Nat.add_assoc]

/-- Where exported names are passed over up to a line break, the statements on either side of it
are found one by one. -/
theorem Statement.occurrences_of_quiet (first second : Statement)
    (quiet : ∀ exports, first = .exportNames exports ->
      Quiet ('\n' :: second.text) [] ("export".toList ++ exports.text)) :
    occurrences (String.ofList (first.text ++ '\n' :: second.text)) =
      occurrences (String.ofList first.text) ++ (occurrences (String.ofList second.text)).map
        (Occurrence.shift (Text.byteLength first.text + 1) (Text.lineFeeds first.text + 1)) := by
  have begins {before : List Char} : BeforeWord ('\n' :: before).head? := by
    rintro character same
    rw [← Option.some.inj same]
    decide
  have feed (before : List Char) : Quiet (second.text ++ []) before ['\n'] :=
    .solid _ _ (by decide) (by decide)
  have later (before : List Char) :=
    (feed before).yields.append (second.yields begins fun exports _ => exports.quiet_end _)
  have whole := (first.yields beforeWord_none (by simpa using quiet)).append (later _)
  have found := whole.occurrences_eq
  rw [List.singleton_append] at found
  have size : Text.byteLength ['\n'] = 1 := rfl
  have feeds : Text.lineFeeds ['\n'] = 1 := rfl
  simp only [found, first.occurrences_text, second.occurrences_text, Item.occurrences_shift,
    List.nil_append, size, feeds, Nat.zero_add, Nat.add_zero, Nat.add_comm 1]

/-- Exported names are passed over before a bare import on the next line. -/
theorem Exports.quiet_bareImport (exports : Exports) {gap : List Char} (isGap : Gap gap)
    (source : Source) (before : List Char) :
    Quiet ('\n' :: (Statement.bareImport gap isGap source).text) before
      ("export".toList ++ exports.text) := by
  refine .of_clause before exports.clause fun later isLater _ _ previous => ?_
  have noSite := isLater.siteAt?_bareImport isGap source.isQuote previous
    (source.specifier ++ [source.quote])
  simpa [Statement.text, Statement.item, Item.text] using noSite

/-- Exported names are passed over before other exported names on the next line. -/
theorem Exports.quiet_exportNames (exports next : Exports) (before : List Char) :
    Quiet ('\n' :: (Statement.exportNames next).text) before ("export".toList ++ exports.text) := by
  refine .of_clause before exports.clause fun later isLater _ _ previous => ?_
  exact (isLater.append (.character (by decide) next.clause)).siteAt?_end previous

/-- Names that are exported, the line break after them, and a clause lead to the quote after the
`from` of the clause. -/
theorem Exports.opening (exports : Exports) {keyword : List Char}
    (isKeyword : ∀ character ∈ keyword, isWord character = true) (lead : FromClause) :
    Opening .exportFrom ("export".toList ++ exports.text ++ '\n' :: (keyword ++ lead.text)) := by
  have isClause : Clause (exports.gap ++ '{' :: (exports.names ++ '}' :: '\n' ::
      (keyword ++ lead.clause))) := by
    refine exports.isGap.clause.append (.character (by decide) (exports.isClause.append ?_))
    exact .character (by decide) (.character (by decide) (lead.isClause.word_append isKeyword))
  have apart : Apart (exports.gap ++ '{' :: (exports.names ++ '}' :: '\n' ::
      (keyword ++ lead.clause))) := by
    refine ⟨by simp, exports.isGap.afterWord _ (by decide), fun character last => ?_⟩
    obtain ⟨ending, ends⟩ := Option.isSome_iff_exists.1 (List.getLast?_isSome.2 lead.apart.ne_nil)
    simp only [List.getLast?_append, List.getLast?_cons, ends, Option.some_or,
      Option.getD_some, Option.some.injEq] at last
    exact lead.apart.last character (last ▸ ends)
  have opens := Opening.exportFrom isClause apart lead.isGap
  simpa [Exports.text, FromClause.text] using opens

/-- An occurrence that is taken for one in an export. -/
def Occurrence.exported (found : Occurrence) : Occurrence :=
  { found with form := .exportFrom }

/-- A statement with a clause on the line after exported names is found as an export. -/
theorem Exports.occurrences_exported (exports : Exports) {keyword : List Char} {form : Form}
    (isKeyword : ∀ character ∈ keyword, isWord character = true) (lead : FromClause)
    (source : Source) :
    let first := "export".toList ++ exports.text
    let opening := keyword ++ lead.text
    let start := Text.byteLength opening + 1
    occurrences (String.ofList (first ++ '\n' ::
        (opening ++ source.quote :: (source.specifier ++ [source.quote])))) =
      [Occurrence.exported <| Occurrence.shift (Text.byteLength first + 1)
        (Text.lineFeeds first + 1)
        ⟨String.ofList source.specifier, start, start + Text.byteLength source.specifier, form,
          1 + Text.lineFeeds opening⟩] := by
  intro first opening start
  have opens := exports.opening isKeyword lead
  have yields := opens.yields [] [] beforeWord_none source.isQuote source.isSpecifier
  have size (text : List Char) : Text.byteLength ('\n' :: text) = 1 + Text.byteLength text := rfl
  have feeds (text : List Char) : Text.lineFeeds ('\n' :: text) = Text.lineFeeds text + 1 :=
    List.count_cons_self
  have found := yields.occurrences_eq
  simp only [List.append_assoc, List.cons_append, Text.byteLength_append, lineFeeds_append, size,
    feeds] at found
  simp only [first, opening, start, Occurrence.exported, Occurrence.shift, List.append_assoc,
    Text.byteLength_append, lineFeeds_append, found, List.cons.injEq, Occurrence.mk.injEq, true_and,
    and_true]
  omega

/-- Two statements on two lines are found as each of them is found alone, with its own form,
exactly if the first one does not run into the second one. Where it does, the specifier of the
second one is found as that of an export. -/
theorem occurrences_lineBreak (first second : Statement) :
    let joined := occurrences (String.ofList (first.text ++ '\n' :: second.text))
    let apart := occurrences (String.ofList first.text) ++
      (occurrences (String.ofList second.text)).map
        (Occurrence.shift (Text.byteLength first.text + 1) (Text.lineFeeds first.text + 1))
    occurrences (String.ofList first.text) = first.item.occurrences 0 1 ∧
      occurrences (String.ofList second.text) = second.item.occurrences 0 1 ∧
      (joined = apart ↔ ¬first.RunsInto second) ∧
      (first.RunsInto second -> joined = apart.map Occurrence.exported) := by
  intro joined apart
  refine ⟨first.occurrences_text, second.occurrences_text, ?_⟩
  have stops (quiet : ∀ exports, first = .exportNames exports ->
      Quiet ('\n' :: second.text) [] ("export".toList ++ exports.text))
      (alone : ¬first.RunsInto second) : (joined = apart ↔ ¬first.RunsInto second) ∧
        (first.RunsInto second -> joined = apart.map Occurrence.exported) :=
    ⟨iff_of_true (first.occurrences_of_quiet second quiet) alone, fun into => absurd into alone⟩
  -- Only exported names have an open end, so the other forms never run into the next line.
  cases first with
  | bareImport | importFrom | exportFrom =>
    exact stops (fun _ other => by cases other) not_false
  | exportNames exports =>
    cases second with
    | bareImport gap isGap source =>
      refine stops (fun exports' same => ?_) not_false
      exact Statement.exportNames.inj same ▸ exports.quiet_bareImport isGap source []
    | exportNames next =>
      refine stops (fun exports' same => ?_) not_false
      exact Statement.exportNames.inj same ▸ exports.quiet_exportNames next []
    | importFrom lead source =>
      have taken : joined = apart.map Occurrence.exported := by
        simp only [apart, Statement.occurrences_text, Statement.item, Item.occurrences,
          Nat.zero_add]
        exact exports.occurrences_exported isWord_import lead source
      refine ⟨iff_of_false (fun same => ?_) (fun other => other trivial), fun _ => taken⟩
      have forms := congrArg (List.map Occurrence.form) (same.symm.trans taken)
      simp [apart, Statement.occurrences_text, Statement.item, Item.occurrences, Occurrence.shift,
        Occurrence.exported] at forms
    | exportFrom lead source =>
      refine ⟨iff_of_true ?_ not_false, False.elim⟩
      simp only [apart, Statement.occurrences_text, Statement.item, Item.occurrences, Nat.zero_add]
      exact exports.occurrences_exported isWord_export lead source

/-- `export { a }`. -/
def sampleExport : Statement :=
  .exportNames ⟨[' '], [' ', 'a', ' '], .blank rfl .nil,
    .character rfl (.character rfl (.character rfl .nil))⟩

/-- `import b from './b'`. -/
def sampleImport : Statement :=
  .importFrom
    ⟨[' ', 'b', ' '], [' '], .character rfl (.character rfl (.character rfl .nil)),
      ⟨by decide, fun _ first => Option.some.inj first ▸ rfl,
        fun _ last => Option.some.inj last ▸ rfl⟩, .blank rfl .nil⟩
    ⟨'\'', "./b".toList, rfl, by decide⟩

/-- An import on the line after exported names is found as an export. -/
theorem occurrences_lineBreak_exported :
    String.ofList sampleExport.text = "export { a }" ∧
      String.ofList sampleImport.text = "import b from './b'" ∧
      occurrences "export { a }\nimport b from './b'" = [⟨"./b", 28, 31, .exportFrom, 2⟩] ∧
      occurrences "export { a }" ++
          (occurrences "import b from './b'").map (Occurrence.shift 13 1) =
        [⟨"./b", 28, 31, .staticImport, 2⟩] :=
  ⟨by decide, by decide, by decide, by decide⟩

end Relink.Script
