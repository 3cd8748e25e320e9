import Relink.Proofs.Cursor.Bounds
import Relink.Proofs.Script.Locality

/-!
# A cursor over a script

The loop over a whole script: it passes over a comment or literal, reports the specifier of a
statement, or steps over a keyword or a single unit. It finds what a scan of the units finds, and
every position that it takes lies in the script.
-/

namespace Relink.Script

/-- The specifiers of a script from `i` on. `count` tells the line after some units, from the line
before them, and a reported specifier is cut out of the script by `cut`. -/
def scanWith (count : Nat -> List Char -> Option Nat) (script : List Char)
    (cut : Nat -> Nat -> Option String) (line i : Nat) : Option (List Occurrence) :=
  if i < script.length then do
    let unit ← script[i]?
    if unit = '\n' then
      let next ← count line [unit]
      scanWith count script cut next (i + 1)
    else
      match _ : lexemeEnd? script i with
      | none => none
      | some (some stop) =>
        let passed ← between? script i stop
        let next ← count line passed
        scanWith count script cut next stop
      | some none =>
        match _ : statementAt script i with
        | none => none
        | some (some (_, some (form, span))) =>
          let lead ← between? script i span.start
          let here ← count line lead
          let specifier ← cut span.start span.stop
          let passed ← between? script i span.next
          let next ← count line passed
          let later ← scanWith count script cut next span.next
          return ⟨specifier, span.start, span.stop, form, here⟩ :: later
        | some (some (length, none)) => scanWith count script cut line (i + length)
        | some none => scanWith count script cut line (i + 1)
  else return []
termination_by script.length - i
decreasing_by
  · omega
  · have ahead := lt_lexemeEnd? ‹i < script.length› ‹lexemeEnd? script i = _›
    omega
  · have ahead := lt_statement ‹i < script.length› ‹statementAt script i = _›
    omega
  · have ahead := keyword_pos ‹i < script.length› ‹statementAt script i = _›
    omega
  · omega

/-- The line after some units. -/
def lineAfter (line : Nat) (passed : List Char) : Option Nat :=
  some (line + Text.lineFeeds passed)

/-- The specifiers of a script from `i` on, with lines as natural numbers. -/
def scanFrom : List Char -> (Nat -> Nat -> Option String) -> Nat -> Nat ->
    Option (List Occurrence) :=
  scanWith lineAfter

/-- The specifiers of pieces that begin at the unit `offset` of the line `line`, each cut out of
the script. -/
def collect (cut : Nat -> Nat -> Option String) (offset line : Nat) :
    List Piece -> Option (List Occurrence)
  | [] => some []
  | .plain text :: rest => collect cut (offset + text.length) (line + Text.lineFeeds text) rest
  | .site form specifier :: rest => do
    let stop := offset + specifier.length
    let text ← cut offset stop
    let later ← collect cut stop line rest
    return ⟨text, offset, stop, form, line⟩ :: later

section Loop

variable {script rest : List Char} {cut : Nat -> Nat -> Option String} {unit : Char}
  {i line : Nat}

/-- Plain pieces move what is collected behind them by their units and their lines. -/
theorem collect_plain (offset line : Nat) (parts : List (List Char)) (found : List Piece) :
    collect cut offset line (parts.map Piece.plain ++ found) =
      collect cut (offset + parts.flatten.length) (line + Text.lineFeeds parts.flatten) found := by
  induction parts generalizing offset line with
  | nil => rfl
  | cons part parts ih =>
    rw [List.map_cons, List.cons_append, collect, ih, List.flatten_cons, List.length_append,
      lineFeeds_append, Nat.add_assoc, Nat.add_assoc]

/-- Behind the text the scan has found everything. -/
theorem scanFrom_past (past : script.length ≤ i) : scanFrom script cut line i = some [] := by
  rw [scanFrom, scanWith, if_neg (Nat.not_lt.2 past)]
  rfl

/-- At a line feed the scan goes on in the next line. -/
theorem scanFrom_lineFeed (reads : Reads script i ('\n' :: rest)) :
    scanFrom script cut line i = scanFrom script cut (line + 1) (i + 1) := by
  rw [scanFrom, scanWith, if_pos reads.lt, reads.unit_eq]
  rfl

/-- What is skipped as a whole is passed over with its lines. -/
theorem scanFrom_lexeme {text : List Char} (reads : Reads script i (text ++ rest))
    (measured : lexemeLength? (script.take i).reverse (text ++ rest) = some text.length) :
    scanFrom script cut line i =
      scanFrom script cut (line + Text.lineFeeds text) (i + text.length) := by
  have passed := reads.between?_eq
  have bounds := lexemeLength?_bounds measured
  cases shape : text ++ rest with
  | nil =>
    rw [shape, List.length_nil] at bounds
    omega
  | cons unit tail =>
    rw [shape] at reads measured
    have solid : unit ≠ '\n' := by
      rintro rfl
      rw [lexemeLength?_plain _ _ (by decide)] at measured
      cases measured
    rw [scanFrom, scanWith, if_pos reads.lt, reads.unit_eq]
    simp only [Option.bind_eq_bind, Option.bind_some, if_neg solid]
    rw [lexemeEnd?_eq reads, measured]
    simp only [Option.map_some]
    rw [passed]
    rfl

/-- A unit at which nothing begins is passed over. -/
theorem scanFrom_plain (reads : Reads script i (unit :: rest)) (solid : unit ≠ '\n')
    (noLexeme : lexemeLength? (script.take i).reverse (unit :: rest) = none)
    (noWord : keywordLength? (script.take i).getLast? (unit :: rest) = none) :
    scanFrom script cut line i = scanFrom script cut line (i + 1) := by
  rw [scanFrom, scanWith, if_pos reads.lt, reads.unit_eq]
  simp only [Option.bind_eq_bind, Option.bind_some, if_neg solid]
  rw [lexemeEnd?_eq reads, noLexeme]
  simp only [Option.map_none]
  rw [statementAt_eq reads, noWord]
  rfl

/-- A keyword that begins no statement is passed over. -/
theorem scanFrom_keyword {length : Nat} (reads : Reads script i (unit :: rest))
    (solid : unit ≠ '\n')
    (noLexeme : lexemeLength? (script.take i).reverse (unit :: rest) = none)
    (word : keywordLength? (script.take i).getLast? (unit :: rest) = some length)
    (noSite : siteAt? (script.take i).getLast? (unit :: rest) = none) :
    scanFrom script cut line i = scanFrom script cut line (i + length) := by
  rw [scanFrom, scanWith, if_pos reads.lt, reads.unit_eq]
  simp only [Option.bind_eq_bind, Option.bind_some, if_neg solid]
  rw [lexemeEnd?_eq reads, noLexeme]
  simp only [Option.map_none]
  rw [statementAt_eq reads, word, noSite]
  rfl

/-- A statement is collected, and the scan goes on behind its specifier. -/
theorem scanFrom_site {lead specifier : List Char} {quote : Char} {form : Form} {length : Nat}
    (reads : Reads script i (lead ++ (specifier ++ quote :: rest)))
    (filled : lead ≠ [])
    (solid : (lead ++ (specifier ++ quote :: rest)).head? ≠ some '\n')
    (noLexeme : lexemeLength? (script.take i).reverse (lead ++ (specifier ++ quote :: rest)) = none)
    (word : keywordLength? (script.take i).getLast? (lead ++ (specifier ++ quote :: rest)) =
      some length)
    (here : siteAt? (script.take i).getLast? (lead ++ (specifier ++ quote :: rest)) =
      some ⟨form, lead.length, specifier⟩) :
    scanFrom script cut line i =
      (cut (i + lead.length) (i + lead.length + specifier.length)).bind fun text =>
        (scanFrom script cut (line + Text.lineFeeds (lead ++ (specifier ++ [quote])))
          (i + lead.length + specifier.length + 1)).bind fun later =>
            some (⟨text, i + lead.length, i + lead.length + specifier.length, form,
              line + Text.lineFeeds lead⟩ :: later) := by
  have ahead := reads.between?_eq
  have whole : Reads script i (lead ++ (specifier ++ [quote]) ++ rest) := by simpa using reads
  have passed := whole.between?_eq
  obtain ⟨unit, lead, rfl⟩ := List.exists_cons_of_ne_nil filled
  rw [List.cons_append] at reads noLexeme word here
  rw [scanFrom, scanWith, if_pos reads.lt, reads.unit_eq]
  simp only [Option.bind_eq_bind, Option.bind_some]
  rw [if_neg (by simpa using solid), lexemeEnd?_eq reads, noLexeme]
  simp only [Option.map_none]
  rw [statementAt_eq reads, word, here]
  simp only [Option.map_some, Site.found]
  rw [ahead]
  simp only [Option.bind_some]
  have ends : i + (unit :: lead).length + specifier.length + 1 =
      i + (unit :: lead ++ (specifier ++ [quote])).length := by simp; omega
  rw [ends, passed]
  rfl

/-! ## Keywords -/

/-- No statement begins without a keyword. -/
theorem siteAt?_eq_none {previous : Option Char} {text : List Char}
    (noWord : keywordLength? previous text = none) : siteAt? previous text = none := by
  unfold keywordLength? at noWord
  split at noWord
  · cases noWord
  split at noWord
  · cases noWord
  split at noWord
  · cases noWord
  rename_i noImport noExport noRequire
  rw [siteAt?, if_neg noImport, if_neg noExport, if_neg noRequire]

/-- A keyword that names no module is passed over unit by unit in a scan. -/
theorem Scan.exists_of_keyword {before word following : List Char} {found : List Piece}
    (scan : Scan before (word ++ following) found) (filled : word ≠ [])
    (isWord_ : ∀ unit ∈ word, isWord unit = true)
    (noSite : siteAt? before.head? (word ++ following) = none) :
    ∃ (parts : List (List Char)) (later : List Piece), parts.flatten = word ∧
      found = parts.map Piece.plain ++ later ∧ Scan (word.reverse ++ before) following later := by
  obtain ⟨first, word, rfl⟩ := List.exists_cons_of_ne_nil filled
  have letter := isWord_ first (List.mem_cons_self ..)
  have quiet : Quiet following before ([first] ++ word) := by
    refine .part noSite ?_ (by simp) (.word _ _ ?_ ?_)
    · rw [List.singleton_append, lexemeLength?_plain _ _ (isMark_of_isWord letter)]
      rfl
    · exact fun other member => isWord_ other (List.mem_cons_of_mem _ member)
    · intro begins
      have := (begins first rfl).1
      rw [letter] at this
      cases this
  obtain ⟨parts, same, scans⟩ := quiet.scan
  obtain ⟨later, rest⟩ := exists_scan ((first :: word).reverse ++ before) following
  refine ⟨parts, later, same, ?_, rest⟩
  have whole := @Scan.piecesFrom_eq _ _ _ [] (scans later rest)
  have known := @Scan.piecesFrom_eq _ _ _ [] scan
  simpa using known.symm.trans whole

/-- A word has no line feeds. -/
theorem lineFeeds_of_isWord {word : List Char} (isWord_ : ∀ unit ∈ word, isWord unit = true) :
    Text.lineFeeds word = 0 := by
  apply List.count_eq_zero.2
  intro member
  exact absurd (isWord_ _ member) (by decide)

/-- A site begins with the letter of a keyword. -/
theorem exists_keyword_of_siteAt? {before text : List Char} {site : Site}
    (here : siteAt? before.head? text = some site) :
    ∃ length, keywordLength? before.head? text = some length ∧ text.head? ≠ some '\n' ∧
      lexemeLength? before text = none := by
  cases word : keywordLength? before.head? text with
  | none =>
    rw [siteAt?_eq_none word] at here
    cases here
  | some length =>
    obtain ⟨word, following, rfl, -, filled, isWord_⟩ := exists_word_of_keywordLength? word
    obtain ⟨unit, word, rfl⟩ := List.exists_cons_of_ne_nil filled
    have letter := isWord_ unit (List.mem_cons_self ..)
    refine ⟨length, rfl, ?_, lexemeLength?_plain _ _ (isMark_of_isWord letter)⟩
    intro feed
    obtain rfl : unit = '\n' := by simpa using feed
    exact absurd letter (by decide)

/-- What lies before a place further on, from its end back. -/
theorem Reads.reverse_take {text : List Char} (reads : Reads script i (text ++ rest)) :
    (script.take (i + text.length)).reverse = text.reverse ++ (script.take i).reverse := by
  rw [List.take_add, reads.drop_eq, List.take_left, List.reverse_append]

/-- The loop finds what a scan of the units finds. -/
theorem Scan.scanFrom_eq {found : List Piece} (scan : Scan (script.take i).reverse rest found)
    (reads : Reads script i rest) :
    scanFrom script cut line i = collect cut i line found := by
  induction size : rest.length using Nat.strong_induction_on generalizing rest found i line with
  | _ size ih =>
    subst size
    have whole := scan
    generalize before_eq : (script.take i).reverse = before at scan
    cases scan with
    | done => exact scanFrom_past reads.eq_length.le
    | @plain _ text rest found noSite measured filled later =>
      rw [← before_eq, ← reads.reverse_take] at later
      subst before_eq
      rw [List.head?_reverse] at noSite
      have shorter : rest.length < (text ++ rest).length := by
        rw [List.length_append]
        exact Nat.lt_add_of_pos_left (List.length_pos_iff.2 filled)
      have goesOn (line : Nat) : scanFrom script cut line (i + text.length) =
          collect cut (i + text.length) line found := ih _ shorter later reads.skip rfl
      cases lexeme : lexemeLength? (script.take i).reverse (text ++ rest) with
      | some length =>
        rw [lexeme, Option.getD_some] at measured
        rw [scanFrom_lexeme reads (by rw [lexeme, measured]), goesOn]
        rfl
      | none =>
        rw [lexeme, Option.getD_none] at measured
        obtain ⟨unit, rfl⟩ := List.length_eq_one_iff.1 measured.symm
        rw [List.singleton_append] at lexeme noSite reads
        by_cases feed : unit = '\n'
        · subst feed
          rw [scanFrom_lineFeed reads]
          exact goesOn _
        cases word : keywordLength? (script.take i).getLast? (unit :: rest) with
        | none =>
          have solid : Text.lineFeeds [unit] = 0 := by
            simp [Text.lineFeeds, feed]
          rw [scanFrom_plain reads feed lexeme word, collect, solid]
          exact goesOn _
        | some length =>
          obtain ⟨word, following, same, rfl, filled, isWord_⟩ := exists_word_of_keywordLength? word
          -- The cursor steps over the keyword, and a scan takes its letters one by one.
          rw [List.singleton_append, same] at whole
          rw [scanFrom_keyword reads feed lexeme word noSite]
          rw [same] at reads noSite
          obtain ⟨parts, later, rfl, split, rest_⟩ := whole.exists_of_keyword filled isWord_
            (by rwa [List.head?_reverse])
          rw [← reads.reverse_take] at rest_
          rw [split, collect_plain, lineFeeds_of_isWord isWord_]
          refine ih _ ?_ rest_ reads.skip rfl
          rw [List.singleton_append, same, List.length_append]
          exact Nat.lt_add_of_pos_left (List.length_pos_iff.2 filled)
    | @site _ lead specifier rest quote form found here later =>
      obtain ⟨opening, rfl, -, -, -, isSpecifier⟩ := exists_opening_of_site here
      obtain ⟨length, word, solid, noLexeme⟩ := exists_keyword_of_siteAt? here
      subst before_eq
      rw [List.head?_reverse] at here word
      have split : Reads script i ((opening ++ [quote] ++ (specifier ++ [quote])) ++ rest) := by
        simpa using reads
      have ends : i + (opening ++ [quote]).length + specifier.length + 1 =
          i + (opening ++ [quote] ++ (specifier ++ [quote])).length := by
        simp
        omega
      have shorter : rest.length < (opening ++ [quote] ++ (specifier ++ quote :: rest)).length := by
        simp
        omega
      have later' : Scan (script.take
          (i + (opening ++ [quote] ++ (specifier ++ [quote])).length)).reverse rest found := by
        rw [split.reverse_take]
        simpa using later
      rw [scanFrom_site reads (by simp) solid noLexeme word here, ends,
        ih _ shorter later' split.skip rfl, lineFeeds_append (opening ++ [quote]),
        lineFeeds_append specifier, isSpecifier.lineFeeds, Nat.zero_add, ← ends, ← Nat.add_assoc]
      rfl

end Loop

end Relink.Script
