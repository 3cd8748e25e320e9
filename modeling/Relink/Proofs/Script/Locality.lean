import Relink.Proofs.Script.Replacement
import Relink.Proofs.Script.Rendering

/-!
# Scanning a script in two parts

A script whose first part ends with a semicolon may be scanned part by part, provided that the
scan stops between them. Then nothing that is decided in the first part depends on the second
one, and what is decided in the second part looks back no further than the semicolon, which it
takes for the start of a text.
-/

namespace Relink.Script

/-- Whether the scan of `ahead ++ rest`, when it stands after `before`, stops between the two: no
comment, literal or specifier that begins in `ahead` reaches beyond its end. -/
inductive Stops (rest : List Char) : List Char -> List Char -> Prop where
  | done {before : List Char} : Stops rest before []
  /-- Plain text: a comment, a literal or a single character. -/
  | plain {before text ahead : List Char}
      (noSite : siteAt? before.head? (text ++ (ahead ++ rest)) = none)
      (measured : (lexemeLength? before (text ++ (ahead ++ rest))).getD 1 = text.length)
      (filled : text ≠ [])
      (later : Stops rest (text.reverse ++ before) ahead) : Stops rest before (text ++ ahead)
  /-- A specifier, with what leads to it and the quote after it. -/
  | site {before lead specifier ahead : List Char} {quote : Char} {form : Form}
      (here : siteAt? before.head? (lead ++ (specifier ++ quote :: (ahead ++ rest))) =
        some ⟨form, lead.length, specifier⟩)
      (later : Stops rest (quote :: (specifier.reverse ++ (lead.reverse ++ before))) ahead) :
      Stops rest before (lead ++ (specifier ++ quote :: ahead))

/-- A scan stops behind a text that it passes over. -/
theorem Quiet.stops {rest before text : List Char} (quiet : Quiet rest before text) :
    Stops rest before text := by
  induction quiet with
  | nil => exact .done
  | part noSite measured filled _ ih => exact .plain noSite measured filled ih

/-- A scan that stops at the end of a text and at the end of what follows stops there. -/
theorem Stops.append {before ahead later rest : List Char}
    (stops : Stops (later ++ rest) before ahead)
    (next : Stops rest (ahead.reverse ++ before) later) : Stops rest before (ahead ++ later) := by
  induction stops with
  | done => exact next
  | plain noSite measured filled _ ih =>
    rw [List.append_assoc]
    refine .plain ?_ ?_ filled (ih ?_)
    · rwa [List.append_assoc]
    · rwa [List.append_assoc]
    · rwa [List.reverse_append, List.append_assoc] at next
  | @site before lead specifier ahead quote form here _ ih =>
    rw [← List.append_assoc ahead] at here
    rw [List.append_assoc, List.append_assoc, List.cons_append]
    exact .site here (ih (by simpa using next))

/-! ## Looking ahead -/

/-- A string that ends within a text ends there whatever follows the text. -/
theorem stringLength_within {quote : Char} {passed : Nat} {ahead rest : List Char}
    (within : stringLength quote passed (ahead ++ rest) ≤ passed + ahead.length) :
    stringLength quote passed ahead = stringLength quote passed (ahead ++ rest) := by
  simp only [stringLength_eq] at within ⊢
  exact literalLength_within within

/-- A template that ends in a text does not depend on what follows. -/
theorem templateLength_within {passed : Nat} {ahead rest : List Char}
    (within : templateLength passed (ahead ++ rest) ≤ passed + ahead.length) :
    templateLength passed ahead = templateLength passed (ahead ++ rest) := by
  simp only [templateLength_eq] at within ⊢
  exact literalLength_within within

/-- A regex that ends in a text does not depend on what follows. -/
theorem regexLength_within {inClass : Bool} {passed : Nat} {ahead rest : List Char}
    (within : regexLength inClass passed (ahead ++ rest) ≤ passed + ahead.length) :
    regexLength inClass passed ahead = regexLength inClass passed (ahead ++ rest) := by
  simp only [regexLength_eq] at within ⊢
  exact literalLength_within within

/-- A block comment that ends in a text does not depend on what follows. -/
theorem blockCommentLength_within {passed : Nat} {ahead rest : List Char}
    (within : blockCommentLength passed (ahead ++ rest) ≤ passed + ahead.length) :
    blockCommentLength passed ahead = blockCommentLength passed (ahead ++ rest) := by
  fun_induction blockCommentLength passed ahead with
  | case1 passed =>
    have := blockCommentLength_bounds passed rest
    grind
  | case2 => rfl
  | case3 passed character ahead open_ ih =>
    -- An asterisk at the very end would close the comment with a slash from beyond.
    have open_' : ∀ tail, character = '*' -> ahead ++ rest = '/' :: tail -> False := by
      rintro tail rfl same
      cases ahead with
      | nil =>
        rw [List.nil_append] at same
        rw [same, List.cons_append, List.nil_append, blockCommentLength] at within
        simp at within
      | cons next ahead =>
        obtain ⟨rfl, -⟩ := List.cons.inj same
        exact open_ ahead rfl rfl
    rw [List.cons_append, blockCommentLength.eq_3 _ _ _ open_'] at within ⊢
    rw [ih]
    rw [List.length_cons] at within
    omega

/-- A comment that ends in a text does not depend on what follows. -/
theorem commentLength?_within {first second : Char} {ahead rest : List Char}
    (within : ∀ length, commentLength? (first :: second :: (ahead ++ rest)) = some length ->
      length ≤ ahead.length + 2) :
    commentLength? (first :: second :: ahead) =
      commentLength? (first :: second :: (ahead ++ rest)) := by
  by_cases slash : first = '/'
  · subst slash
    by_cases line : second = '/'
    · subst line
      simp only [commentLength?, Option.some.injEq, List.takeWhile_append] at within ⊢
      split
      · rename_i whole
        have shorter := within _ rfl
        rw [if_pos whole, List.length_append] at shorter
        have nothing : List.takeWhile (· != '\n') rest = [] :=
          List.length_eq_zero_iff.1 (by omega)
        rw [nothing, List.append_nil, whole]
      · rfl
    · by_cases block : second = '*'
      · subst block
        simp only [commentLength?, Option.some.injEq] at within ⊢
        refine blockCommentLength_within ?_
        have := within _ rfl
        omega
      · exact (commentLength?_slash _ line block).trans (commentLength?_slash _ line block).symm
  · exact (commentLength?_eq_none _ slash).trans (commentLength?_eq_none _ slash).symm

/-- A lexeme that ends within a text ends there whatever follows the text. A slash at the very end
does not tell yet whether it begins a comment. -/
theorem lexemeLength?_within {before ahead rest : List Char} (filled : ahead ≠ [])
    (open_ : ahead ≠ ['/'])
    (within : (lexemeLength? before (ahead ++ rest)).getD 1 ≤ ahead.length) :
    lexemeLength? before ahead = lexemeLength? before (ahead ++ rest) := by
  obtain ⟨first, ahead, rfl⟩ := List.exists_cons_of_ne_nil filled
  rw [List.cons_append] at within ⊢
  by_cases marked : isMark first = true
  · simp only [isMark, Script.isQuote, Bool.or_eq_true, beq_iff_eq] at marked
    rcases marked with (rfl | rfl | rfl) | rfl
    · obtain ⟨second, ahead, rfl⟩ :=
        List.exists_cons_of_ne_nil fun empty : ahead = [] => open_ (by rw [empty])
      simp only [lexemeLength?, List.cons_append, List.length_cons] at within ⊢
      rw [@commentLength?_within '/' second ahead rest]
      · cases found : commentLength? ('/' :: second :: (ahead ++ rest)) with
        | some length => rfl
        | none =>
          simp only [found] at within ⊢
          split at within
          · rename_i opens
            rw [Option.getD_some, ← List.cons_append, ← List.length_cons,
              Nat.add_comm] at within
            rw [if_pos opens, if_pos opens, regexLength_within within, List.cons_append]
          · rename_i divides
            rw [if_neg divides, if_neg divides]
      · intro length found
        simpa [found] using within
    all_goals
      simp only [lexemeLength?, Option.getD_some, List.length_cons, Nat.add_comm ahead.length]
        at within ⊢
    · rw [stringLength_within within]
    · rw [stringLength_within within]
    · rw [templateLength_within within]
  · rw [Bool.not_eq_true] at marked
    rw [lexemeLength?_plain _ _ marked, lexemeLength?_plain _ _ marked]

/-- A site stays a site whatever follows it. -/
theorem siteAt?_append {previous : Option Char} {ahead : List Char} {site : Site}
    (rest : List Char) (found : siteAt? previous ahead = some site) :
    siteAt? previous (ahead ++ rest) = some site := by
  obtain ⟨before, opening, quote, tail, opens, isQuote, isSpecifier, rfl, measured⟩ :=
    exists_opening_of_siteAt? found
  obtain ⟨form, lead, specifier⟩ := site
  dsimp only at measured opens isSpecifier ⊢
  rw [List.nil_append] at opens
  rw [measured, List.nil_append, ← siteAt?_opening (tail ++ rest) before opens isQuote isSpecifier]
  simp

/-! ## Looking back -/

/-- Where a word may begin, it may begin after whatever else lets it. -/
theorem siteAt?_congr {previous previous' : Option Char}
    (same : BeforeWord previous ↔ BeforeWord previous') (text : List Char) :
    siteAt? previous text = siteAt? previous' text := by
  have begins (word : List Char) :
      beginsWithWord previous word text = beginsWithWord previous' word text := by
    rw [Bool.eq_iff_iff, beginsWithWord_iff, beginsWithWord_iff, same]
  simp only [siteAt?, begins]

/-- A semicolon is the start of a text to a keyword. -/
theorem siteAt?_semicolon (since earlier text : List Char) :
    siteAt? (since ++ ';' :: earlier).head? text = siteAt? since.head? text := by
  cases since with
  | nil =>
    apply siteAt?_congr
    simp [BeforeWord]
    decide
  | cons character since => rfl

/-- A semicolon is the start of a text to a slash. -/
theorem slashOpensRegex_semicolon (since earlier : List Char) :
    slashOpensRegex (since ++ ';' :: earlier) = slashOpensRegex since := by
  unfold slashOpensRegex
  rw [dropWhile_isBlank_append (by decide)]
  cases since.dropWhile isBlank with
  | nil => simp [isOperator]
  | cons character since =>
    simp only [List.cons_append]
    rw [← List.cons_append, takeWhile_isWord_append (by decide)]

/-- A scan is the same after texts that look the same back from everything after them. -/
theorem Scan.congr {before before' text : List Char} {found : List Piece}
    (scan : Scan before text found)
    (words : ∀ since text,
      siteAt? (since ++ before).head? text = siteAt? (since ++ before').head? text)
    (slashes : ∀ since, slashOpensRegex (since ++ before) = slashOpensRegex (since ++ before')) :
    Scan before' text found := by
  induction scan generalizing before' with
  | done => exact .done
  | @plain before text rest found noSite measured filled _ ih =>
    have here := words [] (text ++ rest)
    have slash := slashes []
    rw [List.nil_append, List.nil_append] at here slash
    refine .plain (here ▸ noSite) ?_ filled (ih (fun since => ?_) fun since => ?_)
    · rw [← measured]
      unfold lexemeLength?
      rw [slash]
    · rw [← List.append_assoc, ← List.append_assoc]
      exact words _
    · rw [← List.append_assoc, ← List.append_assoc]
      exact slashes _
  | @site before lead specifier rest quote form found here _ ih =>
    have same := words [] (lead ++ (specifier ++ quote :: rest))
    rw [List.nil_append, List.nil_append] at same
    refine .site (same ▸ here) (ih (fun since => ?_) fun since => ?_)
    · have later := words (since ++ quote :: (specifier.reverse ++ lead.reverse))
      simpa only [List.append_assoc, List.cons_append] using later
    · have later := slashes (since ++ quote :: (specifier.reverse ++ lead.reverse))
      simpa only [List.append_assoc, List.cons_append] using later

/-- A scan is the same after a semicolon. -/
theorem Scan.after_semicolon {before text : List Char} {found : List Piece}
    (scan : Scan before text found) (earlier : List Char) :
    Scan (before ++ ';' :: earlier) text found := by
  refine scan.congr (fun since text => ?_) fun since => ?_
  · rw [← List.append_assoc, siteAt?_semicolon]
  · rw [← List.append_assoc, slashOpensRegex_semicolon]

/-! ## One part after the other -/

/-- A scan that stops between two parts goes on in the second one by itself. What it finds in the
first part it finds in it alone, if the part ends with a semicolon. -/
theorem Stops.exists_found {rest before ahead : List Char} (stops : Stops rest before ahead) :
    ∃ found, (∀ later, Scan (ahead.reverse ++ before) rest later ->
        Scan before (ahead ++ rest) (found ++ later)) ∧
      ((∀ last, ahead.getLast? = some last -> last = ';') -> Scan before ahead found) := by
  induction stops with
  | done => exact ⟨[], fun _ scan => scan, fun _ => .done⟩
  | @plain before text ahead noSite measured filled _ ih =>
    obtain ⟨found, whole, alone⟩ := ih
    rw [← List.append_assoc] at noSite measured
    refine ⟨.plain text :: found, fun later scan => ?_, fun ends => ?_⟩
    · rw [List.append_assoc] at noSite measured ⊢
      refine .plain noSite measured filled (whole later ?_)
      rwa [List.reverse_append, List.append_assoc] at scan
    · have some_ : text ++ ahead ≠ [] := by simp [filled]
      have open_ : text ++ ahead ≠ ['/'] :=
        fun same => absurd (ends '/' (by rw [same]; rfl)) (by decide)
      refine .plain ?_ ?_ filled (alone fun last same =>
        ends last (by rw [List.getLast?_append, same, Option.some_or]))
      · rw [Option.eq_none_iff_forall_ne_some]
        intro site here
        rw [siteAt?_append rest here] at noSite
        cases noSite
      · rw [lexemeLength?_within some_ open_, measured]
        rw [measured, List.length_append]
        omega
  | @site before lead specifier ahead quote form here _ ih =>
    obtain ⟨found, whole, alone⟩ := ih
    refine ⟨.plain lead :: .site form specifier :: .plain [quote] :: found,
      fun later scan => ?_, fun ends => .site (siteAt?_of_site here ahead)
        (alone fun last same => ends last ?_)⟩
    · have whole := Scan.site here (whole later (by simpa using scan))
      simpa using whole
    · simp [List.getLast?_append, List.getLast?_cons, same]

/-- A scan that stops between two parts finds in the first one what it finds in it alone. -/
theorem Stops.scan {rest before ahead : List Char} (stops : Stops rest before ahead)
    (ends : ∀ last, ahead.getLast? = some last -> last = ';') :
    ∃ found, Scan before ahead found ∧ ∀ later, Scan (ahead.reverse ++ before) rest later ->
      Scan before (ahead ++ rest) (found ++ later) := by
  obtain ⟨found, whole, alone⟩ := stops.exists_found
  exact ⟨found, alone ends, whole⟩

/-! ## Where the specifiers stand -/

/-- An occurrence so many bytes and lines further on. -/
def Occurrence.shift (bytes lines : Nat) (found : Occurrence) : Occurrence :=
  { found with
    start := bytes + found.start
    stop := bytes + found.stop
    line := lines + found.line }

/-- What is found further on is what is found at the start, moved. -/
theorem occurrencesFrom_shift (bytes lines offset line : Nat) (found : List Piece) :
    occurrencesFrom (bytes + offset) (lines + line) found =
      (occurrencesFrom offset line found).map (Occurrence.shift bytes lines) := by
  induction found generalizing offset line with
  | nil => rfl
  | cons piece found ih =>
    cases piece with
    | plain text => simp only [occurrencesFrom, Nat.add_assoc, ih]
    | site form specifier =>
      simp only [occurrencesFrom, Nat.add_assoc, ih, List.map_cons, Occurrence.shift]

/-- The specifiers of pieces stand where the pieces before them end. -/
theorem occurrencesFrom_append {found : List Piece}
    (areSpecifiers : ∀ form specifier, .site form specifier ∈ found -> IsSpecifier specifier)
    (offset line : Nat) (later : List Piece) :
    occurrencesFrom offset line (found ++ later) =
      occurrencesFrom offset line found ++
        occurrencesFrom (offset + Text.byteLength (found.flatMap Piece.text))
          (line + Text.lineFeeds (found.flatMap Piece.text)) later := by
  induction found generalizing offset line with
  | nil => rfl
  | cons piece found ih =>
    replace ih := ih fun form specifier member =>
      areSpecifiers form specifier (List.mem_cons_of_mem _ member)
    cases piece with
    | plain text =>
      simp only [List.cons_append, occurrencesFrom, ih, List.flatMap_cons, Piece.text,
        Text.byteLength_append, lineFeeds_append, Nat.add_assoc]
    | site form specifier =>
      have isSpecifier := areSpecifiers form specifier List.mem_cons_self
      simp only [List.cons_append, occurrencesFrom, ih, List.flatMap_cons, Piece.text,
        Text.byteLength_append, lineFeeds_append, isSpecifier.lineFeeds, Nat.zero_add,
        Nat.add_assoc]

/-- The specifiers of a scan's pieces stand where the text before them ends. -/
theorem Scan.occurrencesFrom_append {before text : List Char} {found : List Piece}
    (scan : Scan before text found) (offset line : Nat) (later : List Piece) :
    occurrencesFrom offset line (found ++ later) =
      occurrencesFrom offset line found ++
        occurrencesFrom (offset + Text.byteLength text) (line + Text.lineFeeds text) later := by
  rw [Script.occurrencesFrom_append fun _ _ => scan.isSpecifier, scan.flatMap_text]

/-- The specifiers of a script are those of its first part and those of its second part, if the
first one ends with a semicolon and the scan stops between them. The second part is scanned as if
nothing came before it. -/
theorem occurrences_append {first second : String} (ends : Text.endsWith first ";" = true)
    (stops : Stops second.toList [] first.toList) :
    occurrences (first ++ second) =
      occurrences first ++ (occurrences second).map
        (Occurrence.shift (Text.byteLength first.toList) (Text.lineFeeds first.toList)) := by
  obtain ⟨body, shape⟩ := List.isSuffixOf_iff_suffix.1 ends
  obtain ⟨found, alone, whole⟩ := stops.scan fun last same => by
    rw [← shape, show ";".toList = [';'] from rfl, List.getLast?_concat] at same
    exact (Option.some.inj same).symm
  have later : Scan (first.toList.reverse ++ []) second.toList (pieces second.toList) := by
    have scan := (scan_pieces second.toList).after_semicolon body.reverse
    rw [← shape]
    simpa using scan
  have joined := (whole _ later).pieces_eq
  rw [← String.toList_append] at joined
  rw [occurrences, joined, alone.occurrencesFrom_append, occurrences, alone.pieces_eq, occurrences,
    ← occurrencesFrom_shift, Nat.add_comm 0, Nat.add_comm 1]

/-- After a statement on two lines, a regular expression that holds a quote hides the call behind
it from the scan no more than it does at the start of a script. -/
theorem occurrences_append_regex :
    Text.endsWith "import\n'./a';" ";" = true ∧
      Stops "/'/;require('./b')".toList [] "import\n'./a';".toList ∧
      occurrences "import\n'./a';" = [⟨"./a", 8, 11, .staticImport, 2⟩] ∧
      occurrences "/'/;require('./b')" = [⟨"./b", 13, 16, .requireCall, 1⟩] ∧
      occurrences ("import\n'./a';" ++ "/'/;require('./b')") =
        [⟨"./a", 8, 11, .staticImport, 2⟩, ⟨"./b", 26, 29, .requireCall, 2⟩] := by
  have ends : Text.endsWith "import\n'./a';" ";" = true := by decide
  have first : occurrences "import\n'./a';" = [⟨"./a", 8, 11, .staticImport, 2⟩] := by
    decide
  have second : occurrences "/'/;require('./b')" = [⟨"./b", 13, 16, .requireCall, 1⟩] := by
    decide
  have stops : Stops "/'/;require('./b')".toList [] "import\n'./a';".toList := by
    have semicolon : Stops "/'/;require('./b')".toList "'a/.'\ntropmi".toList ([';'] ++ []) :=
      .plain (by decide) (by decide) (by decide) .done
    have whole := @Stops.site "/'/;require('./b')".toList [] "import\n'".toList "./a".toList
      [';'] '\'' .staticImport (by decide) semicolon
    exact whole
  refine ⟨ends, stops, first, second, ?_⟩
  rw [occurrences_append ends stops, first, second]
  decide

end Relink.Script
