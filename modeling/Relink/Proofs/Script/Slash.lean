import Relink.Proofs.Script.Call

/-!
# Slashes behind comments

What a slash is, is told by the last character or word before it that is not a blank. A comment is
not passed over on the way back, so behind a comment the end of the comment tells it: a slash opens
a regular expression there exactly if it is a line comment that ends as code does before an
expression. The slash is taken for what it would be without the comment exactly where the code
before the comment agrees with that, and then the scan finds the same with and without it.
-/

namespace Relink.Script

/-- Whether a text ends, blanks aside, in an operator or in a word that takes an expression. -/
def TakesExpression (text : List Char) : Prop :=
  ∃ front last, text.rdropWhile isBlank = front ++ last ∧
    ((∃ operator, last = [operator] ∧ isOperator operator = true) ∨
      (String.ofList last ∈ operatorWords ∧ ¬ContinuesWord front))

/-- Whether an expression begins after a text: at the start of a script, or where the text takes
one. -/
def BeginsExpression (text : List Char) : Prop :=
  text.rdropWhile isBlank = [] ∨ TakesExpression text

/-- Whether a comment ends as code does before an expression. Only a line comment can. -/
def LooksOpen (comment : List Char) : Prop :=
  ∃ body, comment = '/' :: '/' :: (body ++ ['\n']) ∧ TakesExpression body

/-! ## Looking back -/

theorem isWord_of_mem_operatorWords {word : List Char}
    (member : String.ofList word ∈ operatorWords) :
    word ≠ [] ∧ ∀ character ∈ word, isWord character = true := by
  have all : (operatorWords.all fun text =>
      !text.toList.isEmpty && text.toList.all isWord) = true := by decide
  have here := List.all_eq_true.1 all _ member
  rw [String.toList_ofList] at here
  simpa using here

theorem TakesExpression.ne_nil {text : List Char} (takes : TakesExpression text) :
    text.rdropWhile isBlank ≠ [] := by
  obtain ⟨front, last, same, ⟨operator, rfl, -⟩ | ⟨member, -⟩⟩ := takes
  · simp [same]
  · simp [same, (isWord_of_mem_operatorWords member).1]

/-- A slash opens a regular expression where an expression begins. -/
theorem slashOpensRegex_reverse_iff (text : List Char) :
    slashOpensRegex text.reverse = true ↔ BeginsExpression text := by
  rw [slashOpensRegex, BeginsExpression, TakesExpression, List.rdropWhile]
  -- What the look back stops at is the last character that is no blank.
  cases text.reverse.dropWhile isBlank with
  | nil => simp
  | cons last earlier =>
    have filled : (last :: earlier).reverse ≠ [] := by simp
    dsimp only
    rw [Bool.or_eq_true, or_iff_right filled, List.contains_iff_mem]
    constructor
    · rintro (operator | word)
      · exact ⟨earlier.reverse, [last], List.reverse_cons, .inl ⟨last, rfl, operator⟩⟩
      · refine ⟨((last :: earlier).dropWhile isWord).reverse, _, ?_, .inr ⟨word, ?_⟩⟩
        · rw [← List.reverse_append, List.takeWhile_append_dropWhile]
        · have alone := List.head?_dropWhile_not isWord (last :: earlier)
          rw [ContinuesWord, List.getLast?_reverse]
          cases ends : ((last :: earlier).dropWhile isWord).head? with
          | none => simp
          | some character =>
            rw [ends] at alone
            simpa using alone
    · rintro ⟨front, word, same, ⟨operator, rfl, isOperator⟩ | ⟨member, alone⟩⟩
      · rw [List.reverse_cons] at same
        obtain ⟨-, same⟩ := List.append_inj' same rfl
        rw [(List.cons.inj same).1]
        exact .inl isOperator
      · have areWord := (isWord_of_mem_operatorWords member).2
        have whole : last :: earlier = word.reverse ++ front.reverse := by
          rw [← List.reverse_append, ← same, List.reverse_reverse]
        have stops : front.reverse.takeWhile isWord = [] := by
          rw [ContinuesWord, ← List.head?_reverse] at alone
          cases shape : front.reverse with
          | nil => rfl
          | cons first rest =>
            rw [shape] at alone
            simpa using alone
        rw [whole, List.takeWhile_append_of_pos fun character inside =>
          areWord character (List.mem_reverse.1 inside), stops, List.append_nil,
          List.reverse_reverse]
        exact .inr member

theorem slashOpensRegex_blanks {blanks : List Char}
    (areBlanks : ∀ character ∈ blanks, isBlank character = true) (before : List Char) :
    slashOpensRegex (blanks.reverse ++ before) = slashOpensRegex before := by
  unfold slashOpensRegex
  rw [List.dropWhile_append_of_pos fun character member =>
    areBlanks character (List.mem_reverse.1 member)]

/-- Behind another slash, a slash divides, unless something in between takes an expression. -/
theorem slashOpensRegex_append_slash (since earlier : List Char) :
    slashOpensRegex (since ++ '/' :: earlier) =
      (slashOpensRegex since && !(since.dropWhile isBlank).isEmpty) := by
  unfold slashOpensRegex
  rw [dropWhile_isBlank_append (by decide)]
  cases since.dropWhile isBlank with
  | nil => rfl
  | cons character since =>
    simp only [List.cons_append]
    rw [← List.cons_append, takeWhile_isWord_append (by decide)]
    simp

/-- Behind a comment, the end of the comment tells what a slash is. -/
theorem slashOpensRegex_comment {comment : List Char} (isComment : Comment comment)
    (before : List Char) :
    slashOpensRegex (comment.reverse ++ before) = true ↔ LooksOpen comment := by
  cases isComment with
  | @block body _ =>
    have ends : ('/' :: '*' :: (body ++ ['*', '/'])).reverse ++ before =
        [] ++ '/' :: '*' :: (body.reverse ++ '*' :: '/' :: before) := by simp
    rw [ends, slashOpensRegex_append_slash]
    refine iff_of_false (by simp) ?_
    rintro ⟨text, same, -⟩
    simp at same
  | @line body _ =>
    have ends : ('/' :: '/' :: (body ++ ['\n'])).reverse ++ before =
        ['\n'].reverse ++ (body.reverse ++ '/' :: '/' :: before) := by simp
    have feed : ∀ character ∈ ['\n'], isBlank character = true :=
      List.forall_mem_singleton.2 rfl
    rw [ends, slashOpensRegex_blanks feed, slashOpensRegex_append_slash, Bool.and_eq_true,
      slashOpensRegex_reverse_iff]
    have filled : (!(body.reverse.dropWhile isBlank).isEmpty) = true ↔
        body.rdropWhile isBlank ≠ [] := by simp [List.rdropWhile]
    rw [filled]
    constructor
    · rintro ⟨begins, filled⟩
      exact ⟨body, rfl, begins.resolve_left filled⟩
    · rintro ⟨text, same, takes⟩
      simp only [List.cons.injEq, List.append_cancel_right_eq, true_and] at same
      subst same
      exact ⟨.inr takes, takes.ne_nil⟩

/-! ## Scans that go on differently -/

/-- A plain part of a text is a plain part of it whatever follows, if the scan stops at the end of
the text. -/
theorem Stops.plain_inv {rest rest' before text ahead : List Char}
    (stops : Stops rest' before (text ++ ahead))
    (noSite : siteAt? before.head? (text ++ (ahead ++ rest)) = none)
    (measured : (lexemeLength? before (text ++ (ahead ++ rest))).getD 1 = text.length)
    (filled : text ≠ []) :
    siteAt? before.head? (text ++ (ahead ++ rest')) = none ∧
      (lexemeLength? before (text ++ (ahead ++ rest'))).getD 1 = text.length ∧
      Stops rest' (text.reverse ++ before) ahead := by
  rw [← List.append_assoc] at noSite measured
  generalize shape : text ++ ahead = whole at stops noSite measured
  cases stops with
  | done => exact absurd (List.append_eq_nil_iff.1 shape).1 filled
  | @plain _ text' ahead' noSite' measured' filled' later =>
    have sizes : text.length = text'.length := by
      by_cases slash : text' ++ ahead' = ['/']
      · -- A single slash does not tell yet what it begins, but it is all there is.
        have size := congrArg List.length slash
        have size' := congrArg List.length shape
        have := List.length_pos_iff.2 filled
        have := List.length_pos_iff.2 filled'
        simp only [List.length_append, List.length_singleton] at size size'
        omega
      · have nonempty : text' ++ ahead' ≠ [] := by simp [filled']
        have size := congrArg List.length shape
        rw [List.length_append] at size
        rw [← List.append_assoc] at measured'
        have same := lexemeLength?_within nonempty slash (by rw [measured]; omega)
        have same' := lexemeLength?_within nonempty slash
          (by rw [measured', List.length_append]; omega)
        rw [← measured, ← measured', ← same, ← same']
    obtain ⟨rfl, rfl⟩ := List.append_inj shape sizes
    exact ⟨noSite', measured', later⟩
  | @site _ lead specifier ahead' quote form here _ =>
    have site := siteAt?_of_site here (ahead' ++ rest)
    simp only [List.append_assoc, List.cons_append] at noSite
    rw [site] at noSite
    cases noSite

/-- A specifier in a text is one whatever follows, if the scan stops at the end of the text. -/
theorem Stops.site_inv {rest rest' before lead specifier ahead : List Char} {quote : Char}
    {form : Form} (stops : Stops rest' before (lead ++ (specifier ++ quote :: ahead)))
    (here : siteAt? before.head? (lead ++ (specifier ++ quote :: (ahead ++ rest))) =
      some ⟨form, lead.length, specifier⟩) :
    siteAt? before.head? (lead ++ (specifier ++ quote :: (ahead ++ rest'))) =
        some ⟨form, lead.length, specifier⟩ ∧
      Stops rest' (quote :: (specifier.reverse ++ (lead.reverse ++ before))) ahead := by
  have here' := siteAt?_of_site here (ahead ++ rest')
  refine ⟨here', ?_⟩
  generalize shape : lead ++ (specifier ++ quote :: ahead) = whole at stops
  have shape' : lead ++ (specifier ++ quote :: (ahead ++ rest')) = whole ++ rest' := by
    simp [← shape]
  rw [shape'] at here'
  cases stops with
  | done => simp at shape
  | plain noSite =>
    rw [List.append_assoc, noSite] at here'
    cases here'
  | @site _ lead' specifier' ahead' quote' form' found later =>
    simp only [List.append_assoc, List.cons_append] at here'
    rw [found] at here'
    simp only [Option.some.injEq, Site.mk.injEq] at here'
    obtain ⟨rfl, size, rfl⟩ := here'
    obtain ⟨rfl, tails⟩ := List.append_inj shape size.symm
    obtain ⟨rfl, rfl⟩ := List.cons.inj (List.append_cancel_left tails)
    exact later

/-- Where the scan stops at the end of a text whatever of two texts follows, the text falls into
the same pieces before both. -/
theorem Stops.exists_common {rest rest' before ahead : List Char} (stops : Stops rest before ahead)
    (stops' : Stops rest' before ahead) :
    ∃ found, (∀ later, Scan (ahead.reverse ++ before) rest later ->
        Scan before (ahead ++ rest) (found ++ later)) ∧
      ∀ later, Scan (ahead.reverse ++ before) rest' later ->
        Scan before (ahead ++ rest') (found ++ later) := by
  induction stops with
  | done => exact ⟨[], fun _ scan => scan, fun _ scan => scan⟩
  | @plain before text ahead noSite measured filled _ ih =>
    obtain ⟨noSite', measured', later'⟩ := stops'.plain_inv noSite measured filled
    obtain ⟨found, whole, whole'⟩ := ih later'
    refine ⟨.plain text :: found, fun later scan => ?_, fun later scan => ?_⟩
    all_goals
      rw [List.reverse_append, List.append_assoc] at scan
      rw [List.append_assoc]
    · exact .plain noSite measured filled (whole later scan)
    · exact .plain noSite' measured' filled (whole' later scan)
  | @site before lead specifier ahead quote form here _ ih =>
    obtain ⟨here', later'⟩ := stops'.site_inv here
    obtain ⟨found, whole, whole'⟩ := ih later'
    refine ⟨.plain lead :: .site form specifier :: .plain [quote] :: found,
      fun later scan => ?_, fun later scan => ?_⟩
    · have joined := Scan.site here (whole later (by simpa using scan))
      simpa using joined
    · have joined := Scan.site here' (whole' later (by simpa using scan))
      simpa using joined

/-- A scan that begins with a slash is the same after all texts in which the slash is the same. -/
theorem Scan.congr_slash {before before' text : List Char} {found : List Piece}
    (scan : Scan before ('/' :: text) found)
    (same : slashOpensRegex before = slashOpensRegex before') :
    Scan before' ('/' :: text) found := by
  generalize shape : '/' :: text = whole at scan ⊢
  cases scan with
  | done => cases shape
  | @plain _ part rest found noSite measured filled later =>
    obtain ⟨first, part, rfl⟩ := List.exists_cons_of_ne_nil filled
    obtain ⟨rfl, -⟩ := List.cons.inj shape
    refine .plain (siteAt?_solid _ _ (by decide)) ?_ filled ?_
    · rw [← measured]
      unfold lexemeLength?
      rw [same]
    · -- Nothing behind the slash looks back beyond it.
      rw [List.reverse_cons, List.append_assoc, List.singleton_append] at later ⊢
      refine later.congr (fun since text => ?_) fun since => ?_
      · rw [← List.append_assoc, ← List.append_assoc]
        cases since ++ part.reverse <;> rfl
      · rw [← List.append_assoc, ← List.append_assoc]
        exact slashOpensRegex_append_cons (by decide) (by decide) _ _ _
  | site here =>
    rw [← shape, siteAt?_solid _ _ (by decide)] at here
    cases here

/-! ## Gaps before a slash -/

theorem gap_of_blanks {blanks : List Char}
    (areBlanks : ∀ character ∈ blanks, isBlank character = true) : Gap blanks := by
  induction blanks with
  | nil => exact .nil
  | cons blank blanks ih =>
    exact .blank (areBlanks blank List.mem_cons_self)
      (ih fun other member => areBlanks other (List.mem_cons_of_mem _ member))

/-- A scan that comes to a gap comes to what is behind it. -/
theorem Stops.gap {rest earlier ahead gap : List Char} (stops : Stops (gap ++ rest) earlier ahead)
    (isGap : Gap gap) : Stops rest earlier (ahead ++ gap) :=
  stops.append (Quiet.gap _ _ isGap).stops

/-- What is found in a script with a gap in it: what is found in the text before the gap, and what
is found behind it. -/
theorem occurrences_gap {ahead gap rest : List Char} {first later : List Piece} (isGap : Gap gap)
    (whole : ∀ later, Scan ahead.reverse (gap ++ rest) later ->
      Scan [] (ahead ++ (gap ++ rest)) (first ++ later))
    (scan : Scan (ahead ++ gap).reverse rest later) :
    first.flatMap Piece.text = ahead ∧
      occurrences (String.ofList (ahead ++ (gap ++ rest))) =
        occurrencesFrom 0 1 first ++ occurrencesFrom (Text.byteLength (ahead ++ gap))
          (1 + Text.lineFeeds (ahead ++ gap)) later := by
  obtain ⟨parts, rfl, passes⟩ := (Quiet.gap ahead.reverse rest isGap).scan
  rw [List.reverse_append] at scan
  have inner := passes _ scan
  have joined := whole _ inner
  obtain ⟨same, areSpecifiers⟩ := @Scan.pieces_ahead [] ahead _ _ _ joined (by simpa using inner)
  refine ⟨same, ?_⟩
  rw [occurrences, String.toList_ofList, joined.pieces_eq, occurrencesFrom_append areSpecifiers,
    same, occurrencesFrom_plain, Text.byteLength_append, lineFeeds_append, Nat.zero_add,
    Nat.add_assoc]

/-- What is found behind a gap before a slash does not depend on the gap, if the slash does not. -/
theorem Stops.exists_occurrences_slash {ahead gap gap' rest : List Char} (isGap : Gap gap)
    (isGap' : Gap gap') (stops : Stops (gap ++ '/' :: rest) [] ahead)
    (stops' : Stops (gap' ++ '/' :: rest) [] ahead)
    (same : slashOpensRegex (ahead ++ gap).reverse = slashOpensRegex (ahead ++ gap').reverse) :
    ∃ first later, first.flatMap Piece.text = ahead ∧
      Scan (ahead ++ gap').reverse ('/' :: rest) later ∧
      occurrences (String.ofList (ahead ++ (gap ++ '/' :: rest))) =
        occurrencesFrom 0 1 first ++ occurrencesFrom (Text.byteLength (ahead ++ gap))
          (1 + Text.lineFeeds (ahead ++ gap)) later ∧
      occurrences (String.ofList (ahead ++ (gap' ++ '/' :: rest))) =
        occurrencesFrom 0 1 first ++ occurrencesFrom (Text.byteLength (ahead ++ gap'))
          (1 + Text.lineFeeds (ahead ++ gap')) later := by
  obtain ⟨first, whole, whole'⟩ := stops.exists_common stops'
  rw [List.append_nil] at whole whole'
  obtain ⟨later, scan⟩ := exists_scan (ahead ++ gap).reverse ('/' :: rest)
  obtain ⟨made, found⟩ := occurrences_gap isGap whole scan
  have scan' := scan.congr_slash same
  exact ⟨first, later, made, scan', found, (occurrences_gap isGap' whole' scan').2⟩

/-! ## Comments -/

/-- Behind a comment a slash opens a regular expression exactly if the comment is a line comment
that ends as code does before an expression, and without the comment exactly if an expression
begins after the code before it. Where the two agree, and only there, the comment does not change
how far the skip at the slash reaches. Then, wherever the scan comes to the comment with it and to
the slash without it, it finds the same in both scripts, further on by the comment behind it. -/
theorem slashOpensRegex_comment_iff {comment blanks rest : List Char}
    (isComment : Comment comment) (areBlanks : ∀ character ∈ blanks, isBlank character = true)
    (noComment : commentLength? ('/' :: rest) = none) (before : List Char) :
    let behind := (before ++ (comment ++ blanks)).reverse
    let without := (before ++ blanks).reverse
    (slashOpensRegex behind = true ↔ LooksOpen comment) ∧
      (slashOpensRegex without = true ↔ BeginsExpression before) ∧
      (slashOpensRegex behind = slashOpensRegex without ↔
        (LooksOpen comment ↔ BeginsExpression before)) ∧
      (lexemeLength? behind ('/' :: rest) = lexemeLength? without ('/' :: rest) ↔
        (LooksOpen comment ↔ BeginsExpression before)) ∧
      (Stops (comment ++ (blanks ++ '/' :: rest)) [] before ->
        Stops (blanks ++ '/' :: rest) [] before ->
        Stops ('/' :: rest) [] (before ++ (comment ++ blanks)) ∧
          Stops ('/' :: rest) [] (before ++ blanks) ∧
          ((LooksOpen comment ↔ BeginsExpression before) -> ∃ found later,
            occurrences (String.ofList (before ++ (blanks ++ '/' :: rest))) = found ++ later ∧
              occurrences (String.ofList (before ++ (comment ++ (blanks ++ '/' :: rest)))) =
                found ++ later.map
                  (Occurrence.shift (Text.byteLength comment) (Text.lineFeeds comment)) ∧
              (∀ occurrence ∈ found, occurrence.stop ≤ Text.byteLength before) ∧
              ∀ occurrence ∈ later,
                Text.byteLength (before ++ blanks) < occurrence.start)) := by
  intro behind without
  have opens : slashOpensRegex behind = true ↔ LooksOpen comment := by
    have ends : behind = blanks.reverse ++ (comment.reverse ++ before.reverse) := by
      simp [behind]
    rw [ends, slashOpensRegex_blanks areBlanks, slashOpensRegex_comment isComment]
  have opens' : slashOpensRegex without = true ↔ BeginsExpression before := by
    rw [show without = blanks.reverse ++ before.reverse by simp [without],
      slashOpensRegex_blanks areBlanks, slashOpensRegex_reverse_iff]
  have agree : slashOpensRegex behind = slashOpensRegex without ↔
      (LooksOpen comment ↔ BeginsExpression before) := by
    rw [Bool.eq_iff_iff, opens, opens']
  -- The first three parts are about the look back alone; the scan comes in with the last two.
  refine ⟨opens, opens', agree, ?_, fun stops stops' => ?_⟩
  · rw [← agree]
    simp only [lexemeLength?, noComment]
    cases slashOpensRegex behind <;> cases slashOpensRegex without <;> simp
  · have isGap := gap_of_blanks areBlanks
    have isGap' : Gap (comment ++ blanks) := .comment isComment isGap
    rw [← List.append_assoc] at stops
    refine ⟨stops.gap isGap', stops'.gap isGap, fun alike => ?_⟩
    obtain ⟨first, later, made, scan, found, found'⟩ :=
      stops.exists_occurrences_slash isGap' isGap stops' (agree.2 alike)
    rw [← List.append_assoc comment]
    refine ⟨_, _, found', ?_, fun occurrence member => ?_, fun occurrence member => ?_⟩
    · rw [found, ← occurrencesFrom_shift]
      simp only [Text.byteLength_append, lineFeeds_append]
      congr 2 <;> omega
    · have := (bounds_of_mem_occurrencesFrom member).2.2
      rwa [made, Nat.zero_add] at this
    · exact scan.lt_start member

/-- After an assignment and a line comment that ends in a colon, a regular expression that holds a
quote is skipped as it is without the comment, and the call behind it is found. -/
theorem slashOpensRegex_comment_colon :
    Comment "// as:\n".toList ∧ commentLength? "/'/;require('./b')".toList = none ∧
      LooksOpen "// as:\n".toList ∧ BeginsExpression "x=".toList ∧
      Stops "// as:\n/'/;require('./b')".toList [] "x=".toList ∧
      Stops "/'/;require('./b')".toList [] "x=".toList ∧
      slashOpensRegex "x=// as:\n".toList.reverse = true ∧
      lexemeLength? "x=// as:\n".toList.reverse "/'/;require('./b')".toList = some 3 ∧
      occurrences "x=/'/;require('./b')" = [⟨"./b", 15, 18, .requireCall, 1⟩] ∧
      occurrences "x=// as:\n/'/;require('./b')" = [⟨"./b", 22, 25, .requireCall, 2⟩] := by
  have isComment : Comment "// as:\n".toList := @Comment.line " as:".toList (by decide)
  have looksOpen : LooksOpen "// as:\n".toList :=
    ⟨" as:".toList, rfl, " as".toList, [':'], by decide, .inl ⟨':', rfl, by decide⟩⟩
  have begins : BeginsExpression "x=".toList :=
    .inr ⟨['x'], ['='], by decide, .inl ⟨'=', rfl, by decide⟩⟩
  have noComment : commentLength? "/'/;require('./b')".toList = none := by decide
  have stops : Stops "// as:\n/'/;require('./b')".toList [] (['x'] ++ (['='] ++ [])) :=
    .plain (by decide) (by decide) (by decide) <|
      .plain (by decide) (by decide) (by decide) .done
  have stops' : Stops "/'/;require('./b')".toList [] (['x'] ++ (['='] ++ [])) :=
    .plain (by decide) (by decide) (by decide) <|
      .plain (by decide) (by decide) (by decide) .done
  obtain ⟨opens, -, -, skips, same⟩ := @slashOpensRegex_comment_iff _ []
    "'/;require('./b')".toList isComment nofun noComment "x=".toList
  have skipped := skips.2 (iff_of_true looksOpen begins)
  obtain ⟨-, -, found⟩ := same stops stops'
  obtain ⟨first, later, alone, behind, early, late⟩ := found (iff_of_true looksOpen begins)
  have call : occurrences "x=/'/;require('./b')" = [⟨"./b", 15, 18, .requireCall, 1⟩] := by
    decide
  have whole : first ++ later = [⟨"./b", 15, 18, .requireCall, 1⟩] := alone.symm.trans call
  cases first with
  | nil =>
    rw [List.nil_append] at whole
    rw [whole] at behind
    exact ⟨isComment, noComment, looksOpen, begins, stops, stops', opens.2 looksOpen,
      skipped.trans (by decide), call, behind⟩
  | cons occurrence first =>
    have here := early occurrence List.mem_cons_self
    rw [(List.cons.inj whole).1] at here
    exact absurd here (by decide)

/-- A block comment ends in a slash, and behind it a regular expression is taken for a division:
the quote that it holds opens a string, which hides the call. -/
theorem slashOpensRegex_comment_block :
    Comment "/* c */".toList ∧ commentLength? "/'/; require('./b')".toList = none ∧
      BeginsExpression "x = ".toList ∧
      Stops "/* c */ /'/; require('./b')".toList [] "x = ".toList ∧
      Stops " /'/; require('./b')".toList [] "x = ".toList ∧
      slashOpensRegex "x = /* c */ ".toList.reverse = false ∧
      slashOpensRegex "x =  ".toList.reverse = true ∧
      occurrences "x = /* c */ /'/; require('./b')" = [] ∧
      occurrences "x =  /'/; require('./b')" = [⟨"./b", 19, 22, .requireCall, 1⟩] := by
  have isComment : Comment "/* c */".toList := @Comment.block " c ".toList (by decide)
  have begins : BeginsExpression "x = ".toList :=
    .inr ⟨['x', ' '], ['='], by decide, .inl ⟨'=', rfl, by decide⟩⟩
  have stops : Stops "/* c */ /'/; require('./b')".toList []
      (['x'] ++ ([' '] ++ (['='] ++ ([' '] ++ [])))) :=
    .plain (by decide) (by decide) (by decide) <|
      .plain (by decide) (by decide) (by decide) <|
        .plain (by decide) (by decide) (by decide) <|
          .plain (by decide) (by decide) (by decide) .done
  have stops' : Stops " /'/; require('./b')".toList []
      (['x'] ++ ([' '] ++ (['='] ++ ([' '] ++ [])))) :=
    .plain (by decide) (by decide) (by decide) <|
      .plain (by decide) (by decide) (by decide) <|
        .plain (by decide) (by decide) (by decide) <|
          .plain (by decide) (by decide) (by decide) .done
  exact ⟨isComment, by decide, begins, stops, stops', by decide, by decide, by decide,
    by decide⟩

end Relink.Script
