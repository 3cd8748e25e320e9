import Relink.Proofs.Script.Clause

/-!
# What stands before a specifier

`Opening` is the grammar of the statements that name a module, up to the quote of the specifier.
A site is found exactly where an opening and a quoted specifier stand.
-/

namespace Relink.Script

/-- A statement of a form up to the quote of its specifier. -/
inductive Opening : Form -> List Char -> Prop where
  | bareImport {gap : List Char} (isGap : Gap gap) :
      Opening .staticImport ("import".toList ++ gap)
  | importFrom {clause gap : List Char} (isClause : Clause clause) (apart : Apart clause)
      (isGap : Gap gap) :
      Opening .staticImport ("import".toList ++ (clause ++ ("from".toList ++ gap)))
  | exportFrom {clause gap : List Char} (isClause : Clause clause) (apart : Apart clause)
      (isGap : Gap gap) :
      Opening .exportFrom ("export".toList ++ (clause ++ ("from".toList ++ gap)))
  | dynamicImport {gap inner : List Char} (isGap : Gap gap) (isInner : Gap inner) :
      Opening .dynamicImport ("import".toList ++ (gap ++ '(' :: inner))
  | requireCall {gap inner : List Char} (isGap : Gap gap) (isInner : Gap inner) :
      Opening .requireCall ("require".toList ++ (gap ++ '(' :: inner))

/-! ## Sites -/

/-- A site in a text that begins with a keyword: `offset` characters after the keyword stands a
quoted specifier. -/
structure SiteIn (form : Form) (keyword offset : Nat) (following : List Char) (site : Site) :
    Prop where
  form_eq : site.form = form
  lead_eq : site.lead = keyword + offset + 1
  isSpecifier : IsSpecifier site.specifier
  quoted : ∃ quote rest, isQuote quote = true ∧
    following.drop offset = quote :: (site.specifier ++ quote :: rest)

theorem quotedSite?_eq_some_iff {form : Form} {keyword offset : Nat} {following : List Char}
    {site : Site} :
    quotedSite? form keyword offset following = some site ↔
      SiteIn form keyword offset following site := by
  unfold quotedSite?
  rw [Option.map_eq_some_iff]
  constructor
  · rintro ⟨specifier, found, rfl⟩
    obtain ⟨quote, rest, same, isQuote, isSpecifier⟩ := exists_of_quotedSpecifier? found
    exact ⟨rfl, rfl, isSpecifier, quote, rest, isQuote, same⟩
  · rintro ⟨rfl, lead_eq, isSpecifier, quote, rest, isQuote, same⟩
    refine ⟨site.specifier, ?_, ?_⟩
    · rw [same]
      exact quotedSpecifier?_eq_some rest isQuote isSpecifier
    · rw [← lead_eq]

/-- A gap before a bracket ends there. -/
theorem triviaLength_bracket {gap : List Char} (rest : List Char) (isGap : Gap gap) :
    triviaLength (gap ++ '(' :: rest) = gap.length := by
  rw [triviaLength_gap _ isGap, triviaLength_solid (by decide)
    (commentLength?_eq_none rest (by decide)), Nat.add_zero]

/-- The argument of a call is a site exactly where a gap and a quoted specifier follow the
bracket. -/
theorem argumentSite?_eq_some_iff {form : Form} {keyword : Nat} {gap rest : List Char}
    {site : Site} :
    argumentSite? form keyword gap.length (gap ++ '(' :: rest) = some site ↔
      ∃ inner quote tail, Gap inner ∧ isQuote quote = true ∧ IsSpecifier site.specifier ∧
        rest = inner ++ quote :: (site.specifier ++ quote :: tail) ∧ site.form = form ∧
        site.lead = keyword + gap.length + 1 + inner.length + 1 := by
  have dropped : (gap ++ '(' :: rest).drop (gap.length + 1) = rest := by
    simp [List.drop_append]
  unfold argumentSite?
  rw [quotedSite?_eq_some_iff, dropped]
  constructor
  · rintro ⟨form_eq, lead_eq, isSpecifier, quote, tail, isQuote, same⟩
    rw [← List.drop_drop, dropped] at same
    obtain ⟨inner, tail', rfl, isInner, measured⟩ :=
      exists_gap_of_triviaLength (by rw [same]; rfl : _ = some quote)
    rw [triviaLength_quote _ isInner isQuote, List.drop_left] at same
    refine ⟨inner, quote, tail, isInner, isQuote, isSpecifier, by rw [same], form_eq, ?_⟩
    rw [lead_eq, measured]
    omega
  · rintro ⟨inner, quote, tail, isInner, isQuote, isSpecifier, rfl, form_eq, lead_eq⟩
    rw [triviaLength_quote _ isInner isQuote]
    refine ⟨form_eq, by omega, isSpecifier, quote, tail, isQuote, ?_⟩
    rw [← List.drop_drop, dropped, List.drop_left]

/-- A statement with a clause is a site exactly where a clause, a `from` and a quoted specifier
follow the keyword. -/
theorem clauseSite?_eq_some_iff {form : Form} {keyword : Nat} {following : List Char}
    {site : Site} (after : AfterWord following) :
    clauseSite? form keyword following = some site ↔
      ∃ clause gap quote rest, Clause clause ∧ Apart clause ∧ Gap gap ∧ isQuote quote = true ∧
        IsSpecifier site.specifier ∧
        following =
          clause ++ ("from".toList ++ (gap ++ quote :: (site.specifier ++ quote :: rest))) ∧
        site.form = form ∧ site.lead = keyword + (clause.length + 4 + gap.length) + 1 := by
  -- What follows the `from` and its gap.
  have measured (clause gap tail : List Char) :
      (clause ++ ("from".toList ++ (gap ++ tail))).drop (clause.length + 4 + gap.length) =
        tail := by
    rw [← List.drop_drop, ← List.drop_drop, List.drop_left,
      show "from".toList ++ (gap ++ tail) = 'f' :: 'r' :: 'o' :: 'm' :: (gap ++ tail) from rfl]
    simp
  unfold clauseSite?
  rw [Option.bind_eq_some_iff]
  constructor
  · rintro ⟨offset, found, here⟩
    obtain @⟨clause, gap, quote, rest, isClause, isGap, isQuote, before⟩ :=
      clauseLengthFrom?_eq_some_iff.1 found
    obtain ⟨form_eq, lead_eq, isSpecifier, quote', rest', -, same⟩ := quotedSite?_eq_some_iff.1 here
    rw [measured, List.cons.injEq] at same
    obtain ⟨rfl, rfl⟩ := same
    have filled : clause ≠ [] := by
      rintro rfl
      exact absurd (before 't' rfl).1 (by decide)
    have last : clause.getLast? = ('t' :: clause).getLast? := by
      rw [List.getLast?_cons_of_ne_nil filled]
    refine ⟨clause, gap, quote, rest', isClause, ⟨filled, fun character first => ?_,
      fun character found => (before character (last ▸ found)).1⟩, isGap, isQuote, isSpecifier,
      rfl, form_eq, lead_eq⟩
    refine after character ?_
    rw [List.head?_append, first, Option.some_or]
  · rintro ⟨clause, gap, quote, rest, isClause, apart, isGap, isQuote, isSpecifier, rfl, form_eq,
      lead_eq⟩
    refine ⟨clause.length + 4 + gap.length,
      clauseLengthFrom?_eq_some_iff.2 (.mk _ isClause isGap isQuote ?_), ?_⟩
    · intro character found
      rw [List.getLast?_cons_of_ne_nil apart.ne_nil] at found
      exact ⟨apart.last character found, fun point => isClause.getLast?_ne_point (point ▸ found)⟩
    · exact quotedSite?_eq_some_iff.2
        ⟨form_eq, lead_eq, isSpecifier, quote, rest, isQuote, measured ..⟩

/-- A site whose statement begins with the word `word`, before which nothing is known. -/
def SiteAfter (word following : List Char) (site : Site) : Prop :=
  ∃ opening quote rest, Opening site.form (word ++ opening) ∧ isQuote quote = true ∧
    IsSpecifier site.specifier ∧ following = opening ++ quote :: (site.specifier ++ quote :: rest) ∧
    site.lead = (word ++ opening).length + 1

/-- What is found behind a clause has an opening. -/
theorem siteAfter_of_clauseSite? {form : Form} {word following : List Char} {site : Site}
    (opens : ∀ {clause gap : List Char}, Clause clause -> Apart clause -> Gap gap ->
      Opening form (word ++ (clause ++ ("from".toList ++ gap))))
    (after : AfterWord following) (found : clauseSite? form word.length following = some site) :
    SiteAfter word following site := by
  obtain ⟨clause, gap, quote, rest, isClause, apart, isGap, isQuote, isSpecifier, rfl, rfl, lead⟩ :=
    (clauseSite?_eq_some_iff after).1 found
  refine ⟨clause ++ ("from".toList ++ gap), quote, rest, opens isClause apart isGap, isQuote,
    isSpecifier, by simp only [List.append_assoc], ?_⟩
  simp only [List.length_append, show "from".toList.length = 4 from rfl]
  omega

/-- What is found as an argument has an opening. -/
theorem siteAfter_of_argumentSite? {form : Form} {word following : List Char} {site : Site}
    (opens : ∀ {gap inner : List Char}, Gap gap -> Gap inner ->
      Opening form (word ++ (gap ++ '(' :: inner)))
    (bracket : (following.drop (triviaLength following)).head? = some '(')
    (found : argumentSite? form word.length (triviaLength following) following = some site) :
    SiteAfter word following site := by
  obtain ⟨gap, rest, rfl, isGap, measured⟩ := exists_gap_of_triviaLength bracket
  rw [← measured] at found
  obtain ⟨inner, quote, tail, isInner, isQuote, isSpecifier, rfl, rfl, lead⟩ :=
    argumentSite?_eq_some_iff.1 found
  refine ⟨gap ++ '(' :: inner, quote, tail, opens isGap isInner, isQuote, isSpecifier,
    by simp, ?_⟩
  simp only [List.length_append, List.length_cons]
  omega

/-- What is found behind `import` has an opening. -/
theorem siteAfter_of_importSite? {following : List Char} {site : Site}
    (after : AfterWord following) (found : importSite? following = some site) :
    SiteAfter "import".toList following site := by
  unfold importSite? at found
  dsimp only at found
  have bare {quote : Char} (isQuote : isQuote quote = true)
      (head : (following.drop (triviaLength following)).head? = some quote)
      (found : quotedSite? .staticImport 6 (triviaLength following) following = some site) :
      SiteAfter "import".toList following site := by
    obtain ⟨gap, rest, rfl, isGap, measured⟩ := exists_gap_of_triviaLength head
    obtain ⟨form, lead, isSpecifier, quote, rest', isQuote', same⟩ :=
      quotedSite?_eq_some_iff.1 found
    rw [← measured, List.drop_left] at same
    refine ⟨gap, quote, rest', form ▸ .bareImport isGap, isQuote', isSpecifier, by rw [same], ?_⟩
    rw [lead, List.length_append, measured]
    rfl
  split at found
  · rename_i bracket
    exact siteAfter_of_argumentSite? Opening.dynamicImport bracket found
  · rename_i head
    exact bare rfl head found
  · rename_i head
    exact bare rfl head found
  · exact siteAfter_of_clauseSite? Opening.importFrom after found

/-- What is found behind `require` has an opening. -/
theorem siteAfter_of_requireSite? {following : List Char} {site : Site}
    (found : requireSite? following = some site) : SiteAfter "require".toList following site := by
  unfold requireSite? at found
  dsimp only at found
  split at found
  · rename_i bracket
    exact siteAfter_of_argumentSite? Opening.requireCall bracket found
  · cases found

/-- A site is found only where an opening and a quoted specifier stand. -/
theorem exists_opening_of_siteAt? {previous : Option Char} {text : List Char} {site : Site}
    (found : siteAt? previous text = some site) :
    BeforeWord previous ∧ SiteAfter [] text site := by
  have begin_ {word : List Char} (begins : beginsWithWord previous word text = true)
      (here : ∀ following, AfterWord following -> text = word ++ following ->
        SiteAfter word following site) : BeforeWord previous ∧ SiteAfter [] text site := by
    obtain ⟨before, following, rfl, after⟩ := beginsWithWord_iff.1 begins
    obtain ⟨opening, quote, rest, opens, isQuote, isSpecifier, rfl, lead⟩ :=
      here following after rfl
    exact ⟨before, word ++ opening, quote, rest, opens, isQuote, isSpecifier, by simp, lead⟩
  unfold siteAt? at found
  split at found
  · rename_i begins
    refine begin_ begins fun following after same => ?_
    subst same
    exact siteAfter_of_importSite? after found
  · split at found
    · rename_i begins
      refine begin_ begins fun following after same => ?_
      subst same
      exact siteAfter_of_clauseSite? Opening.exportFrom after found
    · split at found
      · rename_i begins
        refine begin_ begins fun following after same => ?_
        subst same
        exact siteAfter_of_requireSite? found
      · cases found

/-- Where `import` stands as a word, what is found is what it begins. -/
theorem siteAt?_import {previous : Option Char} {following : List Char}
    (before : BeforeWord previous) (after : AfterWord following) :
    siteAt? previous ("import".toList ++ following) = importSite? following := by
  rw [siteAt?, if_pos (beginsWithWord_iff.2 ⟨before, following, rfl, after⟩)]
  rfl

/-- Where `export` stands as a word, what is found is what it begins. -/
theorem siteAt?_export {previous : Option Char} {following : List Char}
    (before : BeforeWord previous) (after : AfterWord following) :
    siteAt? previous ("export".toList ++ following) = exportSite? following := by
  have noImport :
      beginsWithWord previous "import".toList ("export".toList ++ following) = false := by
    simp [beginsWithWord]
  rw [siteAt?, noImport, if_neg (by decide),
    if_pos (beginsWithWord_iff.2 ⟨before, following, rfl, after⟩)]
  rfl

/-- Where `require` stands as a word, what is found is what it begins. -/
theorem siteAt?_require {previous : Option Char} {following : List Char}
    (before : BeforeWord previous) (after : AfterWord following) :
    siteAt? previous ("require".toList ++ following) = requireSite? following := by
  have noImport :
      beginsWithWord previous "import".toList ("require".toList ++ following) = false := by
    simp [beginsWithWord]
  have noExport :
      beginsWithWord previous "export".toList ("require".toList ++ following) = false := by
    simp [beginsWithWord]
  rw [siteAt?, noImport, if_neg (by decide), noExport, if_neg (by decide),
    if_pos (beginsWithWord_iff.2 ⟨before, following, rfl, after⟩)]
  rfl

/-- What comes behind `import` and is no bracket and no quote is a clause. -/
theorem importSite?_clause {following : List Char} {head : Char}
    (found : (following.drop (triviaLength following)).head? = some head)
    (bracket : head ≠ '(') (unquoted : isQuote head = false) :
    importSite? following = clauseSite? .staticImport 6 following := by
  unfold importSite?
  dsimp only
  rw [found]
  split
  · rename_i same
    exact absurd (Option.some.inj same) bracket
  · rename_i same
    rw [Option.some.inj same] at unquoted
    exact absurd unquoted (by decide)
  · rename_i same
    rw [Option.some.inj same] at unquoted
    exact absurd unquoted (by decide)
  · rfl

/-- A specifier right behind `import` is found. -/
theorem importSite?_quoted {gap specifier : List Char} {quote : Char} (rest : List Char)
    (isGap : Gap gap) (isQuote : isQuote quote = true) (isSpecifier : IsSpecifier specifier) :
    importSite? (gap ++ quote :: (specifier ++ quote :: rest)) =
      some ⟨.staticImport, ("import".toList ++ gap).length + 1, specifier⟩ := by
  have quoted : quotedSite? .staticImport 6 gap.length
      (gap ++ quote :: (specifier ++ quote :: rest)) =
        some ⟨.staticImport, ("import".toList ++ gap).length + 1, specifier⟩ := by
    refine quotedSite?_eq_some_iff.2 ⟨rfl, ?_, isSpecifier, quote, rest, isQuote, List.drop_left⟩
    rw [List.length_append]
    rfl
  unfold importSite?
  dsimp only
  rw [triviaLength_quote _ isGap isQuote, List.drop_left, List.head?_cons, quoted]
  simp only [Script.isQuote, Bool.or_eq_true, beq_iff_eq] at isQuote
  rcases isQuote with rfl | rfl <;> rfl

/-- A site is found wherever an opening and a quoted specifier stand. -/
theorem siteAt?_opening {previous : Option Char} {form : Form} {opening specifier : List Char}
    {quote : Char} (rest : List Char) (before : BeforeWord previous) (opens : Opening form opening)
    (isQuote : isQuote quote = true) (isSpecifier : IsSpecifier specifier) :
    siteAt? previous (opening ++ quote :: (specifier ++ quote :: rest)) =
      some ⟨form, opening.length + 1, specifier⟩ := by
  have solid := isWord_of_isQuote isQuote
  cases opens with
  | @bareImport gap isGap =>
    rw [List.append_assoc, siteAt?_import before (isGap.afterWord _ solid)]
    exact importSite?_quoted rest isGap isQuote isSpecifier
  | @importFrom clause gap isClause apart isGap =>
    have after : AfterWord
        (clause ++ ("from".toList ++ (gap ++ quote :: (specifier ++ quote :: rest)))) :=
      apart.afterWord _
    obtain ⟨head, found, plain⟩ := isClause.head?_drop_from
      (gap ++ quote :: (specifier ++ quote :: rest))
    have bracket : head ≠ '(' := by
      rintro rfl
      exact absurd plain (by decide)
    simp only [List.append_assoc]
    rw [siteAt?_import before after,
      importSite?_clause found bracket (isQuote_of_isClauseCharacter plain),
      clauseSite?_eq_some_iff after]
    exact ⟨clause, gap, quote, rest, isClause, apart, isGap, isQuote, isSpecifier, rfl, rfl, by
      simp; omega⟩
  | @exportFrom clause gap isClause apart isGap =>
    have after := apart.afterWord
      ("from".toList ++ (gap ++ quote :: (specifier ++ quote :: rest)))
    simp only [List.append_assoc]
    rw [siteAt?_export before after, exportSite?, clauseSite?_eq_some_iff after]
    exact ⟨clause, gap, quote, rest, isClause, apart, isGap, isQuote, isSpecifier, rfl, rfl, by
      simp; omega⟩
  | @dynamicImport gap inner isGap isInner =>
    have after := isGap.afterWord (inner ++ quote :: (specifier ++ quote :: rest))
      (by decide : isWord '(' = false)
    have measured := triviaLength_bracket (inner ++ quote :: (specifier ++ quote :: rest)) isGap
    simp only [List.append_assoc, List.cons_append]
    rw [siteAt?_import before after, importSite?]
    rw [measured, List.drop_left, List.head?_cons]
    exact argumentSite?_eq_some_iff.2 ⟨inner, quote, rest, isInner, isQuote, isSpecifier, rfl, rfl,
      by simp; omega⟩
  | @requireCall gap inner isGap isInner =>
    have after := isGap.afterWord (inner ++ quote :: (specifier ++ quote :: rest))
      (by decide : isWord '(' = false)
    have measured := triviaLength_bracket (inner ++ quote :: (specifier ++ quote :: rest)) isGap
    simp only [List.append_assoc, List.cons_append]
    rw [siteAt?_require before after, requireSite?]
    rw [measured, List.drop_left, List.head?_cons, if_pos rfl]
    exact argumentSite?_eq_some_iff.2 ⟨inner, quote, rest, isInner, isQuote, isSpecifier, rfl, rfl,
      by simp; omega⟩

end Relink.Script
