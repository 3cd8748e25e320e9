import Relink.Proofs.Script.Lexeme
import Relink.Proofs.Script.Opening
import Relink.Script.Piece

/-!
# Scanning as a judgment

`Scan before text found` says that `found` are the pieces of `text` when it stands after
`before`, given from its last character back. It is what `pieces` computes, one constructor for
each kind of step, and a proof about a scan is an induction over it.
-/

namespace Relink.Script

/-- The pieces of a text that stands after another one. -/
inductive Scan : List Char -> List Char -> List Piece -> Prop where
  | done {before : List Char} : Scan before [] []
  /-- Plain text: a comment, a literal or a single character. -/
  | plain {before text rest : List Char} {found : List Piece}
      (noSite : siteAt? before.head? (text ++ rest) = none)
      (measured : (lexemeLength? before (text ++ rest)).getD 1 = text.length)
      (filled : text ≠ [])
      (later : Scan (text.reverse ++ before) rest found) :
      Scan before (text ++ rest) (.plain text :: found)
  /-- A specifier, with what leads to it and the quote after it. -/
  | site {before lead specifier rest : List Char} {quote : Char} {form : Form} {found : List Piece}
      (here : siteAt? before.head? (lead ++ (specifier ++ quote :: rest)) =
        some ⟨form, lead.length, specifier⟩)
      (later : Scan (quote :: (specifier.reverse ++ (lead.reverse ++ before))) rest found) :
      Scan before (lead ++ (specifier ++ quote :: rest))
        (.plain lead :: .site form specifier :: .plain [quote] :: found)

/-! ## Marks -/

/-- The characters that begin a comment or a literal. -/
def isMark (character : Char) : Bool :=
  character == '/' || isQuote character || character == '\x60'

/-- A quote is a mark. -/
theorem isMark_of_isQuote {quote : Char} (isQuote : isQuote quote = true) :
    isMark quote = true := by
  simp [isMark, isQuote]

/-- A character of a clause is no mark. -/
theorem isMark_of_isClauseCharacter {character : Char}
    (plain : isClauseCharacter character = true) : isMark character = false := by
  have unquoted := isQuote_of_isClauseCharacter plain
  have noSlash := not_slash_of_isClauseCharacter plain
  have noTick : character ≠ '\x60' := by
    rintro rfl
    exact absurd plain (by decide)
  simp [isMark, unquoted, noSlash, noTick]

theorem isMark_of_isWord {character : Char} (isWord : isWord character = true) :
    isMark character = false :=
  isMark_of_isClauseCharacter (by simp [isClauseCharacter, isWord])

/-- Nothing is skipped as a whole from a character that is no mark. -/
theorem lexemeLength?_plain {character : Char} (before rest : List Char)
    (plain : isMark character = false) : lexemeLength? before (character :: rest) = none := by
  unfold lexemeLength?
  split <;> simp_all [isMark, isQuote]

/-- A quote is none of the other marks. -/
theorem quote_ne {quote : Char} (isQuote : isQuote quote = true) :
    quote ≠ '\\' ∧ quote ≠ '\n' ∧ quote ≠ '\x60' ∧ quote ≠ '/' ∧ quote ≠ '[' ∧ quote ≠ ']' ∧
      quote ≠ '*' := by
  simp only [Script.isQuote, Bool.or_eq_true, beq_iff_eq] at isQuote
  rcases isQuote with rfl | rfl <;> decide

/-! ## How far a lexeme reaches -/

/-- A lexeme takes at least one character of the text, and at most all of them. -/
theorem lexemeLength?_bounds {before text : List Char} {length : Nat}
    (found : lexemeLength? before text = some length) : 1 ≤ length ∧ length ≤ text.length := by
  unfold lexemeLength? at found
  split at found
  · rename_i rest
    obtain rfl := Option.some.inj found
    have := stringLength_bounds '\'' 1 rest
    simp only [List.length_cons]
    omega
  · rename_i rest
    obtain rfl := Option.some.inj found
    have := stringLength_bounds '"' 1 rest
    simp only [List.length_cons]
    omega
  · rename_i rest
    obtain rfl := Option.some.inj found
    have := templateLength_bounds 1 rest
    simp only [List.length_cons]
    omega
  · rename_i rest
    split at found
    · rename_i comment
      obtain rfl := Option.some.inj found
      have := commentLength?_bounds comment
      omega
    · split at found
      · obtain rfl := Option.some.inj found
        have := regexLength_bounds false 1 rest
        simp only [List.length_cons]
        omega
      · cases found
  · cases found

/-! ## The judgment and the machine -/

/-- What is in the pieces already is passed over. -/
theorem piecesFrom_append (before settled rest : List Char) (found : List Piece) :
    piecesFrom before settled.length found (settled ++ rest) =
      piecesFrom (settled.reverse ++ before) 0 found rest := by
  induction settled generalizing before with
  | nil => rfl
  | cons character settled ih =>
    rw [List.cons_append, List.length_cons, piecesFrom, ih, List.reverse_cons, List.append_assoc]
    rfl

/-- A text that is skipped as a whole makes one plain piece. -/
theorem piecesFrom_plain {before text rest : List Char} {found : List Piece}
    (noSite : siteAt? before.head? (text ++ rest) = none)
    (measured : (lexemeLength? before (text ++ rest)).getD 1 = text.length) (filled : text ≠ []) :
    piecesFrom before 0 found (text ++ rest) =
      piecesFrom (text.reverse ++ before) 0 (.plain text :: found) rest := by
  obtain ⟨character, text, rfl⟩ := List.exists_cons_of_ne_nil filled
  rw [List.cons_append] at noSite measured ⊢
  rw [piecesFrom, noSite]
  simp only [measured, List.length_cons, Nat.add_sub_cancel]
  rw [piecesFrom_append, ← List.cons_append, List.take_left' (List.length_cons ..),
    List.reverse_cons, List.append_assoc]
  rfl

/-- A statement makes its lead, its quotes and its specifier into pieces. -/
theorem piecesFrom_site {before lead specifier rest : List Char} {quote : Char} {form : Form}
    {found : List Piece} (filled : lead ≠ [])
    (here : siteAt? before.head? (lead ++ (specifier ++ quote :: rest)) =
      some ⟨form, lead.length, specifier⟩) :
    piecesFrom before 0 found (lead ++ (specifier ++ quote :: rest)) =
      piecesFrom (quote :: (specifier.reverse ++ (lead.reverse ++ before))) 0
        (.plain [quote] :: .site form specifier :: .plain lead :: found) rest := by
  have dropped : (lead ++ (specifier ++ quote :: rest)).drop (lead.length + specifier.length) =
      quote :: rest := by
    rw [← List.drop_drop, List.drop_left, List.drop_left]
  have taken : (lead ++ (specifier ++ quote :: rest)).take lead.length = lead := List.take_left
  obtain ⟨character, lead, rfl⟩ := List.exists_cons_of_ne_nil filled
  rw [List.cons_append] at here dropped taken ⊢
  rw [piecesFrom, here]
  dsimp only
  rw [dropped, taken]
  have settled := piecesFrom_append (character :: before) (lead ++ (specifier ++ [quote])) rest
    (.plain [quote] :: .site form specifier :: .plain (character :: lead) :: found)
  simp only [List.append_assoc, List.cons_append, List.nil_append, List.length_append,
    List.length_cons, List.length_nil, List.reverse_append, List.reverse_cons,
    List.reverse_nil] at settled ⊢
  rw [← settled]
  congr 1
  omega

/-- What leads to a specifier is not empty. -/
theorem Opening.ne_nil {form : Form} {opening : List Char} (opens : Opening form opening) :
    opening ≠ [] := by
  cases opens <;> simp

/-- A site splits its text into what leads to the specifier, the specifier, and the rest. -/
theorem exists_lead_of_siteAt? {previous : Option Char} {text : List Char} {site : Site}
    (found : siteAt? previous text = some site) :
    ∃ lead quote rest, text = lead ++ (site.specifier ++ quote :: rest) ∧
      lead.length = site.lead ∧ lead ≠ [] := by
  obtain ⟨-, opening, quote, rest, opens, -, -, rfl, measured⟩ := exists_opening_of_siteAt? found
  exact ⟨opening ++ [quote], quote, rest, by simp, by simp [measured], by simp⟩

/-- What leads to a specifier that was found is an opening with the quote. -/
theorem exists_opening_of_site {previous : Option Char} {lead specifier rest : List Char}
    {quote : Char} {form : Form}
    (here : siteAt? previous (lead ++ (specifier ++ quote :: rest)) =
      some ⟨form, lead.length, specifier⟩) :
    ∃ opening, lead = opening ++ [quote] ∧ BeforeWord previous ∧ Opening form opening ∧
      isQuote quote = true ∧ IsSpecifier specifier := by
  obtain ⟨before, opening, quote', tail, opens, isQuote, isSpecifier, same, measured⟩ :=
    exists_opening_of_siteAt? here
  simp only [List.nil_append] at same measured opens
  rw [← List.singleton_append (x := quote'), ← List.append_assoc opening] at same
  obtain ⟨rfl, ends⟩ := List.append_inj same (by simp [measured])
  obtain ⟨rfl, -⟩ := List.cons.inj (List.append_cancel_left ends)
  exact ⟨opening, rfl, before, opens, isQuote, isSpecifier⟩

/-- A site stays the same whatever follows its closing quote. -/
theorem siteAt?_of_site {previous : Option Char} {lead specifier rest : List Char} {quote : Char}
    {form : Form}
    (here : siteAt? previous (lead ++ (specifier ++ quote :: rest)) =
      some ⟨form, lead.length, specifier⟩) (rest' : List Char) :
    siteAt? previous (lead ++ (specifier ++ quote :: rest')) =
      some ⟨form, lead.length, specifier⟩ := by
  obtain ⟨opening, rfl, begins, opens, isQuote, isSpecifier⟩ := exists_opening_of_site here
  simpa using siteAt?_opening rest' begins opens isQuote isSpecifier

/-- The pieces of a scan are those that the machine finds. -/
theorem Scan.piecesFrom_eq {before text : List Char} {found earlier : List Piece}
    (scan : Scan before text found) :
    piecesFrom before 0 earlier text = earlier.reverse ++ found := by
  induction scan generalizing earlier with
  | done => simp [piecesFrom]
  | plain noSite measured filled _ ih =>
    rw [piecesFrom_plain noSite measured filled, ih, List.reverse_cons, List.append_assoc]
    rfl
  | @site _ lead _ _ _ _ _ here _ ih =>
    have filled : lead ≠ [] := by
      obtain ⟨lead', _, _, -, measured, filled⟩ := exists_lead_of_siteAt? here
      rintro rfl
      exact filled (List.length_eq_zero_iff.1 measured)
    rw [piecesFrom_site filled here, ih]
    simp

/-- Every text has a scan. -/
theorem exists_scan (before text : List Char) : ∃ found, Scan before text found := by
  induction size : text.length using Nat.strong_induction_on generalizing before text with
  | _ size ih =>
    subst size
    cases here : siteAt? before.head? text with
    | some site =>
      obtain ⟨lead, quote, rest, rfl, measured, -⟩ := exists_lead_of_siteAt? here
      obtain ⟨found, later⟩ := ih rest.length (by simp; omega)
        (quote :: (site.specifier.reverse ++ (lead.reverse ++ before))) rest rfl
      exact ⟨_, .site (by rw [here, measured]) later⟩
    | none =>
      cases text with
      | nil => exact ⟨[], .done⟩
      | cons character rest =>
        have bounds : 1 ≤ (lexemeLength? before (character :: rest)).getD 1 ∧
            (lexemeLength? before (character :: rest)).getD 1 ≤ (character :: rest).length := by
          cases measured : lexemeLength? before (character :: rest) with
          | none => simp
          | some length => exact lexemeLength?_bounds measured
        generalize measured : (lexemeLength? before (character :: rest)).getD 1 = length at bounds
        generalize character :: rest = text at *
        have taken : (text.take length).length = length := List.length_take_of_le bounds.2
        obtain ⟨found, later⟩ := ih (text.drop length).length (by rw [List.length_drop]; omega)
          ((text.take length).reverse ++ before) (text.drop length) rfl
        refine ⟨.plain (text.take length) :: found, ?_⟩
        have scan := Scan.plain (by rwa [List.take_append_drop])
          (by rw [List.take_append_drop, measured, taken])
          (fun empty => by rw [empty] at taken; simp at taken; omega) later
        rwa [List.take_append_drop] at scan

/-- The pieces of a script are the pieces of its scan. -/
theorem scan_pieces (script : List Char) : Scan [] script (pieces script) := by
  obtain ⟨found, scan⟩ := exists_scan [] script
  rw [pieces, scan.piecesFrom_eq]
  exact scan

/-- The pieces of a scan are those that the text is cut into. -/
theorem Scan.pieces_eq {script : List Char} {found : List Piece} (scan : Scan [] script found) :
    pieces script = found := by
  rw [pieces, scan.piecesFrom_eq]
  rfl

/-- Nothing of a text is lost in its pieces. -/
theorem Scan.flatMap_text {before text : List Char} {found : List Piece}
    (scan : Scan before text found) : found.flatMap Piece.text = text := by
  induction scan with
  | done => rfl
  | plain _ _ _ _ ih => rw [List.flatMap_cons, ih, Piece.text]
  | site _ _ ih => simp [Piece.text, ih]

/-- What is found at a site is a specifier. -/
theorem Scan.isSpecifier {before text : List Char} {found : List Piece}
    (scan : Scan before text found) {form : Form} {specifier : List Char}
    (member : .site form specifier ∈ found) : IsSpecifier specifier := by
  induction scan with
  | done => cases member
  | plain _ _ _ _ ih =>
    rcases List.mem_cons.1 member with impossible | later
    · cases impossible
    · exact ih later
  | site here _ ih =>
    simp only [List.mem_cons, reduceCtorEq, false_or, Piece.site.injEq] at member
    rcases member with ⟨rfl, rfl⟩ | later
    · obtain ⟨-, opening, quote, rest, -, -, isSpecifier, -⟩ := exists_opening_of_siteAt? here
      exact isSpecifier
    · exact ih later

end Relink.Script
