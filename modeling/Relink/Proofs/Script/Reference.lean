import Mathlib.Data.List.Nodup
import Relink.Proofs.Script.Locality

/-!
# References

A reference is a statement that names a module, at a place where the scan of a text stops. The
specifiers that are found in a text are exactly those of its references, each with its form, its
span and its line, and whatever follows the quote after it.
-/

namespace Relink.Script

/-- A statement of `text` that names a module, where the scan of the text stops. The text stands
after `earlier`, given from its last character back. -/
structure Reference (earlier text : List Char) where
  /-- The text before the statement. -/
  ahead : List Char
  form : Form
  /-- The statement up to the quote. -/
  opening : List Char
  quote : Char
  specifier : List Char
  /-- The text after the quote that closes the specifier. -/
  rest : List Char
  text_eq : text = ahead ++ (opening ++ quote :: (specifier ++ quote :: rest))
  stops : Stops (opening ++ quote :: (specifier ++ quote :: rest)) earlier ahead
  begins : BeforeWord (ahead.reverse ++ earlier).head?
  opens : Opening form opening
  isQuote : isQuote quote = true
  isSpecifier : IsSpecifier specifier

namespace Reference

variable {earlier text : List Char}

/-- The text before the specifier. -/
def lead (reference : Reference earlier text) : List Char :=
  reference.ahead ++ (reference.opening ++ [reference.quote])

theorem text_eq_lead (reference : Reference earlier text) :
    text = reference.lead ++ (reference.specifier ++ reference.quote :: reference.rest) := by
  simp [reference.text_eq, lead]

/-- The specifier of a reference, in a text that begins at the byte `offset` of the line
`line`. -/
def occurrence (reference : Reference earlier text) (offset line : Nat) : Occurrence :=
  let start := offset + Text.byteLength reference.lead
  ⟨String.ofList reference.specifier, start, start + Text.byteLength reference.specifier,
    reference.form, line + Text.lineFeeds reference.lead⟩

end Reference

/-! ## What is found belongs to a reference -/

/-- Every specifier that a scan finds is that of a reference. -/
theorem Scan.exists_reference {before text : List Char} {found : List Piece}
    (scan : Scan before text found) {offset line : Nat} {occurrence : Occurrence}
    (member : occurrence ∈ occurrencesFrom offset line found) :
    ∃ reference : Reference before text, reference.occurrence offset line = occurrence := by
  induction scan generalizing offset line with
  | done => cases member
  | @plain before text rest found noSite measured filled _ ih =>
    obtain ⟨⟨ahead, form, opening, quote, specifier, after, rfl, stops, begins, opens, isQuote,
      isSpecifier⟩, rfl⟩ := ih member
    refine ⟨⟨text ++ ahead, form, opening, quote, specifier, after, by rw [List.append_assoc],
      .plain noSite measured filled stops, by simpa using begins, opens, isQuote, isSpecifier⟩, ?_⟩
    simp only [Reference.occurrence, Reference.lead, List.append_assoc, Text.byteLength_append,
      lineFeeds_append, Nat.add_assoc]
  | @site before lead specifier rest quote form found here _ ih =>
    obtain ⟨opening, rfl, begins, opens, isQuote, isSpecifier⟩ := exists_opening_of_site here
    rcases List.mem_cons.1 member with rfl | later
    · exact ⟨⟨[], form, opening, quote, specifier, rest, by simp, .done, begins, opens, isQuote,
        isSpecifier⟩, rfl⟩
    · obtain ⟨⟨ahead, form', opening', quote', specifier', after, rfl, stops, begins', opens',
        isQuote', isSpecifier'⟩, rfl⟩ := ih later
      refine ⟨⟨(opening ++ [quote]) ++ (specifier ++ ([quote] ++ ahead)), form', opening', quote',
        specifier', after, by simp, .site here stops, by simpa using begins', opens', isQuote',
        isSpecifier'⟩, ?_⟩
      simp only [Reference.occurrence, Reference.lead, List.append_assoc, Text.byteLength_append,
        lineFeeds_append, isSpecifier.lineFeeds, Nat.zero_add, Nat.add_assoc]

/-! ## What belongs to a reference is found -/

/-- The pieces of a scan before those of its second part make up its first part, and what they
hold at sites are specifiers. -/
theorem Scan.pieces_ahead {before ahead rest : List Char} {found later : List Piece}
    (joined : Scan before (ahead ++ rest) (found ++ later))
    (scan : Scan (ahead.reverse ++ before) rest later) :
    found.flatMap Piece.text = ahead ∧
      ∀ form specifier, .site form specifier ∈ found -> IsSpecifier specifier := by
  refine ⟨?_, fun _ _ member => joined.isSpecifier (List.mem_append_left _ member)⟩
  have same := joined.flatMap_text
  rw [List.flatMap_append, scan.flatMap_text] at same
  exact List.append_cancel_right same

/-- Where a scan stops between two parts, the pieces of the first part make it up, and what they
hold at sites are specifiers. -/
theorem Stops.exists_pieces {rest before ahead : List Char} (stops : Stops rest before ahead) :
    ∃ found, found.flatMap Piece.text = ahead ∧
      (∀ form specifier, .site form specifier ∈ found -> IsSpecifier specifier) ∧
      ∀ later, Scan (ahead.reverse ++ before) rest later ->
        Scan before (ahead ++ rest) (found ++ later) := by
  obtain ⟨found, whole, -⟩ := stops.exists_found
  obtain ⟨later, scan⟩ := exists_scan (ahead.reverse ++ before) rest
  obtain ⟨same, areSpecifiers⟩ := (whole later scan).pieces_ahead scan
  exact ⟨found, same, areSpecifiers, whole⟩

/-- A text has one scan. -/
theorem Scan.unique {before text : List Char} {found found' : List Piece}
    (scan : Scan before text found) (scan' : Scan before text found') : found = found' := by
  have same : piecesFrom before 0 [] text = found := scan.piecesFrom_eq
  rw [scan'.piecesFrom_eq] at same
  exact same.symm

/-- The specifier of every reference is found. -/
theorem Scan.mem_of_reference {before text : List Char} {found : List Piece}
    (scan : Scan before text found) (reference : Reference before text) (offset line : Nat) :
    reference.occurrence offset line ∈ occurrencesFrom offset line found := by
  obtain ⟨ahead, form, opening, quote, specifier, rest, rfl, stops, begins, opens, isQuote,
    isSpecifier⟩ := reference
  -- A scan that takes the statement for a site is put together, and there is no other one.
  obtain ⟨first, rfl, areSpecifiers, whole⟩ := stops.exists_pieces
  obtain ⟨later, after⟩ := exists_scan (quote :: (specifier.reverse ++
    ((opening ++ [quote]).reverse ++ ((first.flatMap Piece.text).reverse ++ before)))) rest
  have here : Scan ((first.flatMap Piece.text).reverse ++ before)
      (opening ++ quote :: (specifier ++ quote :: rest))
      (.plain (opening ++ [quote]) :: .site form specifier :: .plain [quote] :: later) := by
    have site := siteAt?_opening rest begins opens isQuote isSpecifier
    have joined := @Scan.site _ (opening ++ [quote]) specifier rest quote form later
      (by simpa using site) after
    simpa using joined
  rw [scan.unique (whole _ here), Script.occurrencesFrom_append areSpecifiers]
  refine List.mem_append_right _ ?_
  simp only [occurrencesFrom, Reference.occurrence, Reference.lead, Text.byteLength_append,
    lineFeeds_append, Nat.add_assoc]
  exact List.mem_cons_self

/-- The specifiers found in a script are exactly those of its references. -/
theorem mem_occurrences_iff {script : String} {found : Occurrence} :
    found ∈ occurrences script ↔
      ∃ reference : Reference [] script.toList, reference.occurrence 0 1 = found := by
  have scan := scan_pieces script.toList
  refine ⟨scan.exists_reference, ?_⟩
  rintro ⟨reference, rfl⟩
  exact scan.mem_of_reference reference 0 1

/-! ## Spans -/

/-- Bytes tell where a text is cut. -/
theorem append_inj_of_byteLength {first second rest rest' : List Char}
    (same : first ++ rest = second ++ rest')
    (size : Text.byteLength first = Text.byteLength second) : first = second ∧ rest = rest' := by
  induction first generalizing second with
  | nil =>
    cases second with
    | nil => exact ⟨rfl, same⟩
    | cons character second =>
      have := character.utf8Size_pos
      simp only [Text.byteLength, List.foldr_nil, List.foldr_cons] at size
      omega
  | cons character first ih =>
    cases second with
    | nil =>
      have := character.utf8Size_pos
      simp only [Text.byteLength, List.foldr_nil, List.foldr_cons] at size
      omega
    | cons character' second =>
      obtain ⟨rfl, tails⟩ := List.cons.inj same
      obtain ⟨rfl, rfl⟩ := ih tails (Nat.add_left_cancel size)
      exact ⟨rfl, rfl⟩

/-- The specifiers of pieces stand within the bytes of the pieces. -/
theorem bounds_of_mem_occurrencesFrom {offset line : Nat} {found : List Piece}
    {occurrence : Occurrence} (member : occurrence ∈ occurrencesFrom offset line found) :
    offset ≤ occurrence.start ∧ occurrence.start ≤ occurrence.stop ∧
      occurrence.stop ≤ offset + Text.byteLength (found.flatMap Piece.text) := by
  induction found generalizing offset line with
  | nil => cases member
  | cons piece found ih =>
    rw [List.flatMap_cons, Text.byteLength_append]
    cases piece with
    | plain text =>
      have := ih member
      simp only [Piece.text]
      omega
    | site form specifier =>
      rcases List.mem_cons.1 member with rfl | later
      · exact ⟨Nat.le_refl _, Nat.le_add_right .., by simp only [Piece.text]; omega⟩
      · have := ih later
        simp only [Piece.text]
        omega

/-- A specifier that a scan finds does not stand at its very start. -/
theorem Scan.lt_start {before text : List Char} {found : List Piece}
    (scan : Scan before text found) {offset line : Nat} {occurrence : Occurrence}
    (member : occurrence ∈ occurrencesFrom offset line found) : offset < occurrence.start := by
  induction scan generalizing offset line with
  | done => cases member
  | plain _ _ _ _ ih => exact Nat.lt_of_le_of_lt (Nat.le_add_right ..) (ih member)
  | @site before lead specifier rest quote form found here _ ih =>
    obtain ⟨opening, rfl, -⟩ := exists_opening_of_site here
    have leads := byteLength_pos (by simp : opening ++ [quote] ≠ [])
    rcases List.mem_cons.1 member with rfl | later
    · exact Nat.lt_add_of_pos_right leads
    · have := ih later
      omega

/-- The specifiers of a scan begin one after the other. -/
theorem Scan.pairwise_start {before text : List Char} {found : List Piece}
    (scan : Scan before text found) (offset line : Nat) :
    (occurrencesFrom offset line found).Pairwise fun earlier later =>
      earlier.start < later.start := by
  induction scan generalizing offset line with
  | done => exact .nil
  | plain _ _ _ _ ih => exact ih _ _
  | site _ after ih =>
    refine List.pairwise_cons.2 ⟨fun later member => ?_, ih _ _⟩
    have := after.lt_start member
    simp only
    omega

/-- A specifier of a script is told by where it begins. -/
theorem eq_of_start_eq {script : String} {found found' : Occurrence}
    (member : found ∈ occurrences script) (member' : found' ∈ occurrences script)
    (same : found.start = found'.start) : found = found' := by
  have increasing := (scan_pieces script.toList).pairwise_start 0 1
  have distinct : ((occurrences script).map Occurrence.start).Nodup :=
    List.pairwise_map.2 (increasing.imp Nat.ne_of_lt)
  exact List.inj_on_of_nodup_map distinct member member' same

end Relink.Script
