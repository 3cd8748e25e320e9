import Relink.Outcome
import Relink.Proofs.Script.Scan

/-!
# Splicing

The text that relinking gives is the old text, byte by byte, with the spans of the replaced
specifiers exchanged and nothing else: no byte is lost, repeated or moved. The spans of a
text's specifiers stand one after the other, so that cutting the text at them is sound.
-/

namespace Relink

/-- The bytes of a text. -/
def bytes (text : String) : List UInt8 :=
  text.toByteArray.data.toList

/-- The bytes from `start` up to `stop`. -/
def slice (whole : List UInt8) (start stop : Nat) : List UInt8 :=
  (whole.take stop).drop start

/-- A span of bytes, with what is to stand there. -/
structure Edit where
  start : Nat
  stop : Nat
  content : List UInt8

/-- The bytes from `last` on, with spans exchanged. -/
def splice (whole : List UInt8) (last : Nat) : List Edit -> List UInt8
  | [] => whole.drop last
  | edit :: rest =>
    slice whole last edit.start ++ (edit.content ++ splice whole edit.stop rest)

/-- The exchange of a specifier that is replaced. -/
def edit? (found : Script.Occurrence) : Outcome -> Option Edit
  | .replaced text => some ⟨found.start, found.stop, bytes text⟩
  | _ => none

theorem edit?_replaced (found : Script.Occurrence) (text : String) :
    edit? found (.replaced text) = some ⟨found.start, found.stop, bytes text⟩ :=
  rfl

theorem edit?_unchanged (found : Script.Occurrence) : edit? found .unchanged = none :=
  rfl

theorem edit?_reported (found : Script.Occurrence) (concern : Concern) :
    edit? found (.reported concern) = none :=
  rfl

/-- Occurrences that stand one after the other in a text from `last` on, each where the text has
its specifier. -/
def InOrder (whole : List UInt8) (last : Nat) : List Script.Occurrence -> Prop
  | [] => last ≤ whole.length
  | found :: rest =>
    last ≤ found.start ∧ found.start ≤ found.stop ∧
      slice whole found.start found.stop = bytes found.specifier ∧
      InOrder whole found.stop rest

/-! ## Bytes of characters -/

theorem bytes_ofList (characters : List Char) :
    bytes (String.ofList characters) = characters.flatMap String.utf8EncodeChar := by
  simp [bytes, List.utf8Encode]

/-- The bytes of a text are those of its characters. -/
theorem bytes_eq (text : String) : bytes text = text.toList.flatMap String.utf8EncodeChar := by
  rw [← bytes_ofList, String.ofList_toList]

/-- Characters are encoded in as many bytes as they take. -/
theorem length_encode (characters : List Char) :
    (characters.flatMap String.utf8EncodeChar).length = Text.byteLength characters := by
  induction characters with
  | nil => rfl
  | cons character rest ih =>
    rw [List.flatMap_cons, List.length_append, ih, String.length_utf8EncodeChar]
    rfl

/-! ## The spans of a text's specifiers -/

/-- The bytes between two borders are those in the middle. -/
theorem slice_append (kept middle rest : List UInt8) :
    slice (kept ++ (middle ++ rest)) kept.length (kept.length + middle.length) = middle := by
  rw [slice, ← List.append_assoc, List.take_left' (List.length_append), List.drop_left]

/-- The specifiers of pieces stand in order in a text that ends in the pieces. -/
theorem inOrder_occurrencesFrom (kept : List UInt8) (last line : Nat) (reached : last ≤ kept.length)
    (pieces : List Script.Piece) :
    InOrder (kept ++ (pieces.flatMap Script.Piece.text).flatMap String.utf8EncodeChar) last
      (Script.occurrencesFrom kept.length line pieces) := by
  induction pieces generalizing kept last line with
  | nil => simpa [InOrder, Script.occurrencesFrom] using reached
  | cons piece rest ih =>
    cases piece with
    | plain text =>
      have later := ih (kept ++ text.flatMap String.utf8EncodeChar) last
        (line + Text.lineFeeds text) (by rw [List.length_append]; omega)
      simpa only [Script.occurrencesFrom, List.flatMap_cons, Script.Piece.text,
        List.flatMap_append, List.append_assoc, List.length_append, length_encode] using later
    | site form specifier =>
      have later := ih (kept ++ specifier.flatMap String.utf8EncodeChar) _ line (Nat.le_refl _)
      have here := slice_append kept (specifier.flatMap String.utf8EncodeChar)
        ((rest.flatMap Script.Piece.text).flatMap String.utf8EncodeChar)
      rw [length_encode] at here
      simp only [List.append_assoc, List.length_append, length_encode] at later
      simp only [Script.occurrencesFrom, List.flatMap_cons, Script.Piece.text,
        List.flatMap_append, InOrder, bytes_ofList]
      exact ⟨reached, Nat.le_add_right _ _, here, later⟩

/-! ## The bytes between them -/

/-- One run of the cursor over pieces: `gap` is what was passed since the last exchange. -/
theorem splice_pieces (snapshot : Snapshot) (role : FileRole) (file : Path)
    (kept gap : List UInt8) (line : Nat) (pieces : List Script.Piece) :
    splice (kept ++ (gap ++ (pieces.flatMap Script.Piece.text).flatMap String.utf8EncodeChar))
        kept.length
        ((Script.occurrencesFrom (kept.length + gap.length) line pieces).filterMap fun found =>
          edit? found (snapshot.relinkSpecifier role file found.specifier)) =
      gap ++ (pieces.flatMap (snapshot.relinkPiece role file)).flatMap String.utf8EncodeChar := by
  -- `kept` is copied already, and `gap` is what is left to be copied before the next edit.
  induction pieces generalizing kept gap line with
  | nil => simp [Script.occurrencesFrom, splice]
  | cons piece rest ih =>
    cases piece with
    | plain text =>
      have later := ih kept (gap ++ text.flatMap String.utf8EncodeChar)
        (line + Text.lineFeeds text)
      simpa only [Script.occurrencesFrom, List.flatMap_cons, Script.Piece.text,
        Snapshot.relinkPiece, List.flatMap_append, List.append_assoc, List.length_append,
        length_encode, Nat.add_assoc] using later
    | site form specifier =>
      cases outcome : snapshot.relinkSpecifier role file (String.ofList specifier) with
      | replaced text =>
        have later := ih (kept ++ (gap ++ specifier.flatMap String.utf8EncodeChar)) [] line
        have here := slice_append kept gap (specifier.flatMap String.utf8EncodeChar ++
          (rest.flatMap Script.Piece.text).flatMap String.utf8EncodeChar)
        simp only [List.nil_append, List.length_nil, Nat.add_zero, List.append_assoc,
          List.length_append, length_encode, ← Nat.add_assoc] at later
        simp only [Script.occurrencesFrom, List.flatMap_cons, Script.Piece.text,
          Snapshot.relinkPiece, outcome, Outcome.applyTo, List.flatMap_append,
          List.filterMap_cons, edit?_replaced, splice, here, later, bytes_eq]
      | unchanged =>
        have later := ih kept (gap ++ specifier.flatMap String.utf8EncodeChar) line
        simpa only [Script.occurrencesFrom, List.flatMap_cons, Script.Piece.text,
          Snapshot.relinkPiece, outcome, Outcome.applyTo, edit?_unchanged, List.filterMap_cons,
          List.flatMap_append, List.append_assoc, List.length_append, length_encode,
          Nat.add_assoc] using later
      | reported concern =>
        have later := ih kept (gap ++ specifier.flatMap String.utf8EncodeChar) line
        simpa only [Script.occurrencesFrom, List.flatMap_cons, Script.Piece.text,
          Snapshot.relinkPiece, outcome, Outcome.applyTo, edit?_reported, List.filterMap_cons,
          List.flatMap_append, List.append_assoc, List.length_append, length_encode,
          Nat.add_assoc] using later

/-- Relinking a text exchanges the spans of the specifiers that are replaced and keeps every other
byte. It counts the exchanges, and tells of the specifiers that are reported, in the order of the
text. -/
theorem relinkText_splice (snapshot : Snapshot) (role : FileRole) (file : Path) (text : String) :
    let found := Script.occurrences text
    let outcome := fun occurrence : Script.Occurrence =>
      snapshot.relinkSpecifier role file occurrence.specifier
    let result := snapshot.relinkText role file text
    InOrder (bytes text) 0 found ∧
      bytes result.text = splice (bytes text) 0
        (found.filterMap fun occurrence => edit? occurrence (outcome occurrence)) ∧
      result.replacements =
        (found.filter fun occurrence => (outcome occurrence).isReplaced).length ∧
      result.warnings = found.filterMap fun occurrence =>
        match outcome occurrence with
        | .reported concern => some ⟨file, occurrence.specifier, occurrence.line, concern⟩
        | _ => none := by
  have whole : bytes text =
      ((Script.pieces text.toList).flatMap Script.Piece.text).flatMap String.utf8EncodeChar := by
    rw [bytes_eq, (Script.scan_pieces text.toList).flatMap_text]
  refine ⟨?_, ?_, ?_, ?_⟩
  · rw [whole]
    exact inOrder_occurrencesFrom [] 0 1 (Nat.le_refl _) _
  · rw [whole]
    have run := splice_pieces snapshot role file [] [] 1 (Script.pieces text.toList)
    simp only [List.nil_append, List.length_nil, Nat.add_zero] at run
    rw [Script.occurrences, run, Snapshot.relinkText, bytes_ofList]
  · exact List.countP_map.trans List.countP_eq_length_filter
  · exact List.filterMap_map

end Relink
