import Relink.Manifest
import Relink.Proofs.Script.Rendering

/-!
# Data names no module

A text that is JSON has no statement in it: outside its strings stand only words, numbers and
punctuation, and none of its words begins a statement. So the scan of a manifest finds nothing.
-/

namespace Relink.Script

/-- The characters of data outside its strings, as far as the scan tells them apart: none begins a
comment or a literal, and the words that begin statements cannot be made of them. -/
def isInert (character : Char) : Bool :=
  !isMark character && character != 'i' && character != 'x' && character != 'q'

/-- A text of inert characters and quoted strings. -/
inductive Inert : List Char -> Prop where
  | nil : Inert []
  | character {character : Char} {rest : List Char} (plain : isInert character = true)
      (later : Inert rest) : Inert (character :: rest)
  | string {body rest : List Char} (isBody : StringBody '"' body) (later : Inert rest) :
      Inert ('"' :: (body ++ '"' :: rest))

/-- Where a text begins with a word, the word is inert too. -/
theorem Inert.of_prefix {word text : List Char} (inert : Inert text) (begins : word <+: text)
    (unquoted : '"' ∉ word) : ∀ character ∈ word, isInert character = true := by
  induction inert generalizing word with
  | nil =>
    rw [List.prefix_nil.1 begins]
    simp
  | @character character rest plain _ ih =>
    cases word with
    | nil => simp
    | cons first word =>
      obtain ⟨rfl, continues⟩ := List.cons_prefix_cons.1 begins
      exact List.forall_mem_cons.2 ⟨plain, ih continues fun inside => unquoted (by simp [inside])⟩
  | string _ _ =>
    cases word with
    | nil => simp
    | cons first word =>
      obtain ⟨rfl, -⟩ := List.cons_prefix_cons.1 begins
      exact absurd (List.mem_cons_self ..) unquoted

/-- No statement begins an inert text. -/
theorem Inert.siteAt? {text : List Char} (inert : Inert text) (previous : Option Char) :
    siteAt? previous text = none := by
  have absent {word : List Char} (unquoted : '"' ∉ word)
      (foreign : word.all isInert = false) :
      beginsWithWord previous word text = false := by
    by_contra begins
    rw [Bool.not_eq_false, beginsWithWord, Bool.and_eq_true, Bool.and_eq_true,
      List.isPrefixOf_iff_prefix] at begins
    have all := List.all_eq_true.2 (inert.of_prefix begins.1.1 unquoted)
    rw [foreign] at all
    cases all
  rw [Script.siteAt?, absent (by decide) (by decide), absent (by decide) (by decide),
    absent (by decide) (by decide)]
  rfl

/-- The scan finds nothing in an inert text. -/
theorem Inert.quiet {text : List Char} (inert : Inert text) (before : List Char) :
    Quiet [] before text := by
  induction inert generalizing before with
  | nil => exact .nil
  | @character character rest plain later ih =>
    have noSite := (Inert.character plain later).siteAt? before.head?
    have noMark : isMark character = false := by
      simp only [isInert, Bool.and_eq_true, Bool.not_eq_true'] at plain
      exact plain.1.1.1
    change Quiet [] before ([character] ++ rest)
    refine .part ?_ ?_ (by simp) (ih _)
    · rwa [List.append_nil]
    · rw [List.singleton_append, lexemeLength?_plain _ _ noMark]
      rfl
  | @string body rest isBody _ ih =>
    have quiet := (Quiet.string before (rest ++ []) (by decide : isQuote '"' = true) isBody).append
      (ih _)
    simpa using quiet

/-- An inert text is one plain text. -/
theorem Inert.pieces {text : List Char} (inert : Inert text) :
    ∃ parts : List (List Char), pieces text = parts.map Piece.plain := by
  obtain ⟨parts, -, scans⟩ := (inert.quiet []).scan
  have scan := scans [] .done
  rw [List.append_nil, List.append_nil] at scan
  exact ⟨parts, scan.pieces_eq⟩

/-! ## Reading data -/

/-- The rest of a text that is read inside a string: the string closes. -/
def Closes (rest : List Char) : Prop :=
  ∃ body later, rest = body ++ '"' :: later ∧ StringBody '"' body ∧ Inert later

/-- A character that neither ends a string nor escapes anything leaves it to be closed. -/
theorem Closes.cons {character : Char} {rest : List Char} (closes : Closes rest)
    (noEscape : character ≠ '\\') (noFeed : character ≠ '\n') (other : character ≠ '"') :
    Closes (character :: rest) := by
  obtain ⟨body, later, rfl, isBody, inert⟩ := closes
  exact ⟨character :: body, later, rfl, .plain noEscape noFeed other isBody, inert⟩

/-- An escaped character leaves a string to be closed. -/
theorem Closes.escape {rest : List Char} (character : Char) (closes : Closes rest) :
    Closes ('\\' :: character :: rest) := by
  obtain ⟨body, later, rfl, isBody, inert⟩ := closes
  exact ⟨'\\' :: character :: body, later, rfl, .escape character isBody, inert⟩

/-- What the rest of a text is like when the machine reads it to the end. -/
def Readable : Json.Reading -> List Char -> Prop
  | .gap, rest => Inert rest
  | .word read, rest => (∀ character ∈ read, isInert character = true) ∧ Inert rest
  | .number _, rest => Inert rest
  | .string _ .letter, rest => ∃ character later, rest = character :: later ∧ Closes later
  | .string _ (.secondLetter _), rest =>
    ∃ character later, rest = character :: later ∧ Closes later
  | .string _ _, rest => Closes rest

/-- The letters of a word are inert. -/
theorem isInert_of_wordToken? {word : List Char} {token : Json.Token}
    (found : Json.Lexer.wordToken? word = some token) :
    ∀ character ∈ word, isInert character = true := by
  rw [← List.all_eq_true]
  unfold Json.Lexer.wordToken? at found
  split at found
  · rename_i same
    rw [same]
    rfl
  · split at found
    · rename_i same
      rw [same]
      rfl
    · split at found
      · rename_i same
        rw [same]
        rfl
      · cases found

/-- What begins no literal, no comment and no keyword is inert. -/
theorem isInert_of_ne {character : Char}
    (other : ∀ foreign ∈ ['/', '\'', '"', '\x60', 'i', 'x', 'q'], character ≠ foreign) :
    isInert character = true := by
  simp only [List.mem_cons, List.not_mem_nil, or_false, forall_eq_or_imp, forall_eq] at other
  simp [isInert, isMark, isQuote, other]

/-- Gaps are inert. -/
theorem isInert_of_isGap {character : Char} (isGap : Json.Lexer.isGap character = true) :
    isInert character = true := by
  apply isInert_of_ne
  intro foreign member
  rintro rfl
  simp only [List.mem_cons, List.not_mem_nil, or_false] at member
  rcases member with rfl | rfl | rfl | rfl | rfl | rfl | rfl <;> cases isGap

/-- The characters of numbers are inert. -/
theorem isInert_of_isNumberCharacter {character : Char}
    (isNumber : Json.Lexer.isNumberCharacter character = true) : isInert character = true := by
  apply isInert_of_ne
  intro foreign member
  rintro rfl
  simp only [List.mem_cons, List.not_mem_nil, or_false] at member
  rcases member with rfl | rfl | rfl | rfl | rfl | rfl | rfl <;> cases isNumber

/-- Punctuation marks are inert. -/
theorem isInert_of_punctuation? {character : Char} {token : Json.Token}
    (found : Json.Lexer.punctuation? character = some token) : isInert character = true := by
  apply isInert_of_ne
  intro foreign member
  rintro rfl
  simp only [List.mem_cons, List.not_mem_nil, or_false] at member
  rcases member with rfl | rfl | rfl | rfl | rfl | rfl | rfl <;> cases found

/-- A character that begins a token, or stands before one. -/
theorem inert_of_beginToken {tokens : List Json.Token} {character : Char} {rest : List Char}
    {lexer : Json.Lexer} (begun : Json.Lexer.beginToken tokens character = some lexer)
    (readable : Readable lexer.reading rest) : Inert (character :: rest) := by
  unfold Json.Lexer.beginToken at begun
  split at begun
  · rename_i isGap
    obtain rfl := Option.some.inj begun
    exact .character (isInert_of_isGap isGap) readable
  split at begun
  · rename_i opens
    obtain rfl := Option.some.inj begun
    obtain ⟨body, later, rfl, isBody, inert⟩ := readable
    rw [opens]
    exact .string isBody inert
  split at begun
  · rename_i first
    obtain rfl := Option.some.inj begun
    refine .character (isInert_of_isNumberCharacter ?_) readable
    rw [Bool.or_eq_true, decide_eq_true_iff] at first
    rcases first with isDigit | rfl
    · simp [Json.Lexer.isNumberCharacter, isDigit]
    · rfl
  split at begun
  · obtain rfl := Option.some.inj begun
    exact .character (readable.1 character (List.mem_singleton.2 rfl)) readable.2
  · obtain ⟨token, found, rfl⟩ := Option.map_eq_some_iff.1 begun
    exact .character (isInert_of_punctuation? found) readable

/-- A hexadecimal digit neither closes a string nor begins an escape. -/
theorem ne_of_hexValue? {character : Char} {digit : Nat}
    (found : Json.Lexer.hexValue? character = some digit) :
    character ≠ '\\' ∧ character ≠ '\n' ∧ character ≠ '"' := by
  refine ⟨?_, ?_, ?_⟩ <;> (rintro rfl; cases found)

/-- Behind an escape that is read to its end, the string is closed if what is read behind it closes
it. -/
theorem closes_of_endHex {read : List Char} {unit : Nat} {high : Option Nat}
    {reading : Json.Reading} {rest : List Char}
    (ends : Json.Lexer.endHex read unit high = some reading) (readable : Readable reading rest) :
    Closes rest := by
  cases high with
  | some high =>
    rw [Json.Lexer.endHex] at ends
    split at ends
    · obtain rfl := Option.some.inj ends
      exact readable
    · cases ends
  | none =>
    rw [Json.Lexer.endHex] at ends
    split at ends
    · obtain rfl := Option.some.inj ends
      exact readable
    · split at ends
      · cases ends
      · obtain rfl := Option.some.inj ends
        exact readable

/-- What is left after a character inside a string was readable with that character. -/
theorem readable_of_readString {tokens : List Json.Token} {read : List Char} {character : Char}
    {escape : Json.Escape} {lexer : Json.Lexer} {rest : List Char}
    (stepped : Json.Lexer.readString tokens read character escape = some lexer)
    (readable : Readable lexer.reading rest) :
    Readable (.string read escape) (character :: rest) := by
  -- One case for each state of an escape, and in it one for each branch of `readString`.
  cases escape with
  | none =>
    rw [Json.Lexer.readString] at stepped
    split at stepped
    · rename_i closes
      obtain rfl := Option.some.inj stepped
      exact ⟨[], rest, by rw [closes]; rfl, .nil, readable⟩
    split at stepped
    · rename_i escapes
      obtain rfl := Option.some.inj stepped
      obtain ⟨next, later, rfl, closes⟩ := readable
      rw [escapes]
      exact closes.escape next
    split at stepped
    · cases stepped
    · rename_i other noEscape visible
      obtain rfl := Option.some.inj stepped
      refine Closes.cons readable noEscape ?_ other
      rintro rfl
      exact visible (by decide)
  | letter =>
    refine ⟨character, rest, rfl, ?_⟩
    rw [Json.Lexer.readString] at stepped
    split at stepped
    · obtain rfl := Option.some.inj stepped
      exact readable
    · obtain ⟨meant, -, rfl⟩ := Option.map_eq_some_iff.1 stepped
      exact readable
  | hex missing value high =>
    obtain ⟨digit, found, stepped⟩ := Option.bind_eq_some_iff.1 stepped
    obtain ⟨noEscape, noFeed, other⟩ := ne_of_hexValue? found
    refine Closes.cons ?_ noEscape noFeed other
    split at stepped
    · obtain ⟨reading, ends, rfl⟩ := Option.map_eq_some_iff.1 stepped
      exact closes_of_endHex ends readable
    · obtain rfl := Option.some.inj stepped
      exact readable
  | secondBackslash high =>
    rw [Json.Lexer.readString] at stepped
    split at stepped
    · rename_i escapes
      obtain rfl := Option.some.inj stepped
      obtain ⟨next, later, rfl, closes⟩ := readable
      rw [escapes]
      exact closes.escape next
    · cases stepped
  | secondLetter high =>
    refine ⟨character, rest, rfl, ?_⟩
    rw [Json.Lexer.readString] at stepped
    split at stepped
    · obtain rfl := Option.some.inj stepped
      exact readable
    · cases stepped

/-- A text is readable when what follows its first character is, after that character was read. -/
theorem readable_of_step {lexer next : Json.Lexer} {character : Char} {rest : List Char}
    (stepped : lexer.step character = some next) (readable : Readable next.reading rest) :
    Readable lexer.reading (character :: rest) := by
  obtain ⟨tokens, reading⟩ := lexer
  cases reading with
  | gap => exact inert_of_beginToken stepped readable
  | word read =>
    rw [Json.Lexer.step] at stepped
    dsimp only at stepped ⊢
    split at stepped
    · obtain rfl := Option.some.inj stepped
      obtain ⟨inert, later⟩ := readable
      exact ⟨fun other member => inert other (List.mem_cons_of_mem _ member),
        .character (inert character (List.mem_cons_self ..)) later⟩
    · obtain ⟨token, found, begun⟩ := Option.bind_eq_some_iff.1 stepped
      refine ⟨fun other member => ?_, inert_of_beginToken begun readable⟩
      exact isInert_of_wordToken? found other (List.mem_reverse.2 member)
  | number read =>
    rw [Json.Lexer.step] at stepped
    dsimp only at stepped ⊢
    split at stepped
    · rename_i continues
      obtain rfl := Option.some.inj stepped
      exact .character (isInert_of_isNumberCharacter continues) readable
    · obtain ⟨token, -, begun⟩ := Option.bind_eq_some_iff.1 stepped
      exact inert_of_beginToken begun readable
  | string read escape => exact readable_of_readString stepped readable

/-- A text that the machine reads to its end is readable. -/
theorem readable_of_foldlM {lexer last : Json.Lexer} {tokens : List Json.Token} {text : List Char}
    (read : text.foldlM Json.Lexer.step lexer = some last) (done : last.finish = some tokens) :
    Readable lexer.reading text := by
  induction text generalizing lexer with
  | nil =>
    obtain rfl := Option.some.inj read
    obtain ⟨found, reading⟩ := lexer
    cases reading with
    | gap => exact .nil
    | word word =>
      obtain ⟨token, found, -⟩ := Option.map_eq_some_iff.1 done
      refine ⟨fun other member => ?_, .nil⟩
      exact isInert_of_wordToken? found other (List.mem_reverse.2 member)
    | number literal => exact .nil
    | string read escape => cases done
  | cons character rest ih =>
    rw [List.foldlM_cons] at read
    obtain ⟨next, stepped, later⟩ := Option.bind_eq_some_iff.1 read
    exact readable_of_step stepped (ih later)

/-- The scan of a manifest finds only plain text. -/
theorem pieces_of_parse {text : String} {manifest : Manifest}
    (parsed : Manifest.parse text = .ok manifest) :
    ∃ parts : List (List Char), pieces text.toList = parts.map Piece.plain := by
  unfold Manifest.parse at parsed
  split at parsed
  · cases parsed
  · rename_i value read
    obtain ⟨tokens, lexed, -⟩ := Option.bind_eq_some_iff.1 read
    obtain ⟨last, folded, done⟩ := Option.bind_eq_some_iff.1 lexed
    exact Inert.pieces (readable_of_foldlM folded done)

end Relink.Script
