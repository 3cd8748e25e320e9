import Relink.Utf8
import Relink.Proofs.Cursor.Bounds
import Relink.Proofs.Cursor.EncodedSite

/-!
# The bytes of a script

The scan of a script can be made byte by byte. It ends, every byte and every cut that it takes lies
in the script, and it finds the specifiers that `occurrences` finds. Each of them stands between
two equal quotes, on boundaries of characters, and each one stands after the one before it.
-/

namespace Relink.Script

/-- The bytes of a script, each read as the character of its value. -/
def units (script : String) : List Char :=
  (bytes script).map Char.ofUInt8

/-- The text between two bytes of a script. The cut fails unless both are boundaries of
characters, in this order. -/
def cutText (script : String) (start stop : Nat) : Option String :=
  if start ≤ stop ∧ String.Pos.Raw.isValid script ⟨start⟩ = true ∧
      String.Pos.Raw.isValid script ⟨stop⟩ = true then
    Utf8.text? ⟨(slice (bytes script) start stop).toArray⟩
  else none

/-- The specifiers of a script, found byte by byte. -/
def scanBytes (script : String) : Option (List Occurrence) :=
  scanFrom (units script) (cutText script) 1 0

/-- A specifier in its place in a script. -/
structure Standing (script : String) (found : Occurrence) : Prop where
  filled : found.start < found.stop
  begins : String.Pos.Raw.IsValid script ⟨found.start⟩
  ends : String.Pos.Raw.IsValid script ⟨found.stop⟩
  specifier_eq : slice (bytes script) found.start found.stop = bytes found.specifier
  isSpecifier : IsSpecifier found.specifier.toList
  /-- The same quote stands before and after the specifier. -/
  quoted : ∃ before quote, found.start = before + 1 ∧ isQuote quote = true ∧
    (units script)[before]? = some quote ∧ (units script)[found.stop]? = some quote

/-! ## Units and bytes -/

/-- The units of a text are the bytes of its characters. -/
theorem encode_eq (text : List Char) :
    encode text = (text.flatMap String.utf8EncodeChar).map Char.ofUInt8 := by
  rw [encode, List.map_flatMap]
  rfl

/-- The units of a script are those of its characters. -/
theorem units_eq (script : String) : units script = encode script.toList := by
  rw [units, bytes_eq, encode_eq]

/-- A text has as many units as it takes bytes. -/
theorem length_encode_eq (text : List Char) : (encode text).length = Text.byteLength text := by
  rw [encode_eq, List.length_map, length_encode]

/-- A text has as many line feeds in its units. -/
theorem lineFeeds_encode (text : List Char) :
    Text.lineFeeds (encode text) = Text.lineFeeds text := by
  induction text with
  | nil => rfl
  | cons character text ih =>
    by_cases wide : IsWide character
    · have units : Text.lineFeeds (encodeCharacter character) = 0 :=
        lineFeeds_of_isWord fun _ member => (isWide_of_mem_encodeCharacter wide member).isWord
      have alone : Text.lineFeeds [character] = 0 :=
        lineFeeds_of_isWord (by simpa using wide.isWord)
      rw [encode_cons, lineFeeds_append, ih, units, ← List.singleton_append, lineFeeds_append,
        alone]
    · rw [encode_cons_ascii wide, Text.lineFeeds, Text.lineFeeds, List.count_cons, List.count_cons]
      exact congrArg (· + _) ih

/-- Where characters end, their number of bytes is a position of the script. -/
theorem isValid_byteLength {script : String} {front rest : List Char}
    (whole : script.toList = front ++ rest) :
    String.Pos.Raw.IsValid script ⟨Text.byteLength front⟩ := by
  refine String.Pos.Raw.isValid_iff_exists_append.2
    ⟨String.ofList front, String.ofList rest, ?_, ?_⟩
  · rw [← String.ofList_append, ← whole, String.ofList_toList]
  · rw [← length_encode, ← bytes_ofList]
    rfl

/-- The bytes between two borders are those of the text between them. -/
theorem slice_byteLength {script : String} {front middle rest : List Char}
    (whole : script.toList = front ++ (middle ++ rest)) :
    slice (bytes script) (Text.byteLength front) (Text.byteLength front + Text.byteLength middle) =
      bytes (String.ofList middle) := by
  rw [bytes_eq, whole, List.flatMap_append, List.flatMap_append, ← length_encode front,
    ← length_encode middle, slice_append, bytes_ofList]

/-- A cut between two borders does not fail, and is the text between them. -/
theorem cutText_eq {script : String} {front middle rest : List Char}
    (whole : script.toList = front ++ (middle ++ rest)) :
    cutText script (Text.byteLength front) (Text.byteLength front + Text.byteLength middle) =
      some (String.ofList middle) := by
  have begins := isValid_byteLength whole
  have ends : String.Pos.Raw.IsValid script ⟨Text.byteLength (front ++ middle)⟩ :=
    isValid_byteLength (by rw [whole, List.append_assoc])
  rw [Text.byteLength_append] at ends
  rw [cutText, if_pos ⟨Nat.le_add_right .., String.Pos.Raw.isValid_eq_true_iff.2 begins,
    String.Pos.Raw.isValid_eq_true_iff.2 ends⟩, slice_byteLength whole, bytes, Array.toArray_toList]
  exact Utf8.text?_toByteArray _

/-! ## The scan of the units -/

/-- The units of a text from its end back. -/
theorem encodeBack_reverse (front : List Char) :
    encodeBack front.reverse = (encode front).reverse := by
  rw [← List.reverse_inj, reverse_encodeBack, List.reverse_reverse, List.reverse_reverse]

/-- The units of a plain piece are passed over: those of a lexeme at once, those of a single
character one by one. -/
theorem Quiet.encoded {before text rest : List Char}
    (noSite : siteAt? before.head? (text ++ rest) = none)
    (measured : (lexemeLength? before (text ++ rest)).getD 1 = text.length) (filled : text ≠ []) :
    Quiet (encode rest) (encodeBack before) (encode text) := by
  have noSite' : siteAt? (encodeBack before).head? (encode text ++ encode rest) = none := by
    have names := siteAt?_encode before (text ++ rest)
    rw [noSite, encode_append] at names
    generalize siteAt? (encodeBack before).head? _ = site at names
    cases names
    rfl
  have lexeme := lexemeLength?_encode before (text ++ rest)
  rw [encode_append] at lexeme
  generalize lexemeLength? before (text ++ rest) = length at lexeme measured
  generalize lexeme_eq : lexemeLength? (encodeBack before) (encode text ++ encode rest) = length'
    at lexeme
  cases lexeme with
  | @upto first second same =>
    obtain ⟨rfl, -⟩ := List.append_inj same measured.symm
    exact .of_part noSite' (by rw [lexeme_eq]; rfl) (encode_eq_nil_iff.not.2 filled)
  | absent =>
    -- The units after the first one are parts of a word, so that no statement begins there.
    obtain ⟨character, rfl⟩ := List.length_eq_one_iff.1 measured.symm
    obtain ⟨unit, units, same, wide, kind⟩ := exists_encodeCharacter character
    rw [encode_cons, encode_nil, List.append_nil, same] at noSite' lexeme_eq ⊢
    rw [← List.singleton_append] at noSite' lexeme_eq ⊢
    rw [List.append_assoc] at noSite' lexeme_eq
    refine .part noSite' (by rw [lexeme_eq]; rfl) (by simp) ?_
    rcases kind with ⟨rfl, -⟩ | ⟨first, -⟩
    · exact .nil
    · refine .word _ _ (fun _ member => (wide _ member).isWord) fun begins => ?_
      have := (begins unit rfl).1
      rw [first.isWord] at this
      cases this

/-- The scan of a text and the scan of its units find the same specifiers. -/
theorem Scan.exists_encode {script : String} {front text : List Char} {found : List Piece}
    (scan : Scan front.reverse text found) (whole : script.toList = front ++ text) :
    ∃ found', Scan (encode front).reverse (encode text) found' ∧ ∀ line,
      collect (cutText script) (Text.byteLength front) line found' =
        some (occurrencesFrom (Text.byteLength front) line found) := by
  -- The front is generalized for the induction, so that spans are told from the start of the
  -- script.
  generalize before_eq : front.reverse = before at scan
  induction scan generalizing front with
  | done => exact ⟨[], .done, fun _ => rfl⟩
  | @plain before text rest found noSite measured filled _ ih =>
    subst before_eq
    obtain ⟨found', later, finds⟩ := @ih (front ++ text) (by rw [whole, List.append_assoc])
      List.reverse_append
    obtain ⟨parts, same, scans⟩ := (Quiet.encoded noSite measured filled).scan
    rw [encodeBack_reverse, ← List.reverse_append, ← encode_append] at scans
    refine ⟨_, by rw [encode_append]; exact scans found' later, fun line => ?_⟩
    rw [collect_plain, same, length_encode_eq, ← Text.byteLength_append, finds, lineFeeds_encode,
      occurrencesFrom, Text.byteLength_append]
  | @site before lead specifier rest quote form found here _ ih =>
    subst before_eq
    obtain ⟨-, -, -, -, -, isSpecifier⟩ := exists_opening_of_site here
    have names := siteAt?_encode front.reverse (lead ++ (specifier ++ quote :: rest))
    generalize here_eq : siteAt? front.reverse.head? _ = site at names here
    generalize here_eq' : siteAt? (encodeBack front.reverse).head? _ = site' at names
    cases names with
    | absent => cases here
    | @found lead' specifier' rest' quote' form' same quoted =>
      simp only [Option.some.injEq, Site.mk.injEq] at here
      obtain ⟨rfl, length, rfl⟩ := here
      obtain ⟨rfl, ends⟩ := List.append_inj same length.symm
      obtain ⟨rfl, -⟩ := List.cons.inj (List.append_cancel_left ends)
      have narrow := narrow_of_isQuote quoted
      obtain ⟨found', later, finds⟩ := @ih (front ++ (lead ++ (specifier' ++ [quote])))
        (by simp [whole]) (by simp)
      have cut := cutText_eq (by rw [whole, List.append_assoc] :
        script.toList = (front ++ lead) ++ (specifier' ++ quote :: rest))
      have alone : encode [quote] = [quote] := encode_singleton narrow
      have shape : encode (lead ++ (specifier' ++ quote :: rest)) =
          encode lead ++ (encode specifier' ++ quote :: encode rest) := by
        rw [encode_append, encode_append, encode_cons_ascii narrow]
      have behind : (encode (front ++ (lead ++ (specifier' ++ [quote])))).reverse =
          quote :: ((encode specifier').reverse ++
            ((encode lead).reverse ++ (encode front).reverse)) := by
        rw [encode_append, encode_append, encode_append, alone]
        simp
      have size := byteLength_quote quoted
      rw [encodeBack_reverse, shape] at here_eq'
      rw [behind] at later
      refine ⟨_, by rw [shape]; exact .site here_eq' later, fun line => ?_⟩
      simp only [Text.byteLength_append, size, ← Nat.add_assoc] at finds cut
      simp only [collect, occurrencesFrom, length_encode_eq, lineFeeds_encode, cut, size, finds,
        List.length_singleton]
      rfl

/-- The scan of the bytes of a script finds its specifiers. -/
theorem scanBytes_eq (script : String) : scanBytes script = some (occurrences script) := by
  obtain ⟨found, scan, finds⟩ := @Scan.exists_encode script [] _ _ (scan_pieces script.toList) rfl
  have start : Reads (units script) 0 (units script) := ⟨Nat.zero_le _, rfl⟩
  rw [scanBytes, Scan.scanFrom_eq (by simpa [units_eq] using scan) start]
  exact finds 1

/-! ## Where the specifiers stand -/

/-- Behind a part of a script the units of the rest are read. -/
theorem reads_units {script : String} {front rest : List Char}
    (whole : script.toList = front ++ rest) :
    Reads (units script) (Text.byteLength front) (encode rest) := by
  have start : Reads (units script) 0 (encode front ++ encode rest) :=
    ⟨Nat.zero_le _, by rw [List.drop_zero, units_eq, whole, encode_append]⟩
  rw [← length_encode_eq, ← Nat.zero_add (encode front).length]
  exact start.skip

/-- A narrow character is the unit at the byte where it stands. -/
theorem getElem?_units {script : String} {front rest : List Char} {character : Char}
    (whole : script.toList = front ++ character :: rest) (narrow : ¬IsWide character) :
    (units script)[Text.byteLength front]? = some character := by
  have reads := reads_units whole
  rw [encode_cons_ascii narrow] at reads
  exact reads.unit_eq

/-- A specifier between two quotes stands at the bytes where it was split off. -/
theorem Standing.of_split {script : String} {front specifier rest : List Char} {quote : Char}
    (whole : script.toList = front ++ quote :: (specifier ++ quote :: rest))
    (quoted : isQuote quote = true) (isSpecifier : IsSpecifier specifier) (form : Form)
    (line : Nat) :
    let start := Text.byteLength (front ++ [quote])
    let stop := start + Text.byteLength specifier
    Standing script ⟨String.ofList specifier, start, stop, form, line⟩ := by
  have narrow := narrow_of_isQuote quoted
  have inside : script.toList = (front ++ [quote]) ++ (specifier ++ quote :: rest) := by
    simp [whole]
  have behind : script.toList = (front ++ [quote] ++ specifier) ++ quote :: rest := by
    simp [whole]
  have size : Text.byteLength (front ++ [quote]) = Text.byteLength front + 1 := by
    rw [Text.byteLength_append, byteLength_quote quoted]
  have closing := getElem?_units behind narrow
  have ends := isValid_byteLength behind
  rw [Text.byteLength_append _ specifier] at closing ends
  constructor
  · exact Nat.lt_add_of_pos_right (byteLength_pos isSpecifier.ne_nil)
  · exact isValid_byteLength inside
  · exact ends
  · exact slice_byteLength inside
  · rwa [String.toList_ofList]
  · exact ⟨_, quote, size, quoted, getElem?_units whole narrow, closing⟩

/-- Every specifier that a scan finds stands where it is said to. -/
theorem Scan.standing {script : String} {front text : List Char} {found : List Piece}
    (scan : Scan front.reverse text found) (whole : script.toList = front ++ text) (line : Nat) :
    let found := occurrencesFrom (Text.byteLength front) line found
    found.Pairwise (fun earlier later => earlier.stop < later.start) ∧
      ∀ occurrence ∈ found,
        Text.byteLength front < occurrence.start ∧ Standing script occurrence := by
  generalize before_eq : front.reverse = before at scan
  induction scan generalizing front line with
  | done => exact ⟨.nil, nofun⟩
  | @plain before text rest found noSite measured filled _ ih =>
    subst before_eq
    obtain ⟨apart, stand⟩ := @ih (front ++ text) (by rw [whole, List.append_assoc])
      (line + Text.lineFeeds text) List.reverse_append
    rw [Text.byteLength_append] at apart stand
    refine ⟨apart, fun occurrence member => ?_⟩
    obtain ⟨after, standing⟩ := stand occurrence member
    exact ⟨by omega, standing⟩
  | @site before lead specifier rest quote form found here _ ih =>
    subst before_eq
    obtain ⟨opening, rfl, -, -, quoted, isSpecifier⟩ := exists_opening_of_site here
    obtain ⟨apart, stand⟩ := @ih (front ++ (opening ++ [quote] ++ (specifier ++ [quote])))
      (by simp [whole]) (line + Text.lineFeeds (opening ++ [quote]) + Text.lineFeeds [quote])
      (by simp)
    have split : script.toList = (front ++ opening) ++ quote :: (specifier ++ quote :: rest) := by
      simp [whole]
    have first := Standing.of_split split quoted isSpecifier form
      (line + Text.lineFeeds (opening ++ [quote]))
    have leads := byteLength_pos (by simp : opening ++ [quote] ≠ [])
    have closes := byteLength_pos (by simp : [quote] ≠ [])
    simp only [occurrencesFrom]
    simp only [Text.byteLength_append, ← Nat.add_assoc] at apart stand first leads ⊢
    refine ⟨List.pairwise_cons.2 ⟨fun later member => ?_, apart⟩, fun occurrence member => ?_⟩
    · have := (stand later member).1
      simp only
      omega
    · rcases List.mem_cons.1 member with rfl | later
      · exact ⟨by simp only; omega, first⟩
      · obtain ⟨after, standing⟩ := stand occurrence later
        exact ⟨by omega, standing⟩

/-! ## The scan as a whole -/

/-- The scan of the bytes of a script ends, takes no byte and no cut outside of it, and finds its
specifiers. No function that it calls moves back or past the end, and each comment, literal and
statement that it passes over takes it forward. The specifiers stand one after the other, each in
its own quotes and on boundaries of characters. -/
theorem scanBytes_standing (script : String) :
    Confined (units script) ∧ scanBytes script = some (occurrences script) ∧
      (occurrences script).Pairwise (fun earlier later => earlier.stop < later.start) ∧
      ∀ found ∈ occurrences script, Standing script found := by
  obtain ⟨apart, stand⟩ := @Scan.standing script [] _ _ (scan_pieces script.toList) rfl 1
  exact ⟨confined _, scanBytes_eq script, apart, fun found member => (stand found member).2⟩

end Relink.Script
