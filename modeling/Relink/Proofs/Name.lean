import Mathlib.Data.String.Basic
import Relink.Name
import Relink.Utf8

/-!
# Names and texts

Any bytes are written as a name, which has these bytes, and is Unicode exactly if they are those of
a text. A text without null characters is a name as it stands. Any text is written as a name that is
Unicode, and is shown for it again. So what is shown for a name can be read as a path again, unless
the name has stray bytes: then something else is named.
-/

namespace Relink.Name

/-! ## Written names -/

/-- Whether a text is a name as it stands. -/
def IsPlain (text : String) : Prop :=
  mark ∉ text.toList

instance (text : String) : Decidable (IsPlain text) :=
  inferInstanceAs (Decidable (_ ∉ _))

/-- Whether a character of a name stands for itself, wherever it stands. -/
def IsClear (char : Char) : Prop :=
  char ≠ mark ∧ isStray char = false

instance (char : Char) : Decidable (IsClear char) :=
  inferInstanceAs (Decidable (_ ∧ _))

/-- What is written before and after a clear character are names by themselves. -/
theorem atomsFrom_append_cons (marked : Bool) (before : List Char) {char : Char}
    (isClear : IsClear char) (after : List Char) :
    atomsFrom marked (before ++ char :: after) =
      atomsFrom marked before ++ .character char :: atomsFrom false after := by
  induction before generalizing marked with
  | nil =>
    cases marked <;> simp [atomsFrom, isClear.1, isClear.2]
  | cons first before ih =>
    by_cases isMark : first = mark
    · cases marked <;> simp [atomsFrom, isMark, ih]
    · cases marked
      · simp [atomsFrom, isMark, ih]
      · cases stray : isStray first <;> simp [atomsFrom, isMark, stray, ih]

/-- A clear character parts the atoms of a name into those before and those after it. -/
theorem atoms_append_cons (before : String) {char : Char} (isClear : IsClear char)
    (after : String) {rest : String} (shape : rest.toList = char :: after.toList) :
    atoms (before ++ rest) = atoms before ++ .character char :: atoms after := by
  rw [atoms, String.toList_append, shape, atomsFrom_append_cons _ _ isClear]
  rfl

/-- A plain text is made of its characters. -/
theorem atomsFrom_plain {chars : List Char} (plain : mark ∉ chars) :
    atomsFrom false chars = chars.map .character := by
  induction chars with
  | nil => rfl
  | cons char chars ih =>
    rw [List.mem_cons, not_or] at plain
    simp [atomsFrom, Ne.symm plain.1, ih plain.2]

namespace IsPlain

variable {name : String}

theorem atoms (plain : IsPlain name) : atoms name = name.toList.map .character :=
  atomsFrom_plain plain

theorem isUnicode (plain : IsPlain name) : isUnicode name = true := by
  rw [Name.isUnicode, plain.atoms, List.all_map]
  exact List.all_eq_true.2 fun _ _ => rfl

theorem bytes (plain : IsPlain name) :
    bytes name = name.toList.flatMap String.utf8EncodeChar := by
  rw [Name.bytes, plain.atoms, List.flatMap_map]
  rfl

theorem isHiddenName_iff (plain : IsPlain name) :
    isHiddenName name = (name.toList.head? == some '.') := by
  rw [isHiddenName, plain.isUnicode, Bool.true_and]

end IsPlain

/-- A name with a clear character in it is Unicode if what is before and after is. -/
theorem isUnicode_append_cons (before : String) {char : Char} (isClear : IsClear char)
    (after : String) {rest : String} (shape : rest.toList = char :: after.toList) :
    isUnicode (before ++ rest) = (isUnicode before && isUnicode after) := by
  rw [isUnicode, atoms_append_cons before isClear after shape, List.all_append, List.all_cons]
  rfl

theorem size_append_cons (before : String) {char : Char} (isClear : IsClear char)
    (after : String) {rest : String} (shape : rest.toList = char :: after.toList) :
    size (before ++ rest) = size before + char.utf8Size + size after := by
  rw [size, bytes, atoms_append_cons before isClear after shape, List.flatMap_append,
    List.flatMap_cons, List.length_append, List.length_append, Atom.bytes,
    String.length_utf8EncodeChar, ← Nat.add_assoc]
  rfl

/-- A slash between two names takes one byte. -/
theorem size_append_slash (before after : String) :
    size (before ++ "/" ++ after) = size before + 1 + size after := by
  rw [String.append_assoc]
  exact size_append_cons before (by decide : IsClear '/') after String.toList_append

/-- A dot between two names takes one byte. -/
theorem size_append_point (before after : String) :
    size (before ++ "." ++ after) = size before + 1 + size after := by
  rw [String.append_assoc]
  exact size_append_cons before (by decide : IsClear '.') after String.toList_append

/-- A name with an extension is Unicode if both of its parts are. -/
theorem isUnicode_append_point (before after : String) :
    isUnicode (before ++ "." ++ after) = (isUnicode before && isUnicode after) := by
  rw [String.append_assoc]
  exact isUnicode_append_cons before (by decide : IsClear '.') after String.toList_append

/-! ## Texts as names -/

/-- Texts are read as names part by part. -/
theorem ofText_append (first second : String) :
    ofText (first ++ second) = ofText first ++ ofText second := by
  rw [ofText, String.toList_append, List.flatMap_append, String.ofList_append]
  rfl

theorem toList_ofText (text : String) :
    (ofText text).toList = text.toList.flatMap fun char => (Atom.character char).written :=
  String.toList_ofList

/-- A text and its name begin with the same character. -/
theorem head?_ofText (text : String) : (ofText text).toList.head? = text.toList.head? := by
  rw [toList_ofText]
  cases text.toList with
  | nil => rfl
  | cons char chars =>
    rw [List.flatMap_cons, Atom.written]
    split
    · rename_i isMark
      rw [isMark]
      rfl
    · rfl

/-- Nothing but null characters is put beside a character that is written. -/
theorem eq_of_mem_written {char other : Char} (member : other ∈ (Atom.character char).written)
    (clear : other ≠ mark) : other = char := by
  rw [Atom.written] at member
  split at member
  · simp only [List.mem_cons, List.not_mem_nil, or_false, or_self] at member
    exact absurd member clear
  · exact List.mem_singleton.1 member

/-- A name has a slash exactly if its text does. -/
theorem slash_mem_ofText_iff {text : String} : '/' ∈ (ofText text).toList ↔ '/' ∈ text.toList := by
  rw [toList_ofText, List.mem_flatMap]
  constructor
  · rintro ⟨char, inside, written⟩
    exact eq_of_mem_written written (by decide) ▸ inside
  · exact fun inside => ⟨'/', inside, by decide⟩

theorem flatMap_written_plain {chars : List Char} (plain : mark ∉ chars) :
    (chars.flatMap fun char => (Atom.character char).written) = chars := by
  induction chars with
  | nil => rfl
  | cons char chars ih =>
    rw [List.mem_cons, not_or] at plain
    rw [List.flatMap_cons, ih plain.2, Atom.written, if_neg (Ne.symm plain.1)]
    rfl

/-- A plain text is read as the name that it is. -/
theorem IsPlain.ofText {text : String} (plain : IsPlain text) : ofText text = text := by
  rw [Name.ofText, flatMap_written_plain plain, String.ofList_toList]

/-- Whether a stray byte is one that can be. -/
def Atom.IsPossible : Atom -> Prop
  | .character _ => True
  | .stray byte => 0x80 ≤ byte

/-- The character of a byte from `0x80` on is stray, and tells the byte. -/
theorem isStray_ofNat : ∀ byte : Fin 0x100, 0x80 ≤ byte.val ->
    Char.ofNat byte ≠ mark ∧ isStray (Char.ofNat byte) = true ∧
      UInt8.ofNat (Char.ofNat byte).toNat = UInt8.ofNat byte := by
  decide +kernel

/-- What is written for atoms is read as them. -/
theorem atomsFrom_flatMap_written {atoms : List Atom}
    (possible : ∀ atom ∈ atoms, atom.IsPossible) :
    atomsFrom false (atoms.flatMap Atom.written) = atoms := by
  induction atoms with
  | nil => rfl
  | cons atom atoms ih =>
    obtain ⟨here, later⟩ := List.forall_mem_cons.1 possible
    rw [List.flatMap_cons]
    cases atom with
    | character char =>
      by_cases isMark : char = mark <;> simp [Atom.written, atomsFrom, isMark, ih later]
    | stray byte =>
      obtain ⟨apart, stray, same⟩ := isStray_ofNat ⟨byte.toNat, byte.toNat_lt⟩
        (UInt8.le_iff_toNat_le.1 here)
      simp only at apart stray same
      rw [UInt8.ofNat_toNat] at same
      simp [Atom.written, atomsFrom, apart, stray, same, ih later]

/-- The name that a text is read as is made of its characters. -/
theorem atoms_ofText (text : String) : atoms (ofText text) = text.toList.map .character := by
  rw [atoms, toList_ofText, ← List.flatMap_map, atomsFrom_flatMap_written]
  exact List.forall_mem_map.2 fun _ _ => trivial

/-- A text is read as a Unicode name. -/
theorem isUnicode_ofText (text : String) : isUnicode (ofText text) = true := by
  rw [isUnicode, atoms_ofText, List.all_map]
  exact List.all_eq_true.2 fun _ _ => rfl

theorem shownFrom_characters (before : List UInt8) (chars : List Char) :
    shownFrom before (chars.map .character) = chars := by
  induction chars generalizing before with
  | nil => rfl
  | cons char chars ih => rw [List.map_cons, shownFrom, ih]

/-- A text is shown for itself. -/
theorem shown_ofText (text : String) : shown (ofText text) = text := by
  rw [shown, atoms_ofText, shownFrom_characters, String.ofList_toList]

/-- Different texts are read as different names. -/
theorem ofText_injective {first second : String} (same : ofText first = ofText second) :
    first = second := by
  rw [← shown_ofText first, same, shown_ofText]

theorem IsPlain.shown {name : String} (plain : IsPlain name) : shown name = name := by
  have same := shown_ofText name
  rwa [plain.ofText] at same

/-- A Unicode name is written for what it is shown as. -/
theorem written_of_isUnicode {chars : List Char} (marked : Bool)
    (isUnicode : (atomsFrom marked chars).all Atom.isCharacter = true) :
    (atomsFrom marked chars).flatMap Atom.written = (if marked then [mark] else []) ++ chars := by
  induction chars generalizing marked with
  | nil =>
    cases marked
    · rfl
    · cases isUnicode
  | cons char chars ih =>
    rw [atomsFrom] at isUnicode ⊢
    cases marked
    · rw [if_neg (by decide)] at isUnicode ⊢
      by_cases isMark : char = mark
      · rw [if_pos isMark] at isUnicode ⊢
        rw [ih true isUnicode, isMark]
        rfl
      · rw [if_neg isMark] at isUnicode ⊢
        rw [List.all_cons, Bool.and_eq_true] at isUnicode
        rw [List.flatMap_cons, ih false isUnicode.2, Atom.written, if_neg isMark]
        rfl
    · rw [if_pos rfl] at isUnicode ⊢
      by_cases isMark : char = mark
      · rw [if_pos isMark] at isUnicode ⊢
        rw [List.all_cons, Bool.and_eq_true] at isUnicode
        rw [List.flatMap_cons, ih false isUnicode.2, Atom.written, if_pos rfl, isMark]
        rfl
      · rw [if_neg isMark] at isUnicode
        split at isUnicode <;> cases isUnicode

/-- Atoms without a stray byte are those of characters. -/
theorem exists_characters {atoms : List Atom} (all : atoms.all Atom.isCharacter = true) :
    ∃ chars : List Char, atoms = chars.map .character := by
  induction atoms with
  | nil => exact ⟨[], rfl⟩
  | cons atom atoms ih =>
    rw [List.all_cons, Bool.and_eq_true] at all
    obtain ⟨chars, rfl⟩ := ih all.2
    cases atom with
    | character char => exact ⟨char :: chars, rfl⟩
    | stray byte => cases all.1

/-- A Unicode name is the one that the text which is shown for it is read as. -/
theorem ofText_shown {name : String} (isUnicode : isUnicode name = true) :
    ofText (shown name) = name := by
  have written := written_of_isUnicode false isUnicode
  obtain ⟨chars, made⟩ := exists_characters isUnicode
  rw [atoms] at made
  rw [made, List.flatMap_map] at written
  rw [shown, atoms, made, shownFrom_characters, ofText, String.toList_ofList, written]
  exact String.ofList_toList

/-! ## Bytes as names -/

theorem toByteArray_eq (bytes : List UInt8) : (⟨bytes.toArray⟩ : ByteArray) = bytes.toByteArray := by
  rw [ByteArray.ext_iff, List.data_toByteArray]

/-- Where a character is decoded, the bytes begin with it. -/
theorem exists_of_utf8DecodeChar? {bytes : List UInt8} {char : Char}
    (decoded : (⟨(bytes.take 4).toArray⟩ : ByteArray).utf8DecodeChar? 0 = some char) :
    ∃ later, bytes = String.utf8EncodeChar char ++ later := by
  obtain ⟨rest, same⟩ := ByteArray.exists_of_utf8DecodeChar?_eq_some decoded
  have front : bytes.take 4 = String.utf8EncodeChar char ++ rest.data.toList := by
    have data := congrArg (fun array : ByteArray => array.data.toList) same
    simpa using data
  refine ⟨rest.data.toList ++ bytes.drop 4, ?_⟩
  rw [← List.append_assoc, ← front, List.take_append_drop]

/-- A character is decoded where it was written. -/
theorem utf8DecodeChar?_take (char : Char) (later : List UInt8) :
    (⟨((String.utf8EncodeChar char ++ later).take 4).toArray⟩ : ByteArray).utf8DecodeChar? 0 =
      some char := by
  have short : (String.utf8EncodeChar char).length ≤ 4 := by
    rw [String.length_utf8EncodeChar]
    exact char.utf8Size_le_four
  rw [List.take_append, List.take_of_length_le short, toByteArray_eq, List.toByteArray_append,
    ByteArray.utf8DecodeChar?_utf8EncodeChar_append]

/-- Bytes that are written already are passed over. -/
theorem writtenFrom_eq (pending : Nat) (bytes : List UInt8) :
    writtenFrom pending bytes = writtenFrom 0 (bytes.drop pending) := by
  induction pending generalizing bytes with
  | zero => rw [List.drop_zero]
  | succ pending ih =>
    cases bytes with
    | nil => rfl
    | cons byte bytes => exact ih bytes

/-- A character that bytes begin with is written. -/
theorem writtenFrom_character (char : Char) (later : List UInt8) :
    writtenFrom 0 (String.utf8EncodeChar char ++ later) =
      (Atom.character char).written ++ writtenFrom 0 later := by
  have decoded := utf8DecodeChar?_take char later
  obtain ⟨byte, rest, shape⟩ := List.exists_cons_of_ne_nil (String.utf8EncodeChar_ne_nil (c := char))
  have size := String.length_utf8EncodeChar char
  rw [shape, List.length_cons] at size
  rw [shape, List.cons_append] at decoded ⊢
  rw [writtenFrom, decoded]
  dsimp only
  rw [writtenFrom_eq, ← size, Nat.add_sub_cancel, List.drop_left]

/-- A byte below `0x80` is a character by itself. -/
theorem utf8EncodeChar_ascii : ∀ byte : Fin 0x80,
    String.utf8EncodeChar (Char.ofNat byte) = [UInt8.ofNat byte] := by
  decide

/-- What bytes begin with is a character, or a stray byte. -/
theorem writtenFrom_cases (byte : UInt8) (rest : List UInt8) :
    (∃ char later, byte :: rest = String.utf8EncodeChar char ++ later) ∨
      (0x80 ≤ byte ∧
        writtenFrom 0 (byte :: rest) = (Atom.stray byte).written ++ writtenFrom 0 rest) := by
  cases decoded : (⟨((byte :: rest).take 4).toArray⟩ : ByteArray).utf8DecodeChar? 0 with
  | some char =>
    obtain ⟨later, shape⟩ := exists_of_utf8DecodeChar? decoded
    exact .inl ⟨char, later, shape⟩
  | none =>
    refine .inr ⟨?_, by rw [writtenFrom, decoded]⟩
    by_contra low
    have ascii := utf8EncodeChar_ascii ⟨byte.toNat, by simpa [UInt8.le_iff_toNat_le] using low⟩
    rw [UInt8.ofNat_toNat] at ascii
    have found := utf8DecodeChar?_take (Char.ofNat byte.toNat) rest
    rw [ascii, List.singleton_append, decoded] at found
    cases found

/-- Bytes are written as atoms that have them. -/
theorem exists_atoms (bytes : List UInt8) :
    ∃ atoms : List Atom, writtenFrom 0 bytes = atoms.flatMap Atom.written ∧
      atoms.flatMap Atom.bytes = bytes ∧ ∀ atom ∈ atoms, atom.IsPossible := by
  induction size : bytes.length using Nat.strong_induction_on generalizing bytes with
  | _ _ ih =>
    cases bytes with
    | nil => exact ⟨[], rfl, rfl, by simp⟩
    | cons byte rest =>
      rcases writtenFrom_cases byte rest with ⟨char, later, shape⟩ | ⟨high, written⟩
      · have positive : 0 < (String.utf8EncodeChar char).length :=
          List.length_pos_iff.2 String.utf8EncodeChar_ne_nil
        have less : later.length < (byte :: rest).length := by
          rw [shape, List.length_append]
          omega
        obtain ⟨atoms, written, bytes_eq, possible⟩ := ih _ (size ▸ less) later rfl
        refine ⟨.character char :: atoms, ?_, ?_, List.forall_mem_cons.2 ⟨trivial, possible⟩⟩
        · rw [shape, writtenFrom_character, written, List.flatMap_cons]
        · rw [List.flatMap_cons, bytes_eq, shape, Atom.bytes]
      · obtain ⟨atoms, written', bytes_eq, possible⟩ :=
          ih rest.length (by rw [← size, List.length_cons]; exact Nat.lt_succ_self _) rest rfl
        refine ⟨.stray byte :: atoms, ?_, ?_, List.forall_mem_cons.2 ⟨high, possible⟩⟩
        · rw [written, written', List.flatMap_cons]
        · rw [List.flatMap_cons, bytes_eq]
          rfl

/-- The name that bytes write has these bytes. -/
theorem bytes_ofBytes (bytes_ : List UInt8) : bytes (ofBytes bytes_) = bytes_ := by
  obtain ⟨atoms, written, same, possible⟩ := exists_atoms bytes_
  rw [bytes, Name.atoms, ofBytes, String.toList_ofList, written, atomsFrom_flatMap_written possible,
    same]

/-- The bytes of a text write the name that the text is read as. -/
theorem ofBytes_toByteArray (text : String) : ofBytes text.toByteArray.data.toList = ofText text := by
  have encoded : text.toByteArray.data.toList = text.toList.flatMap String.utf8EncodeChar := by
    rw [← String.utf8Encode_toList, List.utf8Encode, List.data_toByteArray]
  rw [encoded, ofBytes, ofText]
  congr 1
  induction text.toList with
  | nil => rfl
  | cons char chars ih => rw [List.flatMap_cons, List.flatMap_cons, writtenFrom_character, ih]

/-- A name is Unicode exactly if its bytes are those of a text, and then it is the text's. -/
theorem text?_ofBytes (bytes : List UInt8) :
    text? (ofBytes bytes) = Utf8.text? bytes.toByteArray := by
  cases read : Utf8.text? bytes.toByteArray with
  | some text =>
    have same := Utf8.toByteArray_of_text? read
    have data : text.toByteArray.data.toList = bytes := by
      rw [same, List.data_toByteArray, List.toList_toArray]
    rw [← data, ofBytes_toByteArray, text?, if_pos (isUnicode_ofText text), shown_ofText]
  | none =>
    rw [text?, if_neg]
    intro isUnicode
    have written := bytes_ofBytes bytes
    obtain ⟨chars, made⟩ := exists_characters isUnicode
    rw [Name.bytes, made, List.flatMap_map] at written
    have encoded : bytes.toByteArray = (String.ofList chars).toByteArray := by
      rw [← written, ← String.utf8Encode_toList, String.toList_ofList, List.utf8Encode]
      rfl
    rw [encoded, Utf8.text?_toByteArray] at read
    cases read

/-! ## What is shown -/

/-- A character that a name is made of is written in it. -/
theorem mem_of_mem_atomsFrom {marked : Bool} {chars : List Char} {char : Char}
    (member : .character char ∈ atomsFrom marked chars) : char ∈ chars := by
  induction chars generalizing marked with
  | nil => cases marked <;> simp [atomsFrom] at member
  | cons first chars ih =>
    rw [atomsFrom] at member
    split at member
    · split at member
      · rename_i isMark
        rcases List.mem_cons.1 member with same | later
        · rw [Atom.character.inj same, isMark]
          exact List.mem_cons_self
        · exact List.mem_cons_of_mem _ (ih later)
      · split at member
        · exact List.mem_cons_of_mem _ (ih (List.mem_of_ne_of_mem (by simp) member))
        · rcases List.mem_cons.1 (List.mem_of_ne_of_mem (by simp) member) with same | later
          · rw [Atom.character.inj same]
            exact List.mem_cons_self
          · exact List.mem_cons_of_mem _ (ih later)
    · split at member
      · exact List.mem_cons_of_mem _ (ih member)
      · rcases List.mem_cons.1 member with same | later
        · rw [Atom.character.inj same]
          exact List.mem_cons_self
        · exact List.mem_cons_of_mem _ (ih later)

/-- What is shown for atoms is one of their characters, or stands for stray bytes. -/
theorem mem_shownFrom {before : List UInt8} {atoms : List Atom} {char : Char}
    (member : char ∈ shownFrom before atoms) : char = '\uFFFD' ∨ .character char ∈ atoms := by
  induction atoms generalizing before with
  | nil => cases member
  | cons atom atoms ih =>
    cases atom with
    | character first =>
      rcases List.mem_cons.1 member with rfl | later
      · exact .inr List.mem_cons_self
      · exact (ih later).imp_right (List.mem_cons_of_mem _)
    | stray byte =>
      rw [shownFrom] at member
      split at member
      · exact (ih member).imp_right (List.mem_cons_of_mem _)
      · rcases List.mem_cons.1 member with rfl | later
        · exact .inl rfl
        · exact (ih later).imp_right (List.mem_cons_of_mem _)

/-- Nothing is shown that a name does not have, except for what stands for stray bytes. -/
theorem mem_shown {name : String} {char : Char} (member : char ∈ (shown name).toList) :
    char = '\uFFFD' ∨ char ∈ name.toList := by
  rw [shown, String.toList_ofList] at member
  exact (mem_shownFrom member).imp_right mem_of_mem_atomsFrom

/-- What is shown without a replacement is the name. -/
theorem isUnicode_of_shown {name : String} (clear : '\uFFFD' ∉ (shown name).toList) :
    isUnicode name = true := by
  rw [shown, String.toList_ofList] at clear
  rw [isUnicode]
  generalize atoms name = atoms at clear ⊢
  induction atoms with
  | nil => rfl
  | cons atom rest ih =>
    cases atom with
    | character char => exact ih fun later => clear (List.mem_cons_of_mem _ later)
    | stray byte => exact absurd List.mem_cons_self clear

/-- Something is shown for every name. -/
theorem shown_ne_empty {name : String} (filled : name ≠ "") : shown name ≠ "" := by
  intro empty
  have isUnicode := isUnicode_of_shown (by rw [empty]; simp : '\uFFFD' ∉ (shown name).toList)
  exact filled (by rw [← ofText_shown isUnicode, empty]; rfl)

/-- The name that is read where a name is shown. -/
def seen (name : String) : String :=
  ofText (shown name)

theorem seen_of_isUnicode {name : String} (isUnicode : isUnicode name = true) : seen name = name :=
  ofText_shown isUnicode

theorem shown_seen (name : String) : shown (seen name) = shown name :=
  shown_ofText _

/-- What is read where a name is shown is Unicode. -/
theorem isUnicode_seen (name : String) : isUnicode (seen name) = true :=
  isUnicode_ofText _

/-- Names are read again as they are exactly if they are all Unicode. -/
theorem map_seen_eq_iff {names : List String} :
    names.map seen = names ↔ ∀ name ∈ names, isUnicode name = true := by
  induction names with
  | nil => simp
  | cons name names ih =>
    rw [List.map_cons, List.cons.injEq, ih, List.forall_mem_cons]
    refine and_congr_left fun _ => ⟨fun same => ?_, seen_of_isUnicode⟩
    rw [← same]
    exact isUnicode_seen name

/-! ## The order of names -/

/-- Names are ordered by their bytes, and those with the same bytes as they are written. -/
theorem le_iff {first second : String} :
    le first second = true ↔
      bytes first < bytes second ∨ bytes first = bytes second ∧ first ≤ second := by
  rw [le]
  split
  · rename_i same
    rw [decide_eq_true_iff, not_lt, same]
    simp [Std.lt_irrefl]
  · rename_i other
    simp [other]

theorem le_trans {first second third : String} (before : le first second = true)
    (after : le second third = true) : le first third = true := by
  rw [le_iff] at before after ⊢
  rcases before with before | ⟨same, before⟩
  · rcases after with after | ⟨same, -⟩
    · exact .inl (Std.lt_trans before after)
    · exact .inl (same ▸ before)
  · rw [same]
    exact after.imp_right fun ⟨same, after⟩ => ⟨same, before.trans after⟩

theorem le_total (first second : String) : (le first second || le second first) = true := by
  rw [Bool.or_eq_true, le_iff, le_iff]
  rcases Std.lt_trichotomy (bytes first) (bytes second) with less | same | more
  · exact .inl (.inl less)
  · exact (Std.le_total (a := first) (b := second)).imp (fun le => .inr ⟨same, le⟩)
      fun le => .inr ⟨same.symm, le⟩
  · exact .inr (.inl more)

theorem le_antisymm {first second : String} (before : le first second = true)
    (after : le second first = true) : first = second := by
  rw [le_iff] at before after
  rcases before with before | ⟨same, before⟩
  · rcases after with after | ⟨same, -⟩
    · exact absurd after (Std.not_gt_of_lt before)
    · exact absurd (same ▸ before) Std.lt_irrefl
  · rcases after with after | ⟨-, after⟩
    · exact absurd (same ▸ after) Std.lt_irrefl
    · exact before.antisymm after

end Relink.Name
