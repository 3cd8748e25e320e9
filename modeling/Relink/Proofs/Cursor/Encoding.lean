import Relink.Proofs.Cursor.Loop
import Relink.Proofs.Splice

/-!
# The units of an encoded text

The bytes of a text, each read as the character of its value. A character of ASCII is one unit,
itself; any other one becomes several units, none of which is ASCII. All of those are characters of
words, so that a scan of the units takes the same decisions as a scan of the text, even where an
escape carries it into the middle of a character.
-/

namespace Relink.Script

/-- The units of a character. -/
def encodeCharacter (character : Char) : List Char :=
  (String.utf8EncodeChar character).map Char.ofUInt8

/-- The units of a text. -/
def encode (text : List Char) : List Char :=
  text.flatMap encodeCharacter

/-- A character outside ASCII. -/
def IsWide (character : Char) : Prop :=
  0x80 ≤ character.toNat

instance (character : Char) : Decidable (IsWide character) :=
  Nat.decLe 0x80 character.toNat

/-- A text in ASCII. -/
def Narrow (text : List Char) : Prop :=
  ∀ character ∈ text, ¬IsWide character

instance (text : List Char) : Decidable (Narrow text) :=
  decidable_of_iff ((text.all fun character => !decide (IsWide character)) = true) (by
    simp [Narrow])

theorem toNat_ofUInt8 (byte : UInt8) : (Char.ofUInt8 byte).toNat = byte.toNat :=
  rfl

/-- The unit for a byte from `0x80` on is wide. -/
theorem isWide_ofUInt8 {value : Nat} (low : 0x80 ≤ value) (high : value < 0x100) :
    IsWide (Char.ofUInt8 (UInt8.ofNat value)) := by
  rw [IsWide, toNat_ofUInt8, UInt8.toNat_ofNat', Nat.mod_eq_of_lt high]
  exact low

/-- A narrow character is one unit, itself. -/
theorem encodeCharacter_ascii {character : Char} (ascii : ¬IsWide character) :
    encodeCharacter character = [character] := by
  have low : character.val.toNat ≤ 127 := by
    have : ¬ 0x80 ≤ character.val.toNat := ascii
    omega
  rw [encodeCharacter, String.utf8EncodeChar, if_pos low, List.map_singleton]
  congr 1
  apply Char.toNat_inj.1
  rw [toNat_ofUInt8, UInt8.toNat_ofNat', Nat.mod_eq_of_lt (by omega)]
  rfl

/-- Every byte of a character outside ASCII is at least `0x80`. -/
theorem isWide_of_mem_encodeCharacter {character unit : Char} (wide : IsWide character)
    (member : unit ∈ encodeCharacter character) : IsWide unit := by
  have high : ¬ character.val.toNat ≤ 127 := by
    have : 0x80 ≤ character.val.toNat := wide
    omega
  rw [encodeCharacter, String.utf8EncodeChar, if_neg high] at member
  split at member
  · simp only [List.map_cons, List.map_nil, List.mem_cons, List.not_mem_nil, or_false] at member
    rcases member with rfl | rfl
    all_goals exact isWide_ofUInt8 (by omega) (by omega)
  split at member
  · simp only [List.map_cons, List.map_nil, List.mem_cons, List.not_mem_nil, or_false] at member
    rcases member with rfl | rfl | rfl
    all_goals exact isWide_ofUInt8 (by omega) (by omega)
  · simp only [List.map_cons, List.map_nil, List.mem_cons, List.not_mem_nil, or_false] at member
    rcases member with rfl | rfl | rfl | rfl
    all_goals exact isWide_ofUInt8 (by omega) (by omega)

/-- Every character takes at least one unit. -/
theorem encodeCharacter_ne_nil (character : Char) : encodeCharacter character ≠ [] := by
  intro empty
  have size := congrArg List.length empty
  rw [encodeCharacter, List.length_map, String.length_utf8EncodeChar] at size
  exact absurd size character.utf8Size_pos.ne'

/-- The units of a character: a first one, and wide ones, of which there are none for a character
of ASCII. -/
theorem exists_encodeCharacter (character : Char) :
    ∃ unit units, encodeCharacter character = unit :: units ∧ (∀ other ∈ units, IsWide other) ∧
      (units = [] ∧ unit = character ∧ ¬IsWide character ∨ IsWide unit ∧ IsWide character) := by
  by_cases wide : IsWide character
  · obtain ⟨unit, units, same⟩ := List.exists_cons_of_ne_nil (encodeCharacter_ne_nil character)
    have inside {other : Char} (member : other ∈ unit :: units) : IsWide other :=
      isWide_of_mem_encodeCharacter wide (same ▸ member)
    exact ⟨unit, units, same, fun _ member => inside (List.mem_cons_of_mem _ member),
      .inr ⟨inside (List.mem_cons_self ..), wide⟩⟩
  · exact ⟨character, [], encodeCharacter_ascii wide, by simp, .inl ⟨rfl, rfl, wide⟩⟩

@[simp] theorem encode_nil : encode [] = [] :=
  rfl

@[simp] theorem encode_cons (character : Char) (text : List Char) :
    encode (character :: text) = encodeCharacter character ++ encode text :=
  List.flatMap_cons

/-- The units of two texts are those of the first and then those of the second. -/
@[simp] theorem encode_append (first second : List Char) :
    encode (first ++ second) = encode first ++ encode second :=
  List.flatMap_append

/-- A narrow text is its own units. -/
theorem encode_ascii (text : List Char) (narrow : Narrow text) :
    encode text = text := by
  induction text with
  | nil => rfl
  | cons character text ih =>
    rw [encode_cons, encodeCharacter_ascii (narrow character (List.mem_cons_self ..)),
      ih fun other member => narrow other (List.mem_cons_of_mem _ member)]
    rfl

@[simp] theorem encode_cons_ascii {character : Char} (narrow : ¬IsWide character)
    (text : List Char) : encode (character :: text) = character :: encode text := by
  rw [encode_cons, encodeCharacter_ascii narrow, List.singleton_append]

theorem encode_singleton {character : Char} (narrow : ¬IsWide character) :
    encode [character] = [character] :=
  encode_cons_ascii narrow []

/-- Only the empty text has no units. -/
theorem encode_eq_nil_iff {text : List Char} : encode text = [] ↔ text = [] := by
  cases text with
  | nil => exact iff_of_true rfl rfl
  | cons character text => simp [encode_cons, encodeCharacter_ne_nil]

/-- The first unit of a text is ASCII only where its first character is that unit. -/
theorem head?_encode_iff {text : List Char} {unit : Char} (narrow : ¬IsWide unit) :
    (encode text).head? = some unit ↔ text.head? = some unit := by
  cases text with
  | nil => rfl
  | cons character text =>
    obtain ⟨first, units, same, -, kind⟩ := exists_encodeCharacter character
    rcases kind with ⟨rfl, rfl, -⟩ | ⟨wide, wide'⟩
    · rw [encode_cons, same]
      rfl
    · rw [encode_cons, same, List.cons_append, List.head?_cons, List.head?_cons, Option.some.injEq,
        Option.some.injEq]
      constructor
      · rintro rfl
        exact absurd wide narrow
      · rintro rfl
        exact absurd wide' narrow

/-! ## Wide characters -/

/-- A wide unit counts as part of a word. -/
theorem IsWide.isWord {unit : Char} (wide : IsWide unit) : isWord unit = true := by
  simp only [Script.isWord, Bool.or_eq_true, decide_eq_true_eq]
  exact .inr wide

/-- A wide unit is no narrow one. -/
theorem IsWide.ne {unit ascii : Char} (wide : IsWide unit) (narrow : ¬IsWide ascii) :
    unit ≠ ascii := by
  rintro rfl
  exact narrow wide

theorem IsWide.isMark {unit : Char} (wide : IsWide unit) : isMark unit = false :=
  isMark_of_isWord wide.isWord

theorem IsWide.isBlank {unit : Char} (wide : IsWide unit) : isBlank unit = false := by
  by_contra blank
  have solid := isWord_of_isBlank (Bool.not_eq_false _ ▸ blank)
  rw [wide.isWord] at solid
  cases solid

theorem IsWide.isQuote {unit : Char} (wide : IsWide unit) : isQuote unit = false := by
  have plain := wide.isMark
  simp only [Script.isMark, Bool.or_eq_false_iff] at plain
  exact plain.1.2

/-- A wide unit may stand in a specifier. -/
theorem IsWide.isSpecifierCharacter {unit : Char} (wide : IsWide unit) :
    isSpecifierCharacter unit = true := by
  rw [Script.isSpecifierCharacter, wide.isBlank, wide.isQuote]
  rfl

/-- Quotes are narrow. -/
theorem narrow_of_isQuote {quote : Char} (quoted : isQuote quote = true) : ¬IsWide quote := by
  intro wide
  rw [wide.isQuote] at quoted
  cases quoted

/-- A way to put units for a character: an ASCII character stays, any other one becomes wide
units. -/
structure Widens (put : Char -> List Char) : Prop where
  narrow : ∀ character, ¬IsWide character → put character = [character]
  wide : ∀ character, IsWide character → ∀ unit ∈ put character, IsWide unit
  filled : ∀ character, put character ≠ []

/-- Encoding leaves narrow characters alone and makes wide units of the others. -/
theorem widens_encodeCharacter : Widens encodeCharacter where
  narrow _ := encodeCharacter_ascii
  wide _ outside _ := isWide_of_mem_encodeCharacter outside
  filled := encodeCharacter_ne_nil

theorem Widens.reverse {put : Char -> List Char} (widens : Widens put) :
    Widens fun character => (put character).reverse where
  narrow character inside := by rw [widens.narrow character inside, List.reverse_singleton]
  wide character outside unit member :=
    widens.wide character outside unit (List.mem_reverse.1 member)
  filled character := by simpa using widens.filled character

/-- What is put for a wide character begins with a wide unit. -/
theorem Widens.exists_cons {put : Char -> List Char} (widens : Widens put) {character : Char}
    (outside : IsWide character) : ∃ unit units, put character = unit :: units ∧ IsWide unit := by
  obtain ⟨unit, units, same⟩ := List.exists_cons_of_ne_nil (widens.filled character)
  exact ⟨unit, units, same, widens.wide character outside unit (same ▸ List.mem_cons_self ..)⟩

/-- Where wide units pass the test, the same characters pass it before and after. -/
theorem Widens.takeWhile_flatMap {put : Char -> List Char} (widens : Widens put)
    {p : Char -> Bool} (wide : ∀ unit, IsWide unit → p unit = true) (text : List Char) :
    (text.flatMap put).takeWhile p = (text.takeWhile p).flatMap put := by
  induction text with
  | nil => rfl
  | cons character text ih =>
    rw [List.flatMap_cons]
    by_cases outside : IsWide character
    · rw [List.takeWhile_append_of_pos fun unit member =>
          wide unit (widens.wide character outside unit member),
        List.takeWhile_cons_of_pos (wide character outside), ih, List.flatMap_cons]
    · rw [widens.narrow character outside, List.singleton_append, List.takeWhile_cons,
        List.takeWhile_cons, ih]
      split
      · rw [List.flatMap_cons, widens.narrow character outside, List.singleton_append]
      · rfl

/-- Where wide units fail the test, what passes it is narrow and stays as it is. -/
theorem Widens.takeWhile_flatMap_narrow {put : Char -> List Char} (widens : Widens put)
    {p : Char -> Bool} (wide : ∀ unit, IsWide unit → p unit = false) (text : List Char) :
    (text.flatMap put).takeWhile p = text.takeWhile p := by
  induction text with
  | nil => rfl
  | cons character text ih =>
    rw [List.flatMap_cons]
    by_cases outside : IsWide character
    · obtain ⟨unit, units, same, first⟩ := widens.exists_cons outside
      rw [same, List.cons_append, List.takeWhile_cons_of_neg (by simp [wide unit first]),
        List.takeWhile_cons_of_neg (by simp [wide character outside])]
    · rw [widens.narrow character outside, List.singleton_append, List.takeWhile_cons,
        List.takeWhile_cons, ih]

/-- Where wide units fail the test, what is left behind is put for what was left. -/
theorem Widens.dropWhile_flatMap {put : Char -> List Char} (widens : Widens put)
    {p : Char -> Bool} (wide : ∀ unit, IsWide unit → p unit = false) (text : List Char) :
    (text.flatMap put).dropWhile p = (text.dropWhile p).flatMap put := by
  induction text with
  | nil => rfl
  | cons character text ih =>
    rw [List.flatMap_cons]
    by_cases outside : IsWide character
    · obtain ⟨unit, units, same, first⟩ := widens.exists_cons outside
      rw [List.dropWhile_cons_of_neg (by simp [wide character outside]), List.flatMap_cons, same,
        List.cons_append, List.dropWhile_cons_of_neg (by simp [wide unit first])]
    · rw [widens.narrow character outside, List.singleton_append, List.dropWhile_cons,
        List.dropWhile_cons, ih]
      split
      · rfl
      · rw [List.flatMap_cons, widens.narrow character outside, List.singleton_append]

/-- A test that answers alike for every wide unit answers alike for the first unit. -/
theorem Widens.any_head? {put : Char -> List Char} (widens : Widens put) {p : Char -> Bool}
    {answer : Bool} (wide : ∀ unit, IsWide unit → p unit = answer) (text : List Char) :
    (text.flatMap put).head?.any p = text.head?.any p := by
  cases text with
  | nil => rfl
  | cons character text =>
    rw [List.flatMap_cons]
    by_cases outside : IsWide character
    · obtain ⟨unit, units, same, first⟩ := widens.exists_cons outside
      rw [same, List.cons_append, List.head?_cons, List.head?_cons, Option.any_some,
        Option.any_some, wide unit first, wide character outside]
    · rw [widens.narrow character outside]
      rfl

/-- A text and its encoding are measured to the same place. -/
inductive Measures (text : List Char) : Option Nat -> Option Nat -> Prop where
  | absent : Measures text none none
  | upto {first second : List Char} (same : text = first ++ second) :
      Measures text (some first.length) (some (encode first).length)

/-- A border between two parts is measured by the lengths of the first one. -/
theorem Measures.of_lengths {text first second : List Char} {length length' : Nat}
    (same : text = first ++ second) (measured : length = first.length)
    (measured' : length' = (encode first).length) : Measures text (some length) (some length') :=
  measured ▸ measured' ▸ .upto same

/-! ## Literals -/

section Literals

variable {State : Type} {turn : State -> Char -> Turn State}
  (passes : ∀ state unit, IsWide unit → turn state unit = .passes state)

include passes

/-- A character at which a literal ends, or changes how it is read, is narrow. -/
theorem narrow_of_turn (state : State) {character : Char}
    (ends : ∀ next, turn state character ≠ .passes next) : ¬IsWide character :=
  fun wide => ends state (passes state character wide)

/-- Wide units in a literal are passed over. -/
theorem literalLength_wide {units : List Char} (wide : ∀ unit ∈ units, IsWide unit) (state : State)
    (passed : Nat) (rest : List Char) :
    literalLength turn state passed (units ++ rest) =
      literalLength turn state (passed + units.length) rest := by
  induction units generalizing passed with
  | nil => rfl
  | cons unit units ih =>
    have here := wide unit (List.mem_cons_self ..)
    rw [List.cons_append, literalLength_plain _ _ _ (here.ne (by decide)), passes _ _ here]
    dsimp only
    rw [ih (fun other member => wide other (List.mem_cons_of_mem _ member)), List.length_cons,
      Nat.add_right_comm, Nat.add_assoc]

/-- An escape may carry the loop into the middle of a character. The units that remain of it are
wide, and passed over like any others. -/
theorem literalLength_encode {state : State} {passed : Nat} {front text : List Char}
    (length : passed = front.length) :
    Measures (front ++ text) (some (literalLength turn state passed text))
      (some (literalLength turn state (encode front).length (encode text))) := by
  -- The units of a wide character are passed over one by one, where it took a single turn.
  fun_induction literalLength turn state passed text generalizing front with
  | case1 state passed => exact .of_lengths rfl length rfl
  | case2 state passed =>
    refine .of_lengths (List.append_nil _).symm (by simp [length]) ?_
    rw [encode_append, List.length_append, encode_ascii ['\\'] (by decide)]
    rfl
  | case3 state passed next rest ih =>
    obtain ⟨unit, units, same, wide, -⟩ := exists_encodeCharacter next
    have later := @ih (front ++ ['\\', next]) (by simp [length])
    have escape : encode ['\\', next] = '\\' :: unit :: units := by
      rw [encode_cons_ascii (by decide), encode_cons, same, encode_nil, List.append_nil]
    have shape : encode ('\\' :: next :: rest) = '\\' :: unit :: (units ++ encode rest) := by
      rw [encode_cons_ascii (by decide), encode_cons, same]
      rfl
    rw [List.append_assoc, encode_append, List.length_append, escape] at later
    rw [shape, literalLength, literalLength_wide passes wide, Nat.add_assoc, Nat.add_comm 2]
    exact later
  | case4 state passed character rest alone followed turns =>
    have narrow : ¬IsWide character := narrow_of_turn passes state (by simp [turns])
    refine .of_lengths rfl length ?_
    rw [encode_cons_ascii narrow,
      literalLength_plain _ _ _ (ne_escape alone followed), turns]
  | case5 state passed character rest alone followed turns =>
    have narrow : ¬IsWide character := narrow_of_turn passes state (by simp [turns])
    have split : front ++ character :: rest = (front ++ [character]) ++ rest := by simp
    refine .of_lengths split (by simp [length]) ?_
    rw [encode_cons_ascii narrow,
      literalLength_plain _ _ _ (ne_escape alone followed), turns, encode_append,
      List.length_append, encode_singleton narrow]
    rfl
  | case6 state passed character rest alone followed next turns ih =>
    have later := @ih (front ++ [character]) (by simp [length])
    rw [List.append_assoc, List.singleton_append, encode_append, List.length_append, encode_cons,
      encode_nil, List.append_nil] at later
    by_cases wide : IsWide character
    · obtain rfl : next = state := by
        rw [passes _ _ wide] at turns
        exact (Turn.passes.inj turns).symm
      rw [encode_cons, literalLength_wide passes
        (fun _ member => isWide_of_mem_encodeCharacter wide member)]
      exact later
    · rw [encodeCharacter_ascii wide] at later
      rw [encode_cons_ascii wide,
        literalLength_plain _ _ _ (ne_escape alone followed), turns]
      exact later

end Literals

theorem stringTurn_wide {quote : Char} (narrow : ¬IsWide quote) (state : Unit) (unit : Char)
    (wide : IsWide unit) : stringTurn quote state unit = .passes state := by
  rw [stringTurn, if_neg (wide.ne (by decide)), if_neg (wide.ne narrow)]

theorem templateTurn_wide (state : Unit) (unit : Char) (wide : IsWide unit) :
    templateTurn state unit = .passes state := by
  rw [templateTurn, if_neg (wide.ne (by decide))]

theorem regexTurn_wide (state : Bool) (unit : Char) (wide : IsWide unit) :
    regexTurn state unit = .passes state := by
  rw [regexTurn, if_neg (wide.ne (by decide)), if_neg (wide.ne (by decide)),
    if_neg (wide.ne (by decide)), if_neg (by simp [wide.ne (by decide : ¬IsWide '/')])]

/-! ## Comments -/

/-- Wide units in a comment are passed over. -/
theorem blockCommentLength_wide {units : List Char} (wide : ∀ unit ∈ units, IsWide unit)
    (passed : Nat) (rest : List Char) :
    blockCommentLength passed (units ++ rest) =
      blockCommentLength (passed + units.length) rest := by
  induction units generalizing passed with
  | nil => rfl
  | cons unit units ih =>
    have here := wide unit (List.mem_cons_self ..)
    have open_ : ∀ tail, unit = '*' -> units ++ rest = '/' :: tail -> False :=
      fun _ same _ => here.ne (by decide) same
    rw [List.cons_append, blockCommentLength.eq_3 _ _ _ open_,
      ih fun other member => wide other (List.mem_cons_of_mem _ member), List.length_cons,
      Nat.add_right_comm, Nat.add_assoc]

/-- A block comment ends at the same character before and after the encoding. -/
theorem blockCommentLength_encode {passed : Nat} {front text : List Char}
    (length : passed = front.length) :
    Measures (front ++ text) (some (blockCommentLength passed text))
      (some (blockCommentLength (encode front).length (encode text))) := by
  fun_induction blockCommentLength passed text generalizing front with
  | case1 passed => exact .of_lengths rfl length rfl
  | case2 passed rest =>
    have split : front ++ '*' :: '/' :: rest = (front ++ ['*', '/']) ++ rest := by simp
    refine .of_lengths split (by simp [length]) ?_
    rw [encode_cons_ascii (by decide), encode_cons_ascii (by decide), blockCommentLength,
      encode_append, List.length_append, encode_ascii ['*', '/'] (by decide)]
    rfl
  | case3 passed character rest open_ ih =>
    have later := @ih (front ++ [character]) (by simp [length])
    rw [List.append_assoc, List.singleton_append, encode_append, List.length_append, encode_cons,
      encode_nil, List.append_nil] at later
    by_cases wide : IsWide character
    · rw [encode_cons, blockCommentLength_wide
        (fun _ member => isWide_of_mem_encodeCharacter wide member)]
      exact later
    · have open_' : ∀ tail, character = '*' -> encode rest = '/' :: tail -> False := by
        intro tail asterisk same
        obtain ⟨tail', split⟩ := List.head?_eq_some_iff.1
          ((head?_encode_iff (by decide : ¬IsWide '/')).1 (by rw [same]; rfl))
        exact open_ tail' asterisk split
      rw [encodeCharacter_ascii wide] at later
      rw [encode_cons_ascii wide, blockCommentLength.eq_3 _ _ _ open_']
      exact later

/-- A comment is as long as it was, measured in units. -/
theorem commentLength?_encode (text : List Char) :
    Measures text (commentLength? text) (commentLength? (encode text)) := by
  cases text with
  | nil => exact .absent
  | cons unit rest =>
    cases commentMark unit rest with
    | line tail =>
      have wide : ∀ unit, IsWide unit → (unit != '\n') = true := fun unit outside => by
        simpa using outside.ne (by decide : ¬IsWide '\n')
      have split : '/' :: '/' :: tail =
          ('/' :: '/' :: tail.takeWhile (· != '\n')) ++ tail.dropWhile (· != '\n') := by
        rw [List.cons_append, List.cons_append, List.takeWhile_append_dropWhile]
      rw [encode_cons_ascii (by decide), encode_cons_ascii (by decide), commentLength?,
        commentLength?, encode, widens_encodeCharacter.takeWhile_flatMap wide]
      refine .of_lengths split (Nat.add_comm ..) ?_
      rw [encode_cons_ascii (by decide), encode_cons_ascii (by decide)]
      exact Nat.add_comm ..
    | block tail =>
      rw [encode_cons_ascii (by decide), encode_cons_ascii (by decide)]
      have measured := @blockCommentLength_encode 2 ['/', '*'] tail rfl
      rw [encode_ascii ['/', '*'] (by decide)] at measured
      exact measured
    | other noComment noLine noBlock =>
      have none' : commentLength? (encode (unit :: rest)) = none := by
        by_cases outside : IsWide unit
        · obtain ⟨first, units, same⟩ :=
            List.exists_cons_of_ne_nil (encodeCharacter_ne_nil unit)
          have wide : IsWide first :=
            isWide_of_mem_encodeCharacter outside (same ▸ List.mem_cons_self ..)
          rw [encode_cons, same, List.cons_append]
          exact commentLength?_eq_none _ (wide.ne (by decide))
        · rw [encode_cons_ascii outside]
          have next {other : Char} (narrow : ¬IsWide other) {tail : List Char}
              (same : encode rest = other :: tail) : rest.head? = some other :=
            (head?_encode_iff narrow).1 (by rw [same]; rfl)
          generalize encoded : encode rest = units
          cases commentMark unit units with
          | line tail => exact absurd ⟨rfl, next (by decide) encoded⟩ noLine
          | block tail => exact absurd ⟨rfl, next (by decide) encoded⟩ noBlock
          | other noComment _ _ => exact noComment
      rw [noComment, none']
      exact .absent

/-! ## Looking back -/

/-- The units before a position, from the last one back. -/
def encodeBack (before : List Char) : List Char :=
  before.flatMap fun character => (encodeCharacter character).reverse

/-- Encoding backwards is the encoding, read from its end. -/
theorem reverse_encodeBack (before : List Char) :
    (encodeBack before).reverse = encode before.reverse := by
  induction before with
  | nil => rfl
  | cons character before ih =>
    rw [encodeBack, List.flatMap_cons, List.reverse_append, List.reverse_reverse, ← encodeBack, ih,
      List.reverse_cons, encode_append, encode_cons, encode_nil, List.append_nil]

theorem narrow_of_mem_operatorWords :
    ∀ word ∈ operatorWords, Narrow word.toList := by
  decide

/-- A word is an operator word in units exactly if it is one in characters. -/
theorem contains_operatorWords_encode (word : List Char) :
    operatorWords.contains (String.ofList (encode word)) =
      operatorWords.contains (String.ofList word) := by
  by_cases narrow : ∀ character ∈ word, ¬IsWide character
  · rw [encode_ascii word narrow]
  · have foreign {text : List Char} (wide : ∃ character ∈ text, IsWide character) :
        operatorWords.contains (String.ofList text) = false := by
      obtain ⟨character, member, wide⟩ := wide
      rw [Bool.eq_false_iff, ne_eq, List.contains_iff_mem]
      intro known
      refine narrow_of_mem_operatorWords _ known character ?_ wide
      rwa [String.toList_ofList]
    have outside : ∃ character ∈ word, IsWide character := by
      simpa using narrow
    rw [foreign outside, foreign]
    obtain ⟨character, member, wide⟩ := outside
    obtain ⟨unit, units, same⟩ := List.exists_cons_of_ne_nil (encodeCharacter_ne_nil character)
    have first : unit ∈ encodeCharacter character := same ▸ List.mem_cons_self ..
    exact ⟨unit, List.mem_flatMap.2 ⟨character, member, first⟩,
      isWide_of_mem_encodeCharacter wide first⟩

theorem IsWide.isOperator {unit : Char} (wide : IsWide unit) : isOperator unit = false := by
  have narrow : Narrow "(,=:[!&|?\x7b;+-*%<>~^".toList := by decide
  rw [Script.isOperator, Bool.eq_false_iff, ne_eq, List.contains_iff_mem]
  exact fun member => narrow unit member wide

/-- Whether a slash opens a regex is decided alike in units and in characters. -/
theorem slashOpensRegex_encodeBack (before : List Char) :
    slashOpensRegex (encodeBack before) = slashOpensRegex before := by
  have widens := widens_encodeCharacter.reverse
  unfold slashOpensRegex
  rw [encodeBack, widens.dropWhile_flatMap fun unit => IsWide.isBlank]
  cases before.dropWhile isBlank with
  | nil => rfl
  | cons character earlier =>
    have word : (((character :: earlier).flatMap fun character =>
        (encodeCharacter character).reverse).takeWhile isWord).reverse =
          encode ((character :: earlier).takeWhile isWord).reverse := by
      rw [widens.takeWhile_flatMap fun unit => IsWide.isWord]
      exact reverse_encodeBack _
    obtain ⟨unit, units, same⟩ := List.exists_cons_of_ne_nil (widens.filled character)
    have operator : isOperator unit = isOperator character := by
      by_cases outside : IsWide character
      · have wide := widens.wide character outside unit (same ▸ List.mem_cons_self ..)
        rw [wide.isOperator, outside.isOperator]
      · rw [widens.narrow character outside] at same
        rw [(List.cons.inj same).1]
    rw [List.flatMap_cons, same, List.cons_append] at word ⊢
    dsimp only
    rw [word, contains_operatorWords_encode, operator]

/-! ## Lexemes -/

/-- A literal that a character opens. -/
theorem literal_encode {State : Type} {turn : State -> Char -> Turn State}
    (passes : ∀ state unit, IsWide unit → turn state unit = .passes state) (state : State)
    {opening : Char} (narrow : ¬IsWide opening) (rest : List Char) :
    Measures (opening :: rest) (some (literalLength turn state 1 rest))
      (some (literalLength turn state 1 (encode rest))) := by
  have measured := @literalLength_encode _ _ passes state 1 [opening] rest rfl
  rwa [encode_singleton narrow] at measured

/-- What is skipped at a place ends at the same character before and after the encoding. -/
theorem lexemeLength?_encode (before text : List Char) :
    Measures text (lexemeLength? before text)
      (lexemeLength? (encodeBack before) (encode text)) := by
  cases text with
  | nil => exact .absent
  | cons unit rest =>
    by_cases marked : isMark unit = true
    · simp only [isMark, Script.isQuote, Bool.or_eq_true, beq_iff_eq] at marked
      rcases marked with (rfl | rfl | rfl) | rfl
      · have comment := commentLength?_encode ('/' :: rest)
        rw [encode_cons_ascii (by decide)] at comment ⊢
        rw [lexemeLength?, lexemeLength?, slashOpensRegex_encodeBack]
        generalize commentLength? ('/' :: rest) = length at comment
        generalize commentLength? ('/' :: encode rest) = length' at comment
        cases comment with
        | upto same => exact .upto same
        | absent =>
          dsimp only
          split
          · rw [regexLength_eq, regexLength_eq]
            exact literal_encode regexTurn_wide false (by decide) rest
          · exact .absent
      · rw [encode_cons_ascii (by decide), lexemeLength?, lexemeLength?, stringLength_eq,
          stringLength_eq]
        exact literal_encode (stringTurn_wide (by decide)) () (by decide) rest
      · rw [encode_cons_ascii (by decide), lexemeLength?, lexemeLength?, stringLength_eq,
          stringLength_eq]
        exact literal_encode (stringTurn_wide (by decide)) () (by decide) rest
      · rw [encode_cons_ascii (by decide), lexemeLength?, lexemeLength?, templateLength_eq,
          templateLength_eq]
        exact literal_encode templateTurn_wide () (by decide) rest
    · rw [Bool.not_eq_true] at marked
      obtain ⟨first, units, same, -, ⟨rfl, rfl, -⟩ | ⟨wide, -⟩⟩ := exists_encodeCharacter unit
      · rw [encode_cons, same, lexemeLength?_plain _ _ marked, List.singleton_append,
          lexemeLength?_plain _ _ marked]
        exact .absent
      · rw [encode_cons, same, lexemeLength?_plain _ _ marked, List.cons_append,
          lexemeLength?_plain _ _ wide.isMark]
        exact .absent

end Relink.Script
