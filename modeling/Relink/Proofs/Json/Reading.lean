import Mathlib.Data.List.TakeWhile
import Relink.Proofs.Json.Grammar

/-!
# Reading a value back

Whoever reads a text that writes a value gets that value, if its numbers fit into double
precision. The machine that reads characters finds the tokens of the text, and the one that reads
tokens puts the value together, on whatever stack it begins.
-/

namespace Relink.Json

/-! ## Characters -/

namespace Lexer

/-- What the machine finds in a text that it reads to the end. -/
def run (lexer : Lexer) (text : List Char) : Option (List Token) :=
  (text.foldlM step lexer).bind finish

theorem run_cons {lexer next : Lexer} {character : Char} (rest : List Char)
    (stepped : lexer.step character = some next) :
    lexer.run (character :: rest) = next.run rest := by
  rw [run, List.foldlM_cons, stepped]
  rfl

/-- A hexadecimal digit of an escape that more of them follow. -/
theorem step_hex {earlier : List Token} {read : List Char} {high : Option Nat} {character : Char}
    {missing value digit : Nat} (found : hexValue? character = some digit) (more : 1 < missing) :
    step ⟨earlier, .string read (.hex missing value high)⟩ character =
      some ⟨earlier, .string read (.hex (missing - 1) (value * 16 + digit) high)⟩ := by
  dsimp only [step, readString]
  rw [found, Option.bind_some, if_neg (by omega)]

/-- The four digits of a code unit. -/
theorem run_hex {earlier : List Token} {read : List Char} {high : Option Nat} {a b c d : Char}
    {unit : Nat} {reading : Reading} (digits : codeUnit? a b c d = some unit)
    (ends : endHex read unit high = some reading) (rest : List Char) :
    run ⟨earlier, .string read (.hex 4 0 high)⟩ (a :: b :: c :: d :: rest) =
      run ⟨earlier, reading⟩ rest := by
  unfold codeUnit? at digits
  obtain ⟨first, isFirst, digits⟩ := Option.bind_eq_some_iff.1 digits
  obtain ⟨second, isSecond, digits⟩ := Option.bind_eq_some_iff.1 digits
  obtain ⟨third, isThird, digits⟩ := Option.bind_eq_some_iff.1 digits
  obtain ⟨fourth, isFourth, digits⟩ := Option.bind_eq_some_iff.1 digits
  obtain rfl := Option.some.inj digits
  have last : step ⟨earlier, .string read
      (.hex 1 ((first * 16 + second) * 16 + third) high)⟩ d = some ⟨earlier, reading⟩ := by
    dsimp only [step, readString]
    rw [isFourth, Option.bind_some, if_pos (Nat.le_refl 1), ends]
    rfl
  rw [run_cons _ (step_hex isFirst (by decide)), run_cons _ (step_hex isSecond (by decide)),
    run_cons _ (step_hex isThird (by decide)), Nat.zero_mul, Nat.zero_add]
  exact run_cons _ last

/-- What is written inside a string is read as it is meant. -/
theorem run_string {earlier : List Token} {meant written : List Char}
    (isWritten : IsWritten meant written) (read rest : List Char) :
    run ⟨earlier, .string read .none⟩ (written ++ '"' :: rest) =
      run ⟨.string (String.ofList (read.reverse ++ meant)) :: earlier, .gap⟩ rest := by
  -- One case for each way to write a character; what was read before it is generalized.
  induction isWritten generalizing read with
  | nil =>
    rw [List.append_nil]
    exact run_cons rest rfl
  | @plain character meant written noQuote noEscape visible later ih =>
    have stepped : step ⟨earlier, .string read .none⟩ character =
        some ⟨earlier, .string (character :: read) .none⟩ := by
      dsimp only [step, readString]
      rw [if_neg noQuote, if_neg noEscape, if_neg (by omega)]
    rw [List.cons_append, run_cons _ stepped, ih, List.reverse_cons, List.append_assoc,
      List.singleton_append]
  | @letter letter character meant written escapes later ih =>
    have stepped : step ⟨earlier, .string read .letter⟩ letter =
        some ⟨earlier, .string (character :: read) .none⟩ := by
      have other : letter ≠ 'u' := by
        rintro rfl
        cases escapes
      dsimp only [step, readString]
      rw [if_neg other, escapes]
      rfl
    rw [List.cons_append, List.cons_append, run_cons _ rfl, run_cons _ stepped, ih,
      List.reverse_cons, List.append_assoc, List.singleton_append]
  | @unit a b c d unit meant written digits notHigh notLow later ih =>
    have ends : endHex read unit none = some (.string (Char.ofNat unit :: read) .none) := by
      rw [endHex, notHigh, notLow]
      rfl
    simp only [List.cons_append]
    rw [run_cons _ rfl, run_cons _ rfl, run_hex digits ends, ih, List.reverse_cons,
      List.append_assoc, List.singleton_append]
  | @pair a b c d e f g h high low meant written first isHigh second isLow later ih =>
    have begins : endHex read high none = some (.string read (.secondBackslash high)) := by
      rw [endHex, isHigh]
      rfl
    have ends : endHex read low (some high) = some
        (.string (Char.ofNat (0x10000 + (high - 0xD800) * 0x400 + (low - 0xDC00)) :: read)
          .none) := by
      rw [endHex, isLow]
      rfl
    simp only [List.cons_append]
    rw [run_cons _ rfl, run_cons _ rfl, run_hex first begins, run_cons _ rfl, run_cons _ rfl,
      run_hex second ends, ih, List.reverse_cons, List.append_assoc, List.singleton_append]

/-- A machine that is in the middle of a word or number. -/
theorem run_pending {earlier : List Token} {token : Token} {reading : Reading} {rest : List Char}
    (ends : ∀ character ∈ rest.head?,
      step ⟨earlier, reading⟩ character = step ⟨token :: earlier, .gap⟩ character)
    (finishes : finish ⟨earlier, reading⟩ = finish ⟨token :: earlier, .gap⟩) :
    run ⟨earlier, reading⟩ rest = run ⟨token :: earlier, .gap⟩ rest := by
  cases rest with
  | nil => exact finishes
  | cons character rest =>
    rw [run, run, List.foldlM_cons, List.foldlM_cons, ends character rfl]

end Lexer

/-- Whether a token is one that double precision holds. Only numbers can be too large. -/
def Token.fits : Token -> Bool
  | .number literal => isNumber literal.toList
  | _ => true

/-! ## Numbers -/

/-- Digits that are read are those that the text begins with, and there is one at least. -/
theorem digits?_eq_some {text digits rest : List Char} (found : digits? text = some (digits, rest)) :
    text = digits ++ rest ∧ (∀ digit ∈ digits, digit.isDigit = true) ∧
      text.head?.any Char.isDigit = true := by
  unfold digits? at found
  split at found
  · rename_i begins
    obtain ⟨rfl, rfl⟩ := Prod.mk.inj (Option.some.inj found)
    exact ⟨List.takeWhile_append_dropWhile.symm, fun _ => List.mem_takeWhile_imp, begins⟩
  · cases found

namespace Lexer

/-- A digit may stand in a number. -/
theorem isNumberCharacter_of_isDigit {character : Char} (isDigit : character.isDigit = true) :
    isNumberCharacter character = true := by
  rw [isNumberCharacter, isDigit]
  rfl

/-- What is read as an exponent has characters of numbers only. -/
theorem areNumberCharacters_of_exponent? {text : List Char} {exponent : Int}
    (found : exponent? text = some exponent) :
    ∀ character ∈ text, isNumberCharacter character = true := by
  have areDigits {digits : List Char} {value : Nat} (read : exponentDigits? digits = some value) :
      ∀ character ∈ digits, isNumberCharacter character = true := by
    unfold exponentDigits? at read
    split at read
    · rename_i found
      obtain ⟨rfl, areDigits, -⟩ := digits?_eq_some found
      rw [List.append_nil]
      exact fun digit member => isNumberCharacter_of_isDigit (areDigits digit member)
    · cases read
  unfold exponent? at found
  split at found
  · simp
  · rename_i letter text
    split at found
    · rename_i isLetter
      have first : isNumberCharacter letter = true := by
        rw [Bool.or_eq_true, decide_eq_true_iff, decide_eq_true_iff] at isLetter
        rcases isLetter with rfl | rfl <;> rfl
      refine List.forall_mem_cons.2 ⟨first, ?_⟩
      split at found
      · obtain ⟨_, negated, -⟩ := Option.map_eq_some_iff.1 found
        obtain ⟨value, read, -⟩ := Option.bind_eq_some_iff.1 negated
        exact List.forall_mem_cons.2 ⟨rfl, areDigits read⟩
      · obtain ⟨value, read, -⟩ := Option.map_eq_some_iff.1 found
        exact List.forall_mem_cons.2 ⟨rfl, areDigits read⟩
      · obtain ⟨value, read, -⟩ := Option.map_eq_some_iff.1 found
        exact areDigits read
    · cases found

/-- A magnitude begins with a digit, and consists of what a number may hold. -/
theorem areNumberCharacters_of_magnitude? {text : List Char}
    (isSome : (magnitude? text).isSome = true) :
    text.head?.any Char.isDigit = true ∧ ∀ character ∈ text, isNumberCharacter character = true := by
  obtain ⟨magnitude, found⟩ := Option.isSome_iff_exists.1 isSome
  unfold magnitude? at found
  obtain ⟨⟨whole, afterWhole⟩, wholes, more⟩ := Option.bind_eq_some_iff.1 found
  obtain ⟨rfl, areDigits, begins⟩ := digits?_eq_some wholes
  refine ⟨begins, List.forall_mem_append.2
    ⟨fun digit member => isNumberCharacter_of_isDigit (areDigits digit member), ?_⟩⟩
  dsimp only at more
  split at more
  · cases more
  · obtain ⟨⟨fraction, afterFraction⟩, splits, more⟩ := Option.bind_eq_some_iff.1 more
    obtain ⟨exponent, raised, -⟩ := Option.bind_eq_some_iff.1 more
    have last := areNumberCharacters_of_exponent? raised
    unfold fraction? at splits
    split at splits
    · obtain ⟨rfl, areDigits, -⟩ := digits?_eq_some splits
      refine List.forall_mem_cons.2 ⟨rfl, List.forall_mem_append.2 ⟨?_, last⟩⟩
      exact fun digit member => isNumberCharacter_of_isDigit (areDigits digit member)
    · obtain ⟨-, rfl⟩ := Prod.mk.inj (Option.some.inj splits)
      exact last

/-- A numeral begins as a number does, and consists of what a number may hold. -/
theorem exists_cons_of_isNumeral {text : List Char} (isNumeral : IsNumeral text) :
    ∃ first rest, text = first :: rest ∧ (first.isDigit || first = '-') = true ∧
      ∀ character ∈ text, isNumberCharacter character = true := by
  obtain ⟨begins, areCharacters⟩ := areNumberCharacters_of_magnitude? isNumeral
  cases text with
  | nil => cases begins
  | cons first rest =>
    by_cases minus : first = '-'
    · subst minus
      exact ⟨'-', rest, rfl, rfl, List.forall_mem_cons.2 ⟨rfl, areCharacters⟩⟩
    · rw [unsigned_of_ne fun _ same => minus (List.cons.inj same).1] at begins areCharacters
      rw [List.head?_cons, Option.any_some] at begins
      exact ⟨first, rest, rfl, by rw [begins]; rfl, areCharacters⟩

/-! ## Tokens -/

/-- A word goes on with small letters. -/
theorem goesOn_of_word {word : List Char} {token : Token} (found : wordToken? word = some token)
    (character : Char) : token.goesOn character = character.isLower := by
  have goesOn : ∀ pair ∈ words, pair.2.goesOn character = character.isLower := by
    simp only [words, List.forall_mem_cons]
    exact ⟨rfl, rfl, rfl, by simp⟩
  exact goesOn _ (mem_words found)

/-- A word that nothing goes on with is read as its token. -/
theorem run_word {earlier : List Token} {word : List Char} {token : Token} {rest : List Char}
    (found : wordToken? word = some token)
    (ends : ∀ character ∈ rest.head?, token.goesOn character = false) :
    run ⟨earlier, .gap⟩ (word ++ rest) = run ⟨token :: earlier, .gap⟩ rest := by
  have pending : ∀ pair ∈ words,
      run ⟨earlier, .gap⟩ (pair.1 ++ rest) = run ⟨earlier, .word pair.1.reverse⟩ rest := by
    simp only [words, List.forall_mem_cons]
    exact ⟨rfl, rfl, rfl, by simp⟩
  rw [pending _ (mem_words found)]
  refine run_pending (fun character member => ?_) ?_
  · have stops := ends character member
    rw [goesOn_of_word found] at stops
    dsimp only [step]
    rw [stops, List.reverse_reverse, found]
    rfl
  · dsimp only [finish]
    rw [List.reverse_reverse, found]
    rfl

/-- What begins as a number does begins a number. -/
theorem beginToken_number (tokens : List Token) {first : Char}
    (begins : (first.isDigit || first = '-') = true) (isCharacter : isNumberCharacter first = true) :
    beginToken tokens first = some ⟨tokens, .number [first]⟩ := by
  have noGap : isGap first = false := by
    rw [Bool.eq_false_iff]
    intro isGap
    rw [Lexer.isGap] at isGap
    simp only [Bool.or_eq_true, beq_iff_eq] at isGap
    rcases isGap with ((rfl | rfl) | rfl) | rfl <;> cases isCharacter
  have noQuote : first ≠ '"' := by
    rintro rfl
    cases isCharacter
  rw [beginToken, noGap, if_neg (by decide), if_neg noQuote, if_pos begins]

/-- A numeral is read to its end. -/
theorem run_numeral {earlier : List Token} {text : List Char} (isNumeral : IsNumeral text)
    (rest : List Char) :
    run ⟨earlier, .gap⟩ (text ++ rest) = run ⟨earlier, .number text.reverse⟩ rest := by
  obtain ⟨first, later, rfl, begins, areCharacters⟩ := exists_cons_of_isNumeral isNumeral
  have begun : step ⟨earlier, .gap⟩ first = some ⟨earlier, .number [first]⟩ :=
    beginToken_number earlier begins (List.forall_mem_cons.1 areCharacters).1
  have goes (read later : List Char)
      (areCharacters : ∀ character ∈ later, isNumberCharacter character = true) :
      run ⟨earlier, .number read⟩ (later ++ rest) =
        run ⟨earlier, .number (later.reverse ++ read)⟩ rest := by
    induction later generalizing read with
    | nil => rfl
    | cons character later ih =>
      obtain ⟨isCharacter, areCharacters⟩ := List.forall_mem_cons.1 areCharacters
      have stepped : step ⟨earlier, .number read⟩ character =
          some ⟨earlier, .number (character :: read)⟩ := by
        dsimp only [step]
        rw [if_pos isCharacter]
      rw [List.cons_append, run_cons _ stepped, ih _ areCharacters, List.reverse_cons,
        List.append_assoc, List.singleton_append]
  rw [List.cons_append, run_cons _ begun, goes _ _ (List.forall_mem_cons.1 areCharacters).2,
    List.reverse_cons]

/-- A numeral that nothing goes on with is read as a number, if it is one. -/
theorem run_number {earlier : List Token} {text rest : List Char} (isNumeral : IsNumeral text)
    (ends : ∀ character ∈ rest.head?, isNumberCharacter character = false) :
    run ⟨earlier, .gap⟩ (text ++ rest) =
      if isNumber text then run ⟨.number (String.ofList text) :: earlier, .gap⟩ rest else none := by
  rw [run_numeral isNumeral]
  split
  · rename_i fits
    have found : numberToken? text = some (.number (String.ofList text)) := by
      rw [numberToken?, if_pos fits]
    refine run_pending (fun character member => ?_) ?_
    · dsimp only [step]
      rw [ends character member, List.reverse_reverse, found]
      rfl
    · dsimp only [finish]
      rw [List.reverse_reverse, found]
      rfl
  · rename_i tooLarge
    have lost : numberToken? text = none := by rw [numberToken?, if_neg tooLarge]
    cases rest with
    | nil =>
      dsimp only [run, List.foldlM_nil, finish]
      change ((numberToken? text.reverse.reverse).map _) = none
      rw [List.reverse_reverse, lost]
      rfl
    | cons character rest =>
      have stepped : step ⟨earlier, .number text.reverse⟩ character = none := by
        dsimp only [step]
        rw [ends character rfl, List.reverse_reverse, lost]
        rfl
      rw [run, List.foldlM_cons, stepped]
      rfl

/-- A punctuation mark is a token by itself. -/
theorem step_mark {earlier : List Token} {character : Char} {token : Token}
    (found : punctuation? character = some token) :
    step ⟨earlier, .gap⟩ character = some ⟨token :: earlier, .gap⟩ := by
  have steps : ∀ pair ∈ marks,
      step ⟨earlier, .gap⟩ pair.1 = some ⟨pair.2 :: earlier, .gap⟩ := by
    simp only [marks, List.forall_mem_cons]
    exact ⟨rfl, rfl, rfl, rfl, rfl, rfl, by simp⟩
  exact steps _ (mem_marks found)

theorem fits_of_mark {character : Char} {token : Token}
    (found : punctuation? character = some token) : token.fits = true := by
  have fits : ∀ pair ∈ marks, pair.2.fits = true := by decide
  exact fits _ (mem_marks found)

theorem fits_of_word {word : List Char} {token : Token} (found : wordToken? word = some token) :
    token.fits = true := by
  have fits : ∀ pair ∈ words, pair.2.fits = true := by decide
  exact fits _ (mem_words found)

/-- The machine finds the tokens of a row, unless a number among them is too large. -/
theorem run_tokens {tokens : List Token} {text : List Char} (isText : IsText tokens text)
    (earlier : List Token) :
    run ⟨earlier, .gap⟩ text =
      if tokens.all Token.fits then some (earlier.reverse ++ tokens) else none := by
  -- The tokens are read in order. A number that is too large is where reading can fail.
  induction isText generalizing earlier with
  | nil =>
    rw [List.append_nil]
    rfl
  | @gap tokens character rest isGap later ih =>
    have stepped : step ⟨earlier, .gap⟩ character = some ⟨earlier, .gap⟩ := by
      dsimp only [step]
      rw [beginToken, if_pos isGap]
    rw [run_cons _ stepped, ih]
  | @token token tokens written rest writes ends later ih =>
    have onward (fits : token.fits = true) :
        run ⟨token :: earlier, .gap⟩ rest =
          if (token :: tokens).all Token.fits then some (earlier.reverse ++ token :: tokens)
          else none := by
      rw [ih, List.all_cons, fits, Bool.true_and, List.reverse_cons, List.append_assoc,
        List.singleton_append]
    cases writes with
    | mark found =>
      rw [← onward (fits_of_mark found)]
      exact run_cons rest (step_mark found)
    | word found =>
      rw [← onward (fits_of_word found)]
      exact run_word found ends
    | number isNumeral =>
      have fits_eq : (Token.number (String.ofList written)).fits = isNumber written := by
        rw [Token.fits, String.toList_ofList]
      rw [run_number isNumeral ends]
      split
      · rename_i fits
        exact onward (fits_eq.trans fits)
      · rename_i tooLarge
        rw [Bool.not_eq_true] at tooLarge
        rw [List.all_cons, fits_eq, tooLarge]
        rfl
    | string isWritten =>
      rw [← onward rfl, List.cons_append, List.append_assoc, run_cons _ rfl]
      exact run_string isWritten [] rest

end Lexer

/-! ## Values -/

/-- A member of a new name comes last. -/
theorem insertMember_of_new {name : String} {members : List (String × Value)}
    (new : name ∉ members.map Prod.fst) (value : Value) :
    insertMember name value members = members ++ [(name, value)] := by
  induction members with
  | nil => rfl
  | cons first members ih =>
    obtain ⟨known, old⟩ := first
    rw [List.map_cons, List.mem_cons, not_or] at new
    rw [insertMember, if_neg (Ne.symm new.1), ih new.2, List.cons_append]

namespace Reader

/-- What the machine that reads tokens comes to. -/
def run (reader : Reader) (tokens : List Token) : Option Reader :=
  tokens.foldlM step reader

theorem run_cons {reader next : Reader} {token : Token} (rest : List Token)
    (stepped : reader.step token = some next) : reader.run (token :: rest) = next.run rest := by
  rw [run, List.foldlM_cons, stepped]
  rfl

/-- A value begins with the same tokens wherever it stands. -/
theorem run_atFirstItem {value : Value} (outer : List Frame) (rest : List Token) :
    run (.atFirstItem outer) (value.tokens ++ rest) =
      run (.atValue (.item [] :: outer)) (value.tokens ++ rest) := by
  have first : ∃ token tokens, value.tokens = token :: tokens ∧ token ≠ .closeArray := by
    cases value <;> rw [Value.tokens] <;> exact ⟨_, _, rfl, by simp⟩
  obtain ⟨token, tokens, shape, opens⟩ := first
  have same : step (.atFirstItem outer) token = step (.atValue (.item [] :: outer)) token := by
    rw [step, step, if_neg opens]
  rw [shape, List.cons_append, run, run, List.foldlM_cons, List.foldlM_cons, same]

/-- Whether the machine puts a value together from its tokens, on every stack that leaves room for
it. -/
def Reads (value : Value) (depth : Nat) : Prop :=
  ∀ (outer : List Frame) (rest : List Token), outer.length + depth ≤ depthLimit ->
    run (.atValue outer) (value.tokens ++ rest) = run (.past value outer) rest

/-- Items with commas between them are read as an array, behind those that were read before. -/
theorem run_items {depth : Nat} {items : List Value} (reads : ∀ item ∈ items, Reads item depth)
    {item : Value} (readsFirst : Reads item depth) (earlier : List Value) (outer : List Frame)
    (rest : List Token) (room : outer.length + (depth + 1) ≤ depthLimit) :
    run (.atValue (.item earlier :: outer))
        (separated (itemTokens (item :: items)) ++ .closeArray :: rest) =
      run (.past (.array (earlier.reverse ++ item :: items)) outer) rest := by
  have inside (earlier : List Value) :
      (Frame.item earlier :: outer).length + depth ≤ depthLimit := by
    rw [List.length_cons]
    omega
  induction items generalizing item earlier with
  | nil =>
    rw [itemTokens, itemTokens, separated, readsFirst _ _ (inside earlier)]
    refine run_cons rest ?_
    rw [step, afterValue, List.reverse_cons]
  | cons next items ih =>
    obtain ⟨readsNext, readsLater⟩ := List.forall_mem_cons.1 reads
    have onward := ih readsLater readsNext (item :: earlier)
    rw [itemTokens] at onward
    rw [itemTokens, itemTokens, separated, List.append_assoc, readsFirst _ _ (inside earlier),
      List.cons_append, run_cons _ rfl, onward, List.reverse_cons, List.append_assoc,
      List.singleton_append]
    simp

/-- Members with commas between them are read as an object, if their names are all different. -/
theorem run_members {depth : Nat} {members : List (String × Value)}
    (reads : ∀ member ∈ members, Reads member.2 depth) {name : String} {value : Value}
    (readsFirst : Reads value depth) (earlier : List (String × Value)) (outer : List Frame)
    (rest : List Token) (distinct : ((earlier ++ (name, value) :: members).map Prod.fst).Nodup)
    (room : outer.length + (depth + 1) ≤ depthLimit) :
    run (.atName earlier outer)
        (separated (memberTokens ((name, value) :: members)) ++ .closeObject :: rest) =
      run (.past (.object (earlier ++ (name, value) :: members)) outer) rest := by
  have inside (earlier : List (String × Value)) (name : String) :
      (Frame.member earlier name :: outer).length + depth ≤ depthLimit := by
    rw [List.length_cons]
    omega
  have new {earlier members : List (String × Value)} {name : String} {value : Value}
      (distinct : ((earlier ++ (name, value) :: members).map Prod.fst).Nodup) :
      insertMember name value earlier = earlier ++ [(name, value)] := by
    refine insertMember_of_new (fun known => ?_) value
    rw [List.map_append, List.map_cons, List.nodup_append] at distinct
    exact distinct.2.2 name known name (List.mem_cons_self ..) rfl
  induction members generalizing name value earlier with
  | nil =>
    rw [memberTokens, memberTokens, separated, List.cons_append, List.cons_append,
      run_cons _ rfl, run_cons _ rfl, readsFirst _ _ (inside earlier name)]
    refine run_cons rest ?_
    rw [step, afterValue, new distinct]
  | cons next members ih =>
    obtain ⟨readsNext, readsLater⟩ := List.forall_mem_cons.1 reads
    obtain ⟨name', value'⟩ := next
    have onward := ih readsLater readsNext (earlier ++ [(name, value)])
      (by rwa [List.append_assoc, List.singleton_append])
    have comma : step (.past value (.member earlier name :: outer)) .comma =
        some (.atName (earlier ++ [(name, value)]) outer) := by
      rw [step, afterValue, new distinct]
    rw [memberTokens] at onward
    rw [memberTokens, memberTokens, separated, List.cons_append, List.cons_append,
      List.cons_append, List.cons_append, run_cons _ rfl, run_cons _ rfl, List.append_assoc,
      readsFirst _ _ (inside earlier name), List.cons_append, run_cons _ comma, onward,
      List.append_assoc, List.singleton_append]
    simp

/-- The machine puts a sound value together from its tokens. -/
theorem reads_of_isSound {depth : Nat} {value : Value} (isSound : value.IsSound depth) :
    Reads value depth := by
  -- The induction is on the value; the room that is left for nesting shrinks with it.
  induction isSound with
  | null depth => exact fun outer rest _ => rfl
  | bool depth value => exact fun outer rest _ => rfl
  | number depth isNumeral => exact fun outer rest _ => rfl
  | string depth text => exact fun outer rest _ => rfl
  | @array depth items areSound ih =>
    intro outer rest room
    have opens : step (.atValue outer) .openArray = some (.atFirstItem outer) := by
      rw [step, beginValue, if_pos (by omega)]
    rw [Value.tokens, List.cons_append, run_cons _ opens, List.append_assoc]
    cases items with
    | nil => rfl
    | cons item items =>
      obtain ⟨readsFirst, reads⟩ := List.forall_mem_cons.1 ih
      refine Eq.trans ?_ (run_items reads readsFirst [] outer rest room)
      rw [itemTokens]
      cases items with
      | nil => exact run_atFirstItem outer _
      | cons next items =>
        rw [itemTokens, separated, List.append_assoc, List.append_assoc]
        · exact run_atFirstItem outer _
        · simp
  | @object depth members distinct areSound ih =>
    intro outer rest room
    have opens : step (.atValue outer) .openObject = some (.atFirstName outer) := by
      rw [step, beginValue, if_pos (by omega)]
    rw [Value.tokens, List.cons_append, run_cons _ opens, List.append_assoc]
    cases members with
    | nil => rfl
    | cons member members =>
      obtain ⟨readsFirst, reads⟩ := List.forall_mem_cons.1 ih
      obtain ⟨name, value⟩ := member
      refine Eq.trans ?_ (run_members reads readsFirst [] outer rest distinct room)
      cases members with
      | nil => rfl
      | cons next members => rfl

end Reader

/-- A text that writes a sound value is read as that value, unless one of its numbers is too large
for double precision. -/
theorem Value.IsSound.read? {depth : Nat} {value : Value} {text : String}
    (isSound : value.IsSound depth) (shallow : depth ≤ Reader.depthLimit)
    (written : value.IsWrittenBy text) :
    Json.read? text = if value.tokens.all Token.fits then some value else none := by
  have lexed := Lexer.run_tokens written []
  rw [Lexer.run] at lexed
  rw [Json.read?, tokens?, Lexer.start, lexed]
  split
  · have reads := Reader.reads_of_isSound isSound [] [] (by rwa [List.length_nil, Nat.zero_add])
    rw [List.append_nil, Reader.run, Reader.run] at reads
    rw [Option.bind_some, List.reverse_nil, List.nil_append, reads]
    rfl
  · rfl

end Relink.Json
