import Mathlib.Data.List.TakeWhile
import Relink.Proofs.Json.Reading

/-!
# What a JSON text writes is unique

No text is two rows of tokens, and no row of tokens makes up two values. Neither does it matter
what comes after a token or a value: where one ends can be told from its beginning.
-/

namespace Relink.Json

/-! ## Tokens -/

theorem escaped?_unit : Lexer.escaped? 'u' = none :=
  rfl

/-- What is written up to a quote is unique, and so is the quote that it is written up to. -/
theorem IsWritten.unique {meant meant' written written' rest rest' : List Char}
    (first : IsWritten meant written) (second : IsWritten meant' written')
    (same : written ++ '"' :: rest = written' ++ '"' :: rest') : meant = meant' ∧ rest = rest' := by
  -- The first character says whether one stands for itself, the second one which escape it is, and
  -- a code unit whether another one must follow. So both are written in the same way, up to there.
  induction first generalizing meant' written' with
  | nil => cases second <;> grind
  | plain noQuote noEscape visible later ih => cases second <;> grind
  | letter escapes later ih => cases second <;> grind [escaped?_unit]
  | unit digits notHigh notLow later ih => cases second <;> grind [escaped?_unit]
  | pair first isHigh second' isLow later ih =>
    cases second <;> simp only [List.nil_append, List.cons_append, List.cons.injEq] at same <;>
      grind [escaped?_unit]

/-- What goes on as long as it can is unique. -/
theorem eq_of_extent {goesOn : Char -> Bool} {written written' rest rest' : List Char}
    (inside : ∀ character ∈ written, goesOn character = true)
    (inside' : ∀ character ∈ written', goesOn character = true)
    (ends : ∀ character ∈ rest.head?, goesOn character = false)
    (ends' : ∀ character ∈ rest'.head?, goesOn character = false)
    (same : written ++ rest = written' ++ rest') : written = written' ∧ rest = rest' := by
  have extent {written rest : List Char} (inside : ∀ character ∈ written, goesOn character = true)
      (ends : ∀ character ∈ rest.head?, goesOn character = false) :
      (written ++ rest).takeWhile goesOn = written := by
    rw [List.takeWhile_append_of_pos inside]
    cases rest with
    | nil => rw [List.takeWhile_nil, List.append_nil]
    | cons character rest =>
      rw [List.takeWhile_cons, ends character rfl, if_neg (by decide), List.append_nil]
  obtain rfl : written = written' := by
    rw [← extent inside ends, same, extent inside' ends']
  exact ⟨rfl, List.append_cancel_left same⟩

/-- The machine after the first character of a token. -/
def Token.begun (first : Char) : Token -> Lexer
  | .null | .bool _ => ⟨[], .word [first]⟩
  | .number _ => ⟨[], .number [first]⟩
  | .string _ => ⟨[], .string [] .none⟩
  | mark => ⟨[mark], .gap⟩

/-- A mark is begun and done. -/
theorem begun_of_mark {character : Char} {token : Token}
    (found : Lexer.punctuation? character = some token) (first : Char) :
    token.begun first = ⟨[token], .gap⟩ := by
  have begun : ∀ pair ∈ marks, pair.2.begun first = ⟨[pair.2], .gap⟩ := by
    simp [marks, Token.begun]
  exact begun _ (mem_marks found)

/-- A word is begun with its first letter. -/
theorem begun_of_word {word : List Char} {token : Token}
    (found : Lexer.wordToken? word = some token) (first : Char) :
    token.begun first = ⟨[], .word [first]⟩ := by
  have begun : ∀ pair ∈ words, pair.2.begun first = ⟨[], .word [first]⟩ := by
    simp [words, Token.begun]
  exact begun _ (mem_words found)

/-- Words are written with small letters. -/
theorem isLower_of_word {word : List Char} {token : Token}
    (found : Lexer.wordToken? word = some token) :
    ∀ character ∈ word, character.isLower = true := by
  have areLower : ∀ pair ∈ words, pair.1.all Char.isLower = true := by
    simp only [words, List.forall_mem_cons]
    exact ⟨rfl, rfl, rfl, by simp⟩
  exact List.all_eq_true.1 (areLower _ (mem_words found))

/-- The first character of a token says of what kind it is. -/
theorem Token.Writes.begins {token : Token} {written : List Char} (writes : token.Writes written) :
    ∃ first later, written = first :: later ∧
      Lexer.beginToken [] first = some (token.begun first) := by
  cases writes with
  | @mark character _ found =>
    have begins : ∀ pair ∈ marks, Lexer.beginToken [] pair.1 = some ⟨[pair.2], .gap⟩ := by
      simp only [marks, List.forall_mem_cons]
      exact ⟨rfl, rfl, rfl, rfl, rfl, rfl, by simp⟩
    exact ⟨character, [], rfl, by rw [begins _ (mem_marks found), begun_of_mark found]⟩
  | word found =>
    have begins : ∀ pair ∈ words, ∃ first later, pair.1 = first :: later ∧
        Lexer.beginToken [] first = some ⟨[], .word [first]⟩ := by
      simp only [words, List.forall_mem_cons]
      exact ⟨⟨_, _, rfl, rfl⟩, ⟨_, _, rfl, rfl⟩, ⟨_, _, rfl, rfl⟩, by simp⟩
    obtain ⟨first, later, shape, begun⟩ := begins _ (mem_words found)
    exact ⟨first, later, shape, by rw [begun, begun_of_word found]⟩
  | number isNumeral =>
    obtain ⟨first, later, shape, begins, areCharacters⟩ :=
      Lexer.exists_cons_of_isNumeral isNumeral
    rw [shape] at areCharacters
    exact ⟨first, later, shape,
      Lexer.beginToken_number [] begins (List.forall_mem_cons.1 areCharacters).1⟩
  | string isWritten => exact ⟨'"', _, rfl, rfl⟩

/-- A token is told from every other one, and from what comes after it. -/
theorem Token.Writes.unique {token token' : Token} {written written' rest rest' : List Char}
    (writes : token.Writes written) (writes' : token'.Writes written')
    (ends : ∀ character ∈ rest.head?, token.goesOn character = false)
    (ends' : ∀ character ∈ rest'.head?, token'.goesOn character = false)
    (same : written ++ rest = written' ++ rest') : token = token' ∧ rest = rest' := by
  obtain ⟨first, later, shape, begun⟩ := writes.begins
  obtain ⟨first', later', shape', begun'⟩ := writes'.begins
  obtain rfl : first = first' := by
    rw [shape, shape'] at same
    exact (List.cons.inj same).1
  -- The first character decides the kind of the token: in what it begins, kinds never agree.
  have alike := Option.some.inj (begun.symm.trans begun')
  cases writes with
  | mark found =>
    rw [begun_of_mark found] at alike
    cases writes' with
    | mark found' =>
      rw [begun_of_mark found'] at alike
      exact ⟨(List.cons.inj (Lexer.mk.inj alike).1).1, (List.cons.inj same).2⟩
    | word found' =>
      rw [begun_of_word found'] at alike
      cases alike
    | number isNumeral => cases alike
    | string isWritten => cases alike
  | word found =>
    rw [begun_of_word found] at alike
    cases writes' with
    | mark found' =>
      rw [begun_of_mark found'] at alike
      cases alike
    | word found' =>
      simp only [Lexer.goesOn_of_word found] at ends
      simp only [Lexer.goesOn_of_word found'] at ends'
      obtain ⟨rfl, rest_eq⟩ :=
        eq_of_extent (isLower_of_word found) (isLower_of_word found') ends ends' same
      exact ⟨Option.some.inj (found.symm.trans found'), rest_eq⟩
    | number isNumeral => cases alike
    | string isWritten => cases alike
  | number isNumeral =>
    cases writes' with
    | mark found' =>
      rw [begun_of_mark found'] at alike
      cases alike
    | word found' =>
      rw [begun_of_word found'] at alike
      cases alike
    | number isNumeral' =>
      obtain ⟨-, -, -, -, inside⟩ := Lexer.exists_cons_of_isNumeral isNumeral
      obtain ⟨-, -, -, -, inside'⟩ := Lexer.exists_cons_of_isNumeral isNumeral'
      obtain ⟨rfl, rest_eq⟩ := eq_of_extent inside inside' ends ends' same
      exact ⟨rfl, rest_eq⟩
    | string isWritten => cases alike
  | string isWritten =>
    cases writes' with
    | mark found' =>
      rw [begun_of_mark found'] at alike
      cases alike
    | word found' =>
      rw [begun_of_word found'] at alike
      cases alike
    | number isNumeral => cases alike
    | string isWritten' =>
      simp only [List.cons_append, List.append_assoc, List.cons.injEq, true_and,
        List.nil_append] at same
      obtain ⟨rfl, rest_eq⟩ := isWritten.unique isWritten' same
      exact ⟨rfl, rest_eq⟩

/-- No token begins with a gap. -/
theorem Token.Writes.not_gap {token : Token} {written rest rest' : List Char} {character : Char}
    (writes : token.Writes written) (isGap : Lexer.isGap character = true) :
    written ++ rest ≠ character :: rest' := by
  obtain ⟨first, later, rfl, begun⟩ := writes.begins
  intro same
  obtain ⟨rfl, -⟩ := List.cons.inj same
  rw [Lexer.beginToken, if_pos isGap] at begun
  cases token <;> cases begun

/-- A text is one row of tokens at most. -/
theorem IsText.unique {tokens tokens' : List Token} {text : List Char}
    (first : IsText tokens text) (second : IsText tokens' text) : tokens = tokens' := by
  induction first generalizing tokens' with
  | nil =>
    generalize same : ([] : List Char) = text at second
    cases second with
    | nil => rfl
    | gap isGap later => cases same
    | token writes ends later =>
      obtain ⟨first, later, rfl, -⟩ := writes.begins
      cases same
  | @gap tokens character rest isGap later ih =>
    generalize same : character :: rest = text at second
    cases second with
    | nil => cases same
    | gap isGap' later' =>
      obtain ⟨-, rfl⟩ := List.cons.inj same
      exact ih later'
    | token writes ends later' => exact absurd same.symm (writes.not_gap isGap)
  | @token token tokens written rest writes ends later ih =>
    generalize same : written ++ rest = text at second
    cases second with
    | nil =>
      obtain ⟨first, later, rfl, -⟩ := writes.begins
      cases same
    | gap isGap later' => exact absurd same (writes.not_gap isGap)
    | token writes' ends' later' =>
      obtain ⟨rfl, rfl⟩ := writes.unique writes' ends ends' same
      rw [ih later']

/-! ## Values -/

/-- Rows with commas between them are the first one, and the others with a comma in front. -/
theorem separated_cons (row : List Token) (rows : List (List Token)) :
    separated (row :: rows) = row ++ rows.flatMap (Token.comma :: ·) := by
  induction rows generalizing row with
  | nil => rw [separated, List.flatMap_nil, List.append_nil]
  | cons next rows ih =>
    rw [separated, ih, List.flatMap_cons, List.cons_append]
    simp

section

variable {α : Type} {row : α -> List Token} {closing : Token} {items : List α}

/-- Whether what a row is of can be told from its beginning. -/
def IsApart (row : α -> List Token) (item : α) : Prop :=
  ∀ other rest rest', row item ++ rest = row other ++ rest' -> item = other ∧ rest = rest'

/-- Rows that follow on commas are told apart, up to the mark that closes them. -/
theorem eq_of_following (noComma : closing ≠ .comma) (areApart : ∀ item ∈ items, IsApart row item)
    {items' : List α} {rest rest' : List Token}
    (same : (items.map row).flatMap (Token.comma :: ·) ++ closing :: rest =
      (items'.map row).flatMap (Token.comma :: ·) ++ closing :: rest') :
    items = items' ∧ rest = rest' := by
  induction items generalizing items' with
  | nil =>
    cases items' with
    | nil => exact ⟨rfl, (List.cons.inj same).2⟩
    | cons item' items' => exact absurd (List.cons.inj same).1 noComma
  | cons item items ih =>
    obtain ⟨isApart, areApart⟩ := List.forall_mem_cons.1 areApart
    cases items' with
    | nil => exact absurd (List.cons.inj same).1.symm noComma
    | cons item' items' =>
      simp only [List.map_cons, List.flatMap_cons, List.cons_append, List.append_assoc,
        List.cons.injEq, true_and] at same
      obtain ⟨rfl, later⟩ := isApart item' _ _ same
      obtain ⟨rfl, rest_eq⟩ := ih areApart later
      exact ⟨rfl, rest_eq⟩

/-- Rows with commas between them are told apart, up to the mark that closes them, if none begins
with that mark. -/
theorem eq_of_separated (noComma : closing ≠ .comma)
    (begins : ∀ item : α, ∃ first later, row item = first :: later ∧ first ≠ closing)
    (areApart : ∀ item ∈ items, IsApart row item) {items' : List α} {rest rest' : List Token}
    (same : separated (items.map row) ++ closing :: rest =
      separated (items'.map row) ++ closing :: rest') : items = items' ∧ rest = rest' := by
  cases items with
  | nil =>
    cases items' with
    | nil => exact ⟨rfl, (List.cons.inj same).2⟩
    | cons item' items' =>
      obtain ⟨first, later, shape, other⟩ := begins item'
      rw [List.map_cons, separated_cons, shape] at same
      exact absurd (List.cons.inj same).1.symm other
  | cons item items =>
    obtain ⟨isApart, areApart⟩ := List.forall_mem_cons.1 areApart
    cases items' with
    | nil =>
      obtain ⟨first, later, shape, other⟩ := begins item
      rw [List.map_cons, separated_cons, shape] at same
      exact absurd (List.cons.inj same).1 other
    | cons item' items' =>
      rw [List.map_cons, separated_cons, List.map_cons, separated_cons, List.append_assoc,
        List.append_assoc] at same
      obtain ⟨rfl, later⟩ := isApart item' _ _ same
      obtain ⟨rfl, rest_eq⟩ := eq_of_following noComma areApart later
      exact ⟨rfl, rest_eq⟩

end

/-- The tokens of items are those of each. -/
theorem itemTokens_eq (items : List Value) : itemTokens items = items.map Value.tokens := by
  induction items with
  | nil => rfl
  | cons item items ih => rw [itemTokens, ih, List.map_cons]

/-- The tokens of a member. -/
def memberRow (member : String × Value) : List Token :=
  .string member.1 :: .colon :: member.2.tokens

/-- The tokens of members are those of each. -/
theorem memberTokens_eq (members : List (String × Value)) :
    memberTokens members = members.map memberRow := by
  induction members with
  | nil => rfl
  | cons member members ih => rw [memberTokens, ih, List.map_cons, memberRow]

/-- A value has a token, and does not begin with the end of an array. -/
theorem Value.exists_tokens (value : Value) :
    ∃ first later, value.tokens = first :: later ∧ first ≠ .closeArray := by
  cases value <;> rw [tokens] <;> exact ⟨_, _, rfl, by simp⟩

/-- A sound value is told from every other one by its tokens. -/
theorem Value.IsSound.isApart {depth : Nat} {value : Value} (isSound : value.IsSound depth) :
    IsApart Value.tokens value := by
  -- The first token tells the kind of a value, and the parts of a value are told apart in turn.
  induction isSound with
  | null depth =>
    intro other rest rest' same
    cases other <;> simp_all [Value.tokens]
  | bool depth value =>
    intro other rest rest' same
    cases other <;> simp_all [Value.tokens]
  | number depth isNumeral =>
    intro other rest rest' same
    cases other <;> simp_all [Value.tokens]
  | string depth text =>
    intro other rest rest' same
    cases other <;> simp_all [Value.tokens]
  | array areSound ih =>
    intro other rest rest' same
    cases other with
    | array items' =>
      simp only [Value.tokens, itemTokens_eq, List.cons_append, List.append_assoc, List.cons.injEq,
        true_and, List.nil_append] at same
      obtain ⟨rfl, rest_eq⟩ := eq_of_separated (by simp) Value.exists_tokens ih same
      exact ⟨rfl, rest_eq⟩
    | _ => simp [Value.tokens] at same
  | object distinct areSound ih =>
    intro other rest rest' same
    cases other with
    | object members' =>
      simp only [Value.tokens, memberTokens_eq, List.cons_append, List.append_assoc,
        List.cons.injEq, true_and, List.nil_append] at same
      refine (eq_of_separated (by simp) (fun member => ⟨_, _, rfl, by simp⟩) ?_ same).imp
        (congrArg Value.object) id
      intro member inside other rest rest' same
      simp only [List.cons_append, List.cons.injEq, Token.string.injEq, true_and] at same
      obtain ⟨value, rest_eq⟩ := ih member inside other.2 rest rest' same.2
      exact ⟨Prod.ext same.1 value, rest_eq⟩
    | _ => simp [Value.tokens] at same

/-- A text that writes a sound value writes no other one. -/
theorem Value.IsSound.eq_of_isWrittenBy {depth : Nat} {value value' : Value} {text : String}
    (isSound : value.IsSound depth) (written : value.IsWrittenBy text)
    (written' : value'.IsWrittenBy text) : value = value' := by
  refine (isSound.isApart value' [] [] ?_).1
  rw [written.unique written']

/-- No value is written by nothing. -/
theorem Value.not_isWrittenBy_empty (value : Value) : ¬value.IsWrittenBy "" := by
  intro written
  obtain ⟨first, later, shape, -⟩ := value.exists_tokens
  have none_ := IsText.nil.unique written
  rw [shape] at none_
  cases none_

end Relink.Json
