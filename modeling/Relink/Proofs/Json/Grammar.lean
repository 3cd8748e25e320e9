import Relink.Json.Reader

/-!
# The grammar of JSON text

A JSON text is a row of tokens with blanks around them, and a value is written by the tokens that
it is made of. The grammar says nothing of sizes: a number of any size is one, and arrays and
objects may lie inside each other as deep as they like.
-/

namespace Relink.Json

/-! ## Tokens -/

/-- The code unit that four hexadecimal digits write. -/
def codeUnit? (first second third fourth : Char) : Option Nat := do
  let first ← Lexer.hexValue? first
  let second ← Lexer.hexValue? second
  let third ← Lexer.hexValue? third
  let fourth ← Lexer.hexValue? fourth
  return ((first * 16 + second) * 16 + third) * 16 + fourth

/-- The marks, each with its token. -/
def marks : List (Char × Token) :=
  [('[', .openArray), (']', .closeArray), ('\x7b', .openObject), ('\x7d', .closeObject),
    (':', .colon), (',', .comma)]

theorem mem_marks {character : Char} {token : Token}
    (found : Lexer.punctuation? character = some token) : (character, token) ∈ marks := by
  unfold Lexer.punctuation? at found
  repeat' split at found
  all_goals cases found
  all_goals
    rename_i same
    subst same
    decide

/-- The words, each with its token. -/
def words : List (List Char × Token) :=
  [("null".toList, .null), ("true".toList, .bool true), ("false".toList, .bool false)]

theorem mem_words {word : List Char} {token : Token}
    (found : Lexer.wordToken? word = some token) : (word, token) ∈ words := by
  unfold Lexer.wordToken? at found
  repeat' split at found
  all_goals cases found
  all_goals
    rename_i same
    subst same
    decide

/-- Whether characters are written, inside a string, by other characters. -/
inductive IsWritten : List Char -> List Char -> Prop
  | nil : IsWritten [] []
  /-- A character that stands for itself. -/
  | plain {character : Char} {meant written : List Char} (noQuote : character ≠ '"')
      (noEscape : character ≠ '\\') (visible : 0x20 ≤ character.toNat)
      (later : IsWritten meant written) : IsWritten (character :: meant) (character :: written)
  | letter {letter character : Char} {meant written : List Char}
      (escapes : Lexer.escaped? letter = some character) (later : IsWritten meant written) :
      IsWritten (character :: meant) ('\\' :: letter :: written)
  | unit {a b c d : Char} {unit : Nat} {meant written : List Char}
      (digits : codeUnit? a b c d = some unit) (notHigh : Lexer.isHighSurrogate unit = false)
      (notLow : Lexer.isLowSurrogate unit = false) (later : IsWritten meant written) :
      IsWritten (Char.ofNat unit :: meant) ('\\' :: 'u' :: a :: b :: c :: d :: written)
  /-- A character beyond the code units, by the two halves of a surrogate pair. -/
  | pair {a b c d e f g h : Char} {high low : Nat} {meant written : List Char}
      (first : codeUnit? a b c d = some high) (isHigh : Lexer.isHighSurrogate high = true)
      (second : codeUnit? e f g h = some low) (isLow : Lexer.isLowSurrogate low = true)
      (later : IsWritten meant written) :
      IsWritten (Char.ofNat (0x10000 + (high - 0xD800) * 0x400 + (low - 0xDC00)) :: meant)
        ('\\' :: 'u' :: a :: b :: c :: d :: '\\' :: 'u' :: e :: f :: g :: h :: written)

/-- A text without the sign of a negative number. -/
def unsigned : List Char -> List Char
  | '-' :: text => text
  | text => text

theorem unsigned_of_ne {text : List Char} (other : ∀ rest, text ≠ '-' :: rest) :
    unsigned text = text := by
  unfold unsigned
  split
  · exact absurd rfl (other _)
  · rfl

/-- Whether a text is a number, of whatever size. -/
def IsNumeral (text : List Char) : Prop :=
  (magnitude? (unsigned text)).isSome = true

/-- Whether a token is written by a text. -/
inductive Token.Writes : Token -> List Char -> Prop
  | mark {character : Char} {token : Token} (found : Lexer.punctuation? character = some token) :
      Token.Writes token [character]
  | word {word : List Char} {token : Token} (found : Lexer.wordToken? word = some token) :
      Token.Writes token word
  | number {text : List Char} (isNumeral : IsNumeral text) :
      Token.Writes (.number (String.ofList text)) text
  | string {meant written : List Char} (isWritten : IsWritten meant written) :
      Token.Writes (.string (String.ofList meant)) ('"' :: (written ++ ['"']))

/-- Whether a token that is followed by a character would go on with it. -/
def Token.goesOn : Token -> Char -> Bool
  | .null, character | .bool _, character => character.isLower
  | .number _, character => Lexer.isNumberCharacter character
  | _, _ => false

/-- Whether a text is a row of tokens. -/
inductive IsText : List Token -> List Char -> Prop
  | nil : IsText [] []
  | gap {tokens : List Token} {character : Char} {rest : List Char}
      (isGap : Lexer.isGap character = true) (later : IsText tokens rest) :
      IsText tokens (character :: rest)
  | token {token : Token} {tokens : List Token} {written rest : List Char}
      (writes : token.Writes written)
      (ends : ∀ character ∈ rest.head?, token.goesOn character = false)
      (later : IsText tokens rest) : IsText (token :: tokens) (written ++ rest)

/-- Whether no token goes on with a character. -/
def isBreak (character : Char) : Bool :=
  !character.isLower && !Lexer.isNumberCharacter character

theorem goesOn_of_isBreak {character : Char} (breaks : isBreak character = true) (token : Token) :
    token.goesOn character = false := by
  rw [isBreak, Bool.and_eq_true, Bool.not_eq_true', Bool.not_eq_true'] at breaks
  cases token with
  | null | bool _ => exact breaks.1
  | number _ => exact breaks.2
  | _ => rfl

/-- Two rows of tokens are one, if the second begins with a character that ends the first. -/
theorem IsText.append {tokens tokens' : List Token} {text text' : List Char}
    (first : IsText tokens text) (second : IsText tokens' text')
    (breaks : ∀ character ∈ text'.head?, isBreak character = true) :
    IsText (tokens ++ tokens') (text ++ text') := by
  induction first with
  | nil => exact second
  | gap isGap later ih => exact .gap isGap ih
  | @token token tokens written rest writes ends later ih =>
    rw [List.append_assoc]
    refine .token writes ?_ ih
    intro character member
    rw [List.head?_append, Option.mem_def, Option.or_eq_some_iff] at member
    rcases member with here | ⟨-, there⟩
    · exact ends character here
    · exact goesOn_of_isBreak (breaks character there) token

theorem IsText.blanks {tokens : List Token} {text blanks : List Char} (isText : IsText tokens text)
    (areGaps : ∀ character ∈ blanks, Lexer.isGap character = true) :
    IsText tokens (blanks ++ text) := by
  induction blanks with
  | nil => exact isText
  | cons character blanks ih =>
    obtain ⟨isGap, areGaps⟩ := List.forall_mem_cons.1 areGaps
    exact .gap isGap (ih areGaps)

/-! ## Values -/

/-- Rows of tokens as one, a comma between each two. -/
def separated : List (List Token) -> List Token
  | [] => []
  | [tokens] => tokens
  | tokens :: rest => tokens ++ .comma :: separated rest

mutual

/-- The tokens that a value is made of. -/
def Value.tokens : Value -> List Token
  | .null => [.null]
  | .bool value => [.bool value]
  | .number literal => [.number literal]
  | .string text => [.string text]
  | .array items => .openArray :: (separated (itemTokens items) ++ [.closeArray])
  | .object members => .openObject :: (separated (memberTokens members) ++ [.closeObject])

/-- The tokens of the items of an array. -/
def itemTokens : List Value -> List (List Token)
  | [] => []
  | item :: rest => item.tokens :: itemTokens rest

/-- The tokens of the members of an object. -/
def memberTokens : List (String × Value) -> List (List Token)
  | [] => []
  | (name, value) :: rest => (.string name :: .colon :: value.tokens) :: memberTokens rest

end

/-- Whether a text writes a value, and nothing else. -/
def Value.IsWrittenBy (value : Value) (text : String) : Prop :=
  IsText value.tokens text.toList

/-- Whether a value can be told in JSON, by arrays and objects of a limited depth: its numbers are
numerals, and no object has two members of one name. -/
inductive Value.IsSound : Nat -> Value -> Prop
  | null (depth : Nat) : IsSound depth .null
  | bool (depth : Nat) (value : Bool) : IsSound depth (.bool value)
  | number (depth : Nat) {literal : String} (isNumeral : IsNumeral literal.toList) :
      IsSound depth (.number literal)
  | string (depth : Nat) (text : String) : IsSound depth (.string text)
  | array {depth : Nat} {items : List Value} (areSound : ∀ item ∈ items, IsSound depth item) :
      IsSound (depth + 1) (.array items)
  | object {depth : Nat} {members : List (String × Value)}
      (distinct : (members.map Prod.fst).Nodup)
      (areSound : ∀ member ∈ members, IsSound depth member.2) :
      IsSound (depth + 1) (.object members)

end Relink.Json
