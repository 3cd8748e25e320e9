import Mathlib.Data.List.Forall2
import Mathlib.Data.List.TakeWhile
import Relink.Json.Printer
import Relink.Proofs.Json.Grammar
import Relink.Proofs.Path.Spelling

/-!
# The printed form of a value

The printed form of a value is a JSON text that writes the value, on whatever level it stands.
-/

namespace Relink.Json

/-! ## Strings and numbers -/

/-- A control character is written by its code. -/
theorem codeUnit?_hexDigit {value : Nat} (small : value < 0x20) :
    codeUnit? '0' '0' (hexDigit (value / 16)) (hexDigit (value % 16)) = some value := by
  have all : ∀ value < 0x20,
      codeUnit? '0' '0' (hexDigit (value / 16)) (hexDigit (value % 16)) = some value := by
    decide
  exact all value small

theorem isWritten_escape (character : Char) {meant written : List Char}
    (later : IsWritten meant written) :
    IsWritten (character :: meant) (escape character ++ written) := by
  unfold escape
  split
  · rename_i same
    subst same
    exact .letter rfl later
  split
  · rename_i same
    subst same
    exact .letter rfl later
  split
  · rename_i same
    subst same
    exact .letter rfl later
  split
  · rename_i same
    subst same
    exact .letter rfl later
  split
  · rename_i same
    subst same
    exact .letter rfl later
  split
  · rename_i same
    subst same
    exact .letter rfl later
  split
  · rename_i same
    subst same
    exact .letter rfl later
  split
  · rename_i small
    have unit := @IsWritten.unit _ _ _ _ _ meant written (codeUnit?_hexDigit small)
      (by simp [Lexer.isHighSurrogate]; omega) (by simp [Lexer.isLowSurrogate]; omega) later
    rwa [Char.ofNat_toNat] at unit
  · rename_i noQuote noEscape _ _ _ _ _ visible
    exact .plain noQuote noEscape (Nat.le_of_not_lt visible) later

theorem isWritten_flatMap_escape (text : List Char) : IsWritten text (text.flatMap escape) := by
  induction text with
  | nil => exact .nil
  | cons character text ih =>
    rw [List.flatMap_cons]
    exact isWritten_escape character ih

theorem writes_quote (text : String) : (Token.string text).Writes (quote text).toList := by
  rw [quote, String.toList_ofList]
  have writes := Token.Writes.string (isWritten_flatMap_escape text.toList)
  rwa [String.ofList_toList] at writes

/-- A number that is not zero has no zero in front. -/
theorem head?_toDigits {value : Nat} (positive : 0 < value) :
    (Nat.toDigits 10 value).head? ≠ some '0' := by
  induction value using Nat.strongRecOn with
  | ind value ih =>
    by_cases small : value < 10
    · rw [Nat.toDigits_of_lt_base small]
      have all : ∀ value < 10, 0 < value -> [Nat.digitChar value].head? ≠ some '0' := by decide
      exact all value small positive
    · rw [Nat.toDigits_of_base_le (by decide) (by omega), List.head?_append]
      obtain ⟨first, rest, shape⟩ := List.exists_cons_of_ne_nil
        (@Nat.toDigits_ne_nil (value / 10) 10)
      have later := ih (value / 10) (by omega) (by omega)
      rw [shape] at later ⊢
      exact later

/-- The printed form of a whole number is a numeral. -/
theorem isNumeral_repr (value : Nat) : IsNumeral (Nat.repr value).toList := by
  have areDigits : ∀ digit ∈ Nat.toDigits 10 value, digit.isDigit = true :=
    fun digit member => Nat.isDigit_of_mem_toDigits (by decide) (by decide) member
  have alone : ¬((Nat.toDigits 10 value).head? = some '0' && (Nat.toDigits 10 value).length != 1) =
      true := by
    rcases Nat.eq_zero_or_pos value with rfl | positive
    · decide
    · simp [head?_toDigits positive]
  rw [IsNumeral, Nat.toList_repr]
  obtain ⟨first, rest, shape⟩ := List.exists_cons_of_ne_nil (@Nat.toDigits_ne_nil value 10)
  rw [shape] at areDigits alone ⊢
  have isDigit := areDigits first (List.mem_cons_self ..)
  have noSign : unsigned (first :: rest) = first :: rest := by
    refine unsigned_of_ne fun rest same => ?_
    obtain ⟨rfl, -⟩ := List.cons.inj same
    cases isDigit
  have digits : digits? (first :: rest) = some (first :: rest, []) := by
    rw [digits?, if_pos (by simpa using isDigit), List.takeWhile_eq_self_iff.2 areDigits,
      List.dropWhile_eq_nil_iff.2 areDigits]
  rw [noSign, magnitude?, digits]
  simp only [Option.bind_eq_bind, Option.bind_some]
  rw [if_neg alone]
  rfl

/-! ## Blocks -/

theorem isGap_of_mem_indentation {level : Nat} {character : Char}
    (member : character ∈ (indentation level).toList) : Lexer.isGap character = true := by
  rw [indentation, String.toList_ofList] at member
  rw [(List.mem_replicate.1 member).2]
  rfl

/-- Lines put together with commas. -/
theorem isText_separated {rows : List (List Token)} {lines : List String}
    (written : List.Forall₂ (fun tokens line => IsText tokens line.toList) rows lines) :
    IsText (separated rows) (Text.intercalate ",\n" lines).toList := by
  induction written with
  | nil => exact .nil
  | @cons tokens line rows lines first later ih =>
    cases later with
    | nil => exact first
    | cons second later =>
      have comma : ",\n".toList = [','] ++ ['\n'] := by decide
      rw [Text.intercalate, String.toList_append, String.toList_append, List.append_assoc, comma,
        List.append_assoc]
      · refine first.append (.token (.mark rfl) (fun _ _ => rfl) (.gap rfl ih)) ?_
        intro character member
        obtain rfl := Option.some.inj member
        rfl
      · simp

/-- A mark and what comes after it. -/
theorem IsText.mark {mark : Token} {character : Char} {tokens : List Token} {rest : List Char}
    (found : Lexer.punctuation? character = some mark) (later : IsText tokens rest) :
    IsText (mark :: tokens) (character :: rest) := by
  refine .token (.mark found) (fun other _ => ?_) later
  have ends : ∀ pair ∈ marks, pair.2.goesOn other = false := by simp [marks, Token.goesOn]
  exact ends _ (mem_marks found)

/-- A block is what stands in it, between two brackets. -/
theorem isText_block {opening closing : String} {first last : Token} {character character' : Char}
    (opens : opening.toList = [character]) (isFirst : Lexer.punctuation? character = some first)
    (closes : closing.toList = [character']) (isLast : Lexer.punctuation? character' = some last)
    (level : Nat) {rows : List (List Token)}
    {lines : List String}
    (written : List.Forall₂ (fun tokens line => IsText tokens line.toList) rows lines) :
    IsText (first :: (separated rows ++ [last])) (block level opening closing lines).toList := by
  have ending : IsText [last] closing.toList := by
    rw [closes]
    exact .mark isLast .nil
  unfold block
  split
  · rename_i empty
    obtain rfl := List.isEmpty_iff.1 empty
    obtain rfl := List.forall₂_nil_right_iff.1 written
    rw [String.toList_append, opens]
    exact .mark isFirst ending
  · have indented : List.Forall₂ (fun tokens line => IsText tokens line.toList) rows
        (lines.map fun line => indentation (level + 1) ++ line) := by
      rw [List.forall₂_map_right_iff]
      refine written.imp fun tokens line isText => ?_
      rw [String.toList_append]
      exact isText.blanks fun character => isGap_of_mem_indentation
    have feed : "\n".toList = ['\n'] := by decide
    simp only [String.toList_append, opens, feed, List.append_assoc]
    refine .mark isFirst (.gap rfl ?_)
    refine (isText_separated indented).append
      (.gap rfl (ending.blanks fun character => isGap_of_mem_indentation)) ?_
    intro character member
    obtain rfl := Option.some.inj member
    rfl

theorem forall₂_renderItems {items : List Value} (level : Nat)
    (written : ∀ item ∈ items, IsText item.tokens (item.renderAt level).toList) :
    List.Forall₂ (fun tokens line => IsText tokens line.toList) (itemTokens items)
      (renderItems level items) := by
  induction items with
  | nil => exact .nil
  | cons item items ih =>
    obtain ⟨first, later⟩ := List.forall_mem_cons.1 written
    rw [itemTokens, renderItems]
    exact .cons first (ih later)

theorem forall₂_renderMembers {members : List (String × Value)} (level : Nat)
    (written : ∀ member ∈ members, IsText member.2.tokens (member.2.renderAt level).toList) :
    List.Forall₂ (fun tokens line => IsText tokens line.toList) (memberTokens members)
      (renderMembers level members) := by
  induction members with
  | nil => exact .nil
  | cons member members ih =>
    obtain ⟨name, value⟩ := member
    obtain ⟨first, later⟩ := List.forall_mem_cons.1 written
    have colon : ": ".toList = [':', ' '] := by decide
    rw [memberTokens, renderMembers]
    refine .cons ?_ (ih later)
    rw [String.toList_append, String.toList_append, colon, List.append_assoc]
    exact .token (writes_quote name) (fun _ _ => rfl) (.mark rfl (.gap rfl first))

/-- The printed form of a value writes the value. -/
theorem Value.IsSound.isText {depth : Nat} {value : Value} (isSound : value.IsSound depth)
    (level : Nat) : IsText value.tokens (value.renderAt level).toList := by
  have alone {token : Token} {text : List Char} (writes : token.Writes text) :
      IsText [token] text := by
    have isText := IsText.token writes (by simp) .nil
    rwa [List.append_nil] at isText
  induction isSound generalizing level with
  | null =>
    rw [Value.tokens, Value.renderAt]
    exact alone (.word (by decide))
  | bool depth value =>
    cases value <;> rw [Value.tokens, Value.renderAt] <;> exact alone (.word (by decide))
  | @number depth literal isNumeral =>
    rw [Value.tokens, Value.renderAt]
    have writes := Token.Writes.number isNumeral
    rw [String.ofList_toList] at writes
    exact alone writes
  | string depth text =>
    rw [Value.tokens, Value.renderAt]
    exact alone (writes_quote text)
  | array areSound ih =>
    rw [Value.tokens, Value.renderAt]
    exact isText_block rfl rfl rfl rfl level
      (forall₂_renderItems (level + 1) fun item member => ih item member (level + 1))
  | object distinct areSound ih =>
    rw [Value.tokens, Value.renderAt]
    exact isText_block rfl rfl rfl rfl level
      (forall₂_renderMembers (level + 1) fun member inside => ih member inside (level + 1))

/-- A value on a line of its own is a JSON text of that value. -/
theorem Value.IsSound.isWrittenBy_line {depth : Nat} {value : Value}
    (isSound : value.IsSound depth) : value.IsWrittenBy (value.render ++ "\n") := by
  have feed : "\n".toList = ['\n'] := by decide
  rw [IsWrittenBy, String.toList_append, feed, ← List.append_nil value.tokens]
  refine (isSound.isText 0).append (.gap rfl .nil) ?_
  intro character member
  obtain rfl := Option.some.inj member
  rfl

end Relink.Json
