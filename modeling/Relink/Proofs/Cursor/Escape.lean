import Relink.Proofs.Cursor.Span
import Relink.Proofs.Script.Reference

/-!
# Escaped quotes

A quoted text is read in two ways. Passed over as a string, a backslash takes the next character
with it; read as a specifier, it is a character like any other. A string reaches as far as the
specifier in it exactly where no backslash is left over before the quote, or nothing of the line
follows the quote that the backslash takes.
-/

namespace Relink.Script

/-- How many backslashes a text ends with. -/
def trailingBackslashes (text : List Char) : Nat :=
  (text.reverse.takeWhile (· == '\\')).length

section Escape

variable {quote character : Char} {specifier rest : List Char}

theorem trailingBackslashes_cons (character : Char) (text : List Char) :
    trailingBackslashes (character :: text) =
      if trailingBackslashes text = text.length ∧ character = '\\' then text.length + 1
      else trailingBackslashes text := by
  rw [trailingBackslashes, List.reverse_cons, List.takeWhile_append, List.length_reverse,
    ← trailingBackslashes]
  by_cases all : trailingBackslashes text = text.length
  · by_cases escape : character = '\\' <;> simp [all, escape]
  · rw [if_neg all, if_neg (fun both => all both.1), ← trailingBackslashes]

theorem trailingBackslashes_le (text : List Char) : trailingBackslashes text ≤ text.length := by
  have shorter := (List.takeWhile_sublist (· == '\\') (l := text.reverse)).length_le
  rwa [List.length_reverse] at shorter

theorem trailingBackslashes_plain (text : List Char) (plain : character ≠ '\\') :
    trailingBackslashes (character :: text) = trailingBackslashes text := by
  rw [trailingBackslashes_cons, if_neg fun both => plain both.2]

/-- A backslash and the character that it takes do not change whether the backslashes at the end
come in pairs. -/
theorem trailingBackslashes_escape (next : Char) (text : List Char) :
    trailingBackslashes ('\\' :: next :: text) % 2 = trailingBackslashes text % 2 := by
  have fewer := trailingBackslashes_le text
  rw [trailingBackslashes_cons, trailingBackslashes_cons, List.length_cons]
  by_cases all : trailingBackslashes text = text.length ∧ next = '\\'
  · rw [if_pos all, if_pos ⟨rfl, rfl⟩]
    omega
  · rw [if_neg all, if_neg (by omega)]

theorem trailingBackslashes_encode (text : List Char) :
    trailingBackslashes (encode text) = trailingBackslashes text := by
  rw [trailingBackslashes, ← encodeBack_reverse, encodeBack,
    widens_encodeCharacter.reverse.takeWhile_flatMap_narrow, trailingBackslashes]
  intro unit wide
  simpa using wide.ne (by decide)

/-! ## How far a string reaches -/

/-- A specifier is passed over in a string together with its quote. Where a backslash is left over
before the quote, the string goes on behind it. -/
theorem stringLength_specifier (passed : Nat) (rest : List Char) (quoted : isQuote quote = true)
    (plain : ∀ unit ∈ specifier, isSpecifierCharacter unit = true) :
    stringLength quote passed (specifier ++ quote :: rest) =
      if trailingBackslashes specifier % 2 = 0 then passed + specifier.length + 1
      else stringLength quote (passed + specifier.length + 1) rest := by
  have closing := quote_ne quoted
  fun_induction stringLength quote passed specifier with
  | case1 passed =>
    rw [List.nil_append, stringLength_plain _ _ closing.1, if_neg closing.2.1, if_pos rfl]
    rfl
  | case2 passed => rfl
  | case3 passed next specifier ih =>
    have size : passed + (next :: specifier).length + 1 = passed + 2 + specifier.length := by
      rw [List.length_cons]
      omega
    rw [List.cons_append, List.cons_append, stringLength_escape, trailingBackslashes_escape,
      ih fun unit member => plain unit (by simp [member]), List.length_cons, ← Nat.add_assoc, size]
  | case4 passed => exact absurd (plain '\n' (List.mem_cons_self ..)) (by decide)
  | case5 passed => exact absurd (List.mem_cons_self ..) (quote_not_mem quoted plain)
  | case6 passed unit specifier alone followed line other ih =>
    have solid := ne_escape alone followed
    rw [List.cons_append, stringLength_plain _ _ solid, if_neg line, if_neg other,
      trailingBackslashes_plain _ solid,
      ih fun unit member => plain unit (List.mem_cons_of_mem _ member), Nat.add_right_comm passed 1,
      List.length_cons, ← Nat.add_assoc]

/-- A string takes nothing of a text only at the end of a line. -/
theorem stringLength_eq_iff (passed : Nat) (text : List Char) :
    stringLength quote passed text = passed ↔ text.head? = none ∨ text.head? = some '\n' := by
  fun_cases stringLength quote passed text with
  | case1 => exact iff_of_true rfl (.inl rfl)
  | case2 => simp
  | case3 next rest =>
    have further := (stringLength_bounds quote (passed + 2) rest).1
    refine iff_of_false (by omega) (by simp)
  | case4 => exact iff_of_true rfl (.inr rfl)
  | case5 rest alone followed line => simpa using line
  | case6 unit rest alone followed line other =>
    have further := (stringLength_bounds quote (passed + 1) rest).1
    refine iff_of_false (by omega) (by simpa using line)

/-- The string around a specifier reaches past the quote after it, and ends there exactly where the
backslashes before that quote come in pairs or nothing of the line follows it. -/
theorem stringLength_specifier_eq_iff (passed : Nat) (rest : List Char)
    (quoted : isQuote quote = true)
    (plain : ∀ unit ∈ specifier, isSpecifierCharacter unit = true) :
    passed + specifier.length + 1 ≤ stringLength quote passed (specifier ++ quote :: rest) ∧
      (stringLength quote passed (specifier ++ quote :: rest) = passed + specifier.length + 1 ↔
        trailingBackslashes specifier % 2 = 0 ∨ rest.head? = none ∨ rest.head? = some '\n') := by
  rw [stringLength_specifier passed rest quoted plain]
  split
  · rename_i even
    exact ⟨Nat.le_refl _, iff_of_true rfl (.inl even)⟩
  · rename_i odd
    refine ⟨(stringLength_bounds quote _ rest).1, ?_⟩
    rw [stringLength_eq_iff, or_iff_right odd]

/-- The two readings of a quoted specifier, at any position. -/
theorem Reads.quoted_stringEnd {script : List Char} {i : Nat}
    (reads : Reads script i (quote :: (specifier ++ quote :: rest)))
    (quoted : isQuote quote = true) (isSpecifier : IsSpecifier specifier) :
    quotedAt script i = some (some (Span.quotedAt i specifier)) ∧
      ∃ stop, stringEnd script i = some stop ∧ (Span.quotedAt i specifier).next ≤ stop ∧
        (stop = (Span.quotedAt i specifier).next ↔ trailingBackslashes specifier % 2 = 0 ∨
          script[(Span.quotedAt i specifier).next]? = none ∨
          script[(Span.quotedAt i specifier).next]? = some '\n') := by
  have after := reads.next.skip.next.getElem?_eq 0
  rw [Nat.add_zero, ← List.head?_eq_getElem?] at after
  obtain ⟨reaches, ends⟩ := stringLength_specifier_eq_iff 1 rest quoted isSpecifier.characters
  constructor
  · rw [quotedAt_eq reads, quotedSpecifier?_eq_some _ quoted isSpecifier]
    rfl
  · refine ⟨_, stringEnd_eq reads, ?_, ?_⟩ <;> simp only [Span.quotedAt]
    · omega
    · rw [after, ← ends]
      omega

end Escape

/-! ## The two readings of a specifier -/

theorem IsSpecifier.encode {specifier : List Char} (isSpecifier : IsSpecifier specifier) :
    IsSpecifier (encode specifier) where
  ne_nil := encode_eq_nil_iff.not.2 isSpecifier.ne_nil
  characters unit member := by
    obtain ⟨character, inside, member⟩ := List.mem_flatMap.1 member
    by_cases wide : IsWide character
    · exact (isWide_of_mem_encodeCharacter wide member).isSpecifierCharacter
    · rw [encodeCharacter_ascii wide, List.mem_singleton] at member
      exact member ▸ isSpecifier.characters character inside

/-- Every specifier stands in quotes that are read twice. Read as a specifier, the quoted text ends
after the quote behind the specifier, where the scan goes on. Passed over as a string, it ends there
too, or further on: exactly there if and only if the backslashes that the specifier ends with come
in pairs, or the line or the script ends after the quote. -/
theorem stringEnd_occurrences (script : String) :
    ∀ found ∈ occurrences script, ∃ opens stop, found.start = opens + 1 ∧
      quotedAt (units script) opens = some (some ⟨found.start, found.stop, found.stop + 1⟩) ∧
      stringEnd (units script) opens = some stop ∧ found.stop + 1 ≤ stop ∧
      (stop = found.stop + 1 ↔
        trailingBackslashes found.specifier.toList % 2 = 0 ∨
          (units script)[found.stop + 1]? = none ∨
          (units script)[found.stop + 1]? = some '\n') := by
  intro found member
  obtain ⟨reference, rfl⟩ := mem_occurrences_iff.1 member
  obtain ⟨ahead, form, opening, quote, specifier, rest, whole, -, -, -, quoted, isSpecifier⟩ :=
    reference
  have narrow := narrow_of_isQuote quoted
  have reads : Reads (units script) (Text.byteLength (ahead ++ opening))
      (quote :: (encode specifier ++ quote :: encode rest)) := by
    rw [← encode_cons_ascii narrow, ← encode_append, ← encode_cons_ascii narrow]
    exact reads_units (by rw [whole, List.append_assoc])
  have start_eq : Text.byteLength (ahead ++ (opening ++ [quote])) =
      Text.byteLength (ahead ++ opening) + 1 := by
    rw [← List.append_assoc, Text.byteLength_append _ [quote], byteLength_quote quoted]
  obtain ⟨read, stop, passed, reaches, ends⟩ := reads.quoted_stringEnd quoted isSpecifier.encode
  rw [trailingBackslashes_encode] at ends
  simp only [Span.quotedAt, length_encode_eq] at read reaches ends
  simp only [Reference.occurrence, Reference.lead, Nat.zero_add, start_eq, String.toList_ofList]
  exact ⟨_, stop, rfl, read, passed, reaches, ends⟩

/-- Backslashes that come in pairs leave the quote after them to end the string. -/
theorem stringEnd_occurrences_paired :
    let script := "import './a\\\\'; import './b';"
    occurrences script =
        [⟨"./a\\\\", 8, 13, .staticImport, 1⟩, ⟨"./b", 24, 27, .staticImport, 1⟩] ∧
      trailingBackslashes "./a\\\\".toList = 2 ∧ stringEnd (units script) 7 = some 14 := by
  intro script
  have found : occurrences script =
      [⟨"./a\\\\", 8, 13, .staticImport, 1⟩, ⟨"./b", 24, 27, .staticImport, 1⟩] := by
    decide
  obtain ⟨opens, stop, start, -, passed, -, ends⟩ := stringEnd_occurrences script
    ⟨"./a\\\\", 8, 13, .staticImport, 1⟩ (found ▸ List.mem_cons_self)
  obtain rfl : opens = 7 := (Nat.succ.inj start).symm
  obtain rfl : stop = 14 := ends.2 (.inl (by decide))
  exact ⟨found, by decide, passed⟩

/-- A backslash that is left over takes the quote, and the string goes on to the next one. The scan
goes on inside of the string, and takes the import behind it for a part of another one. -/
theorem stringEnd_occurrences_escaped :
    let script := "import 'a\\' b'; import './c';"
    occurrences script = [⟨"a\\", 8, 10, .staticImport, 1⟩] ∧
      stringEnd (units script) 7 = some 14 := by
  intro script
  have reads : Reads (units script) 7 ('\'' :: "a\\' b'; import './c';".toList) :=
    ⟨by decide, by decide⟩
  refine ⟨by decide, ?_⟩
  rw [stringEnd_eq reads]
  decide

end Relink.Script
