import Mathlib.Data.List.DropRight
import Relink.Proofs.Script.Argument

/-!
# Calls and properties

A call is found by its word, unless the word is a part of a longer one or the name of a property.
What tells this is the one character before the word: a call is found exactly if that is neither a
part of a word nor a point. So a call is passed over right after the point of a property, and right
after a spread; after a point and blanks it is found.
-/

namespace Relink.Script

/-- Whether a word that comes after a text is a part of a longer word. -/
def ContinuesWord (before : List Char) : Prop :=
  before.getLast?.any isWord = true

/-- Whether a word that comes after a text is the name of a property: the last character before it
that is not a blank is a point, and not the last point of a spread. -/
def NamesProperty (before : List Char) : Prop :=
  (before.rdropWhile isBlank).getLast? = some '.' ∧
    ¬['.', '.', '.'] <:+ before.rdropWhile isBlank

instance (before : List Char) : Decidable (ContinuesWord before) :=
  inferInstanceAs (Decidable (_ = _))

instance (before : List Char) : Decidable (NamesProperty before) :=
  inferInstanceAs (Decidable (_ ∧ _))

/-! ## What comes before a word -/

theorem beforeWord_getLast?_concat (earlier : List Char) (last : Char) :
    BeforeWord (earlier ++ [last]).getLast? ↔ isWord last = false ∧ last ≠ '.' := by
  rw [List.getLast?_concat]
  exact ⟨fun begins => begins last rfl, fun plain _ same => Option.some.inj same ▸ plain⟩

theorem continuesWord_concat (earlier : List Char) (last : Char) :
    ContinuesWord (earlier ++ [last]) ↔ isWord last = true := by
  rw [ContinuesWord, List.getLast?_concat, Option.any_some]

/-- The character before a word tells whether it continues a word or names a property, unless it
is the last point of a spread, or a blank after the point of a property. -/
theorem beforeWord_iff_iff (before : List Char) :
    ((BeforeWord before.getLast? ↔ ¬ContinuesWord before ∧ ¬NamesProperty before) ↔
      ¬['.', '.', '.'] <:+ before ∧ ¬(NamesProperty before ∧ before.getLast? ≠ some '.')) := by
  rcases List.eq_nil_or_concat before with rfl | ⟨earlier, last, rfl⟩
  · simp [BeforeWord, ContinuesWord, NamesProperty]
  rw [List.concat_eq_append, beforeWord_getLast?_concat, continuesWord_concat,
    List.getLast?_concat]
  have spread : ['.', '.', '.'] <:+ earlier ++ [last] -> last = '.' := by
    rintro ⟨front, same⟩
    have ends := congrArg List.getLast? same
    rw [List.getLast?_concat, List.getLast?_append] at ends
    exact (Option.some.inj ends).symm
  by_cases blank : isBlank last = true
  · have noPoint : last ≠ '.' := by
      rintro rfl
      exact absurd blank (by decide)
    have noWord := isWord_of_isBlank blank
    have noSpread : ¬['.', '.', '.'] <:+ earlier ++ [last] := fun spreads => noPoint (spread spreads)
    simp [noPoint, noWord, noSpread]
  · have whole : (earlier ++ [last]).rdropWhile isBlank = earlier ++ [last] :=
      List.rdropWhile_concat_neg _ _ _ blank
    rw [NamesProperty, whole, List.getLast?_concat]
    by_cases point : last = '.'
    · subst point
      have noWord : isWord '.' = false := by decide
      simp [noWord]
    · have noSpread : ¬['.', '.', '.'] <:+ earlier ++ [last] := fun spreads => point (spread spreads)
      simp [point, noSpread]

/-! ## Calls that are passed over -/

/-- What leads to the argument of a call is passed over where no word may begin. -/
theorem Quiet.call {form : Form} {opening : List Char} (before rest : List Char)
    (opens : Opening form opening) (isCall : form.isCall = true)
    (inside : ¬BeforeWord before.head?) : Quiet rest before opening := by
  have call {word gap inner : List Char}
      (isWord_ : ∀ character ∈ word, isWord character = true) (isGap : Gap gap)
      (isInner : Gap inner) : Quiet rest before (word ++ (gap ++ '(' :: inner)) :=
    (Quiet.word _ _ isWord_ inside).append <| (Quiet.gap _ _ isGap).append <|
      (Quiet.solid _ _ (by decide) (by decide)).append (Quiet.gap _ _ isInner)
  cases opens with
  | bareImport | importFrom | exportFrom => cases isCall
  | dynamicImport isGap isInner => exact call isWord_import isGap isInner
  | requireCall isGap isInner => exact call isWord_require isGap isInner

/-- Where a scan comes to a call whose word goes on a longer word or follows a point, it finds
nothing that begins after the quote. -/
theorem Stops.start_ne {form : Form} {before opening specifier rest : List Char} {quote : Char}
    (stops : Stops (opening ++ quote :: (specifier ++ quote :: rest)) [] before)
    (opens : Opening form opening) (isCall : form.isCall = true)
    (quoted : isQuote quote = true) (inside : ¬BeforeWord before.getLast?) {found : Occurrence}
    (member : found ∈ occurrences
      (String.ofList (before ++ (opening ++ quote :: (specifier ++ quote :: rest))))) :
    found.start ≠ Text.byteLength (before ++ (opening ++ [quote])) := by
  obtain ⟨first, rfl, areSpecifiers, whole⟩ := stops.exists_pieces
  rw [List.append_nil] at whole
  rw [← List.head?_reverse] at inside
  obtain ⟨parts, rfl, passes⟩ := (Quiet.call _ (quote :: (specifier ++ quote :: rest)) opens isCall
    inside).scan
  obtain ⟨later, after⟩ := exists_scan
    (parts.flatten.reverse ++ (first.flatMap Piece.text).reverse)
    (quote :: (specifier ++ quote :: rest))
  rw [occurrences, String.toList_ofList, (whole _ (passes _ after)).pieces_eq,
    occurrencesFrom_append areSpecifiers, List.mem_append, occurrencesFrom_plain] at member
  simp only [Text.byteLength_append, byteLength_quote quoted]
  rcases member with member | member
  · have := bounds_of_mem_occurrencesFrom member
    omega
  · -- The quote is not passed over as a part of what leads to a specifier.
    generalize shape : quote :: (specifier ++ quote :: rest) = text at after
    cases after with
    | done => cases member
    | plain noSite measured filled after =>
      have := byteLength_pos filled
      have := after.lt_start member
      omega
    | site here after =>
      rw [← shape, siteAt?_solid _ _ (isWord_of_isQuote quoted)] at here
      cases here

/-! ## Calls that are found -/

/-- Where a scan comes to a call, what begins after its quote is found exactly if the character
before its word, if there is one, is neither a part of a word nor a point. That this leaves out
just the longer words and the names of properties is true where the text before ends neither in a
spread nor in blanks after the point of a property. -/
theorem mem_occurrences_call_iff {form : Form} {before opening specifier rest : List Char}
    {quote : Char} (stops : Stops (opening ++ quote :: (specifier ++ quote :: rest)) [] before)
    (opens : Opening form opening) (isCall : form.isCall = true)
    (quoted : isQuote quote = true) (isSpecifier : IsSpecifier specifier) :
    let script := String.ofList (before ++ (opening ++ quote :: (specifier ++ quote :: rest)))
    let lead := before ++ (opening ++ [quote])
    let start := Text.byteLength lead
    (∀ found, found ∈ occurrences script ∧ found.start = start ↔
      BeforeWord before.getLast? ∧
        found = ⟨String.ofList specifier, start, start + Text.byteLength specifier, form,
          1 + Text.lineFeeds lead⟩) ∧
      (((∃ found ∈ occurrences script, found.start = start) ↔
          ¬ContinuesWord before ∧ ¬NamesProperty before) ↔
        ¬['.', '.', '.'] <:+ before ∧
          ¬(NamesProperty before ∧ before.getLast? ≠ some '.')) := by
  intro script lead start
  -- Found where a word may begin, and nowhere else: both directions rest on that.
  have member (begins : BeforeWord before.getLast?) :
      (⟨String.ofList specifier, start, start + Text.byteLength specifier, form,
        1 + Text.lineFeeds lead⟩ : Occurrence) ∈ occurrences script := by
    refine mem_occurrences_iff.2 ⟨⟨before, form, opening, quote, specifier, rest,
      String.toList_ofList, stops, ?_, opens, quoted, isSpecifier⟩, ?_⟩
    · rwa [List.append_nil, List.head?_reverse]
    · simp only [Reference.occurrence, Reference.lead, Nat.zero_add]
      rfl
  have begins {found : Occurrence} (inside : found ∈ occurrences script)
      (begins : found.start = start) : BeforeWord before.getLast? := by
    by_contra other
    exact stops.start_ne opens isCall quoted other inside begins
  constructor
  · intro found
    constructor
    · rintro ⟨inside, starts⟩
      have alone := begins inside starts
      exact ⟨alone, eq_of_start_eq inside (member alone) starts⟩
    · rintro ⟨alone, rfl⟩
      exact ⟨member alone, rfl⟩
  · rw [← beforeWord_iff_iff]
    refine iff_congr ⟨?_, fun alone => ⟨_, member alone, rfl⟩⟩ Iff.rfl
    rintro ⟨found, inside, starts⟩
    exact begins inside starts

/-- A call on the line after the point of a property is found. -/
theorem occurrences_call_after_point :
    Stops "require(\"./x\")".toList [] "m.\n".toList ∧
      Opening .requireCall "require(".toList ∧ IsSpecifier "./x".toList ∧
      NamesProperty "m.\n".toList ∧
      (⟨"./x", 12, 15, .requireCall, 2⟩ : Occurrence) ∈
        occurrences "m.\nrequire(\"./x\")" := by
  have stops : Stops "require(\"./x\")".toList [] (['m'] ++ (['.'] ++ (['\n'] ++ []))) :=
    .plain (by decide) (by decide) (by decide) <|
      .plain (by decide) (by decide) (by decide) <|
        .plain (by decide) (by decide) (by decide) .done
  have opens : Opening .requireCall "require(".toList := .requireCall .nil .nil
  have isSpecifier : IsSpecifier "./x".toList := by decide
  have found := ((mem_occurrences_call_iff
    (stops : Stops ("require(".toList ++ '"' :: ("./x".toList ++ '"' :: [')'])) [] "m.\n".toList)
    opens rfl rfl isSpecifier).1 ⟨"./x", 12, 15, .requireCall, 2⟩).2
  have alone : BeforeWord "m.\n".toList.getLast? :=
    (beforeWord_getLast?_concat ['m', '.'] '\n').2 (by decide)
  exact ⟨stops, opens, isSpecifier, by decide, (found ⟨alone, by decide⟩).1⟩

/-- A call right after a spread is not found, though its word is neither a part of a longer word
nor the name of a property. A call is found on the line after the point of a property. -/
theorem not_mem_occurrences_spread :
    Stops "require(\"./x\"))".toList [] "f(...".toList ∧
      ¬ContinuesWord "f(...".toList ∧ ¬NamesProperty "f(...".toList ∧
      occurrences "f(...require(\"./x\"))" = [] ∧
      NamesProperty "m.\n".toList ∧
      occurrences "m.\nrequire(\"./x\")" = [⟨"./x", 12, 15, .requireCall, 2⟩] := by
  have stops : Stops "require(\"./x\"))".toList []
      (['f'] ++ (['('] ++ (['.'] ++ (['.'] ++ (['.'] ++ []))))) :=
    .plain (by decide) (by decide) (by decide) <|
      .plain (by decide) (by decide) (by decide) <|
        .plain (by decide) (by decide) (by decide) <|
          .plain (by decide) (by decide) (by decide) <|
            .plain (by decide) (by decide) (by decide) .done
  exact ⟨stops, by decide, by decide, by decide, by decide, by decide⟩

end Relink.Script
