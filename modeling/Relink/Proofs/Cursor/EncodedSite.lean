import Relink.Proofs.Cursor.Encoding

/-!
# Statements in an encoded text

A statement names a module in a text exactly where its units name one in the encoding of the text,
and both stand at the same place.
-/

namespace Relink.Script

/-! ## Measures put together -/

/-- What follows a border is the encoding of what followed it. -/
theorem Measures.drop_eq {text : List Char} {length length' : Nat}
    (measured : Measures text (some length) (some length')) :
    (encode text).drop length' = encode (text.drop length) := by
  cases measured with
  | upto same => rw [same, encode_append, List.drop_left, List.drop_left]

/-- A border is moved by what is put in front, by its length on either side. -/
theorem Measures.prepend {text : List Char} {length length' : Option Nat} (front : List Char)
    (measured : Measures text length length') :
    Measures (front ++ text) (length.map (front.length + ·))
      (length'.map ((encode front).length + ·)) := by
  cases measured with
  | absent => exact .absent
  | @upto first second same =>
    refine .of_lengths (by rw [same, List.append_assoc]) List.length_append.symm ?_
    rw [encode_append, List.length_append]

/-- A test that answers alike for every wide unit answers alike for the first unit of a text. -/
theorem any_head?_encode {p : Char -> Bool} {answer : Bool}
    (wide : ∀ unit, IsWide unit → p unit = answer) (text : List Char) :
    (encode text).head?.any p = text.head?.any p :=
  widens_encodeCharacter.any_head? wide text

/-! ## Words -/

theorem narrow_from : Narrow "from".toList := by
  decide

theorem narrow_import : Narrow "import".toList := by
  decide

theorem narrow_export : Narrow "export".toList := by
  decide

theorem narrow_require : Narrow "require".toList := by
  decide

/-- What may stand before a word is no part of one, and no dot. -/
theorem beforeWord_iff {previous : Option Char} :
    BeforeWord previous ↔ (previous.any fun unit => isWord unit || unit == '.') = false := by
  cases previous with
  | none => simp [BeforeWord]
  | some unit => simp [BeforeWord]

/-- What may stand after a word is no part of one. -/
theorem afterWord_iff {rest : List Char} :
    AfterWord rest ↔ rest.head?.any isWord = false := by
  unfold AfterWord
  cases rest.head? with
  | none => simp
  | some unit => simp

/-- A word may begin behind the units of a text exactly if it may behind the text. -/
theorem beforeWord_encodeBack (before : List Char) :
    BeforeWord (encodeBack before).head? ↔ BeforeWord before.head? := by
  have wide : ∀ unit, IsWide unit → (isWord unit || unit == '.') = true := fun unit outside => by
    rw [outside.isWord, Bool.true_or]
  rw [beforeWord_iff, beforeWord_iff, encodeBack, widens_encodeCharacter.reverse.any_head? wide]

theorem beforeWord_getLast? {front : List Char} (filled : front ≠ []) (previous previous' : Char) :
    BeforeWord (some ((encode front).getLast?.getD previous')) ↔
      BeforeWord (some (front.getLast?.getD previous)) := by
  have known {text : List Char} (filled : text ≠ []) (previous : Char) :
      some (text.getLast?.getD previous) = text.getLast? := by
    rw [List.getLast?_eq_some_getLast filled]
    rfl
  rw [known filled, known (encode_eq_nil_iff.not.2 filled)]
  have back := beforeWord_encodeBack front.reverse
  have turned := reverse_encodeBack front.reverse
  rw [List.reverse_reverse] at turned
  rwa [← turned, List.getLast?_reverse, ← List.head?_reverse]

/-- ASCII units that an encoded text begins with are the characters that the text begins with. -/
theorem exists_append_of_encode {word text rest : List Char}
    (narrow : Narrow word) (same : encode text = word ++ rest) :
    ∃ tail, text = word ++ tail ∧ encode tail = rest := by
  induction word generalizing text with
  | nil => exact ⟨text, rfl, same⟩
  | cons letter word ih =>
    have here := narrow letter (List.mem_cons_self ..)
    obtain ⟨tail, rfl⟩ := List.head?_eq_some_iff.1
      ((head?_encode_iff here).1 (by rw [same]; rfl))
    rw [encode_cons_ascii here, List.cons_append, List.cons.injEq] at same
    obtain ⟨tail, rfl, rest_eq⟩ := ih
      (fun other member => narrow other (List.mem_cons_of_mem _ member)) same.2
    exact ⟨tail, rfl, rest_eq⟩

/-- A narrow word begins the units of a text exactly if it begins the text. -/
theorem beginsWithWord_encode {previous previous' : Option Char} {word : List Char}
    (alike : BeforeWord previous' ↔ BeforeWord previous)
    (narrow : Narrow word) (text : List Char) :
    beginsWithWord previous' word (encode text) = beginsWithWord previous word text := by
  have after (rest : List Char) : AfterWord (encode rest) ↔ AfterWord rest := by
    rw [afterWord_iff, afterWord_iff, any_head?_encode fun unit => IsWide.isWord]
  rw [Bool.eq_iff_iff, beginsWithWord_iff, beginsWithWord_iff, alike]
  refine and_congr_right fun _ => ⟨?_, ?_⟩
  · rintro ⟨rest, same, ends⟩
    obtain ⟨tail, rfl, rfl⟩ := exists_append_of_encode narrow same
    exact ⟨tail, rfl, (after tail).1 ends⟩
  · rintro ⟨rest, rfl, ends⟩
    exact ⟨encode rest, by rw [encode_append, encode_ascii word narrow], (after rest).2 ends⟩

/-! ## Gaps and specifiers -/

/-- The first unit of a character that is not blank. -/
theorem exists_encode_solid {character : Char} (rest : List Char)
    (solid : isBlank character = false) :
    ∃ unit units, encode (character :: rest) = unit :: units ∧ isBlank unit = false := by
  obtain ⟨unit, units, same, -, ⟨-, rfl, -⟩ | ⟨wide, -⟩⟩ := exists_encodeCharacter character
  · exact ⟨unit, units ++ encode rest, by rw [encode_cons, same]; rfl, solid⟩
  · exact ⟨unit, units ++ encode rest, by rw [encode_cons, same]; rfl, wide.isBlank⟩

/-- Blanks and comments are as long as they were, measured in units. -/
theorem triviaLength_encode (text : List Char) :
    Measures text (some (triviaLength text)) (some (triviaLength (encode text))) := by
  induction size : text.length using Nat.strong_induction_on generalizing text with
  | _ size ih =>
    subst size
    cases text with
    | nil => exact .upto (List.append_nil []).symm
    | cons character rest =>
      by_cases blank : isBlank character = true
      · have narrow : ¬IsWide character := fun wide => by
          rw [wide.isBlank] at blank
          cases blank
        have later := (ih rest.length (by simp) rest rfl).prepend [character]
        rw [encode_singleton narrow] at later
        rw [encode_cons_ascii narrow, triviaLength_blank _ blank, triviaLength_blank _ blank,
          Nat.add_comm, Nat.add_comm (triviaLength (encode rest))]
        exact later
      · have solid := Bool.eq_false_iff.2 blank
        have comment := commentLength?_encode (character :: rest)
        generalize found : commentLength? (character :: rest) = length at comment
        generalize found' : commentLength? (encode (character :: rest)) = length' at comment
        cases comment with
        | absent =>
          obtain ⟨unit, units, same, solid'⟩ := exists_encode_solid rest solid
          rw [same] at found' ⊢
          rw [triviaLength_solid solid found, triviaLength_solid solid' found']
          exact .upto (List.nil_append _).symm
        | @upto first second same =>
          have shorter : second.length < (character :: rest).length := by
            have := (commentLength?_bounds found).1
            rw [same, List.length_append]
            omega
          have later := (ih _ shorter second rfl).prepend first
          rw [triviaLength_of_comment found, triviaLength_of_comment found', same, encode_append,
            List.drop_left, List.drop_left]
          exact later

/-- The units of a quoted specifier are those of the one that was quoted. -/
theorem quotedSpecifier?_encode (text : List Char) :
    quotedSpecifier? (encode text) = (quotedSpecifier? text).map encode := by
  cases text with
  | nil => rfl
  | cons quote rest =>
    by_cases quoted : isQuote quote = true
    · have split := List.takeWhile_append_dropWhile (p := isSpecifierCharacter) (l := rest)
      rw [encode_cons_ascii (narrow_of_isQuote quoted), quotedSpecifier?, quotedSpecifier?, encode,
        widens_encodeCharacter.takeWhile_flatMap fun _ wide => wide.isSpecifierCharacter]
      generalize rest.takeWhile isSpecifierCharacter = specifier at *
      generalize rest.dropWhile isSpecifierCharacter = tail at *
      subst split
      have closed : ((encode tail).head? == some quote) = (tail.head? == some quote) := by
        rw [Bool.eq_iff_iff, beq_iff_eq, beq_iff_eq, head?_encode_iff (narrow_of_isQuote quoted)]
      have filled : (encode specifier).isEmpty = specifier.isEmpty := by
        rw [Bool.eq_iff_iff, List.isEmpty_iff, List.isEmpty_iff, encode_eq_nil_iff]
      rw [← encode, ← encode, encode_append, List.drop_left, List.drop_left, closed, filled]
      split <;> rfl
    · have unquoted := Bool.eq_false_iff.2 quoted
      obtain ⟨unit, units, same, -, ⟨-, rfl, -⟩ | ⟨wide, -⟩⟩ := exists_encodeCharacter quote
      · rw [encode_cons, same, List.cons_append, quotedSpecifier?, quotedSpecifier?, unquoted]
        rfl
      · rw [encode_cons, same, List.cons_append, quotedSpecifier?, quotedSpecifier?, unquoted,
          wide.isQuote]
        rfl

/-! ## Clauses -/

/-- Wide units are characters of a clause, and none of them begins a `from`. -/
theorem clauseLengthFrom?_wide {previous : Char} {units : List Char} (rest : List Char)
    (wide : ∀ unit ∈ units, IsWide unit) :
    clauseLengthFrom? previous 0 0 (units ++ rest) =
      (clauseLengthFrom? (units.getLast?.getD previous) 0 0 rest).map (units.length + ·) := by
  induction units generalizing previous with
  | nil => simp
  | cons unit units ih =>
    have here := wide unit (List.mem_cons_self ..)
    have noWord :
        beginsWithWord (some previous) "from".toList (unit :: (units ++ rest)) = false := by
      simp [beginsWithWord, (here.ne (by decide : ¬IsWide 'f')).symm]
    have plain : isClauseCharacter unit = true := by
      simp [isClauseCharacter, here.isWord]
    rw [List.cons_append, clauseLengthFrom?_character plain noWord,
      ih fun other member => wide other (List.mem_cons_of_mem _ member), Option.map_map,
      List.getLast?_cons, Option.getD_some]
    congr 1
    funext length
    simp only [Function.comp_apply, List.length_cons]
    omega

/-- A clause ends at the same character before and after the encoding. -/
theorem clauseLengthFrom?_encode {previous previous' : Char}
    (alike : BeforeWord (some previous') ↔ BeforeWord (some previous)) (text : List Char) :
    Measures text (clauseLengthFrom? previous 0 0 text)
      (clauseLengthFrom? previous' 0 0 (encode text)) := by
  induction size : text.length using Nat.strong_induction_on
    generalizing previous previous' text with
  | _ size ih =>
    subst size
    -- What the walk passes over, and then the rest of the text.
    have goesOn {first second : List Char} (split : text = first ++ second) (filled : first ≠ []) :
        Measures text
          ((clauseLengthFrom? (first.getLast?.getD previous) 0 0 second).map (first.length + ·))
          ((clauseLengthFrom? ((encode first).getLast?.getD previous') 0 0 (encode second)).map
            ((encode first).length + ·)) := by
      subst split
      have shorter : second.length < (first ++ second).length := by
        rw [List.length_append]
        exact Nat.lt_add_of_pos_left (List.length_pos_iff.2 filled)
      have alike := beforeWord_getLast? filled previous previous'
      exact (ih second.length shorter alike second rfl).prepend first
    have same := beginsWithWord_encode alike narrow_from text
    by_cases begins : beginsWithWord (some previous) "from".toList text = true
    · rw [begins] at same
      obtain ⟨-, following, rfl, -⟩ := beginsWithWord_iff.1 begins
      have rest := goesOn rfl (by decide)
      rw [encode_append, encode_ascii _ narrow_from] at same ⊢
      rw [encode_ascii _ narrow_from] at rest
      have gap := triviaLength_encode following
      have next := any_head?_encode (fun unit => IsWide.isQuote)
        (following.drop (triviaLength following))
      rw [← gap.drop_eq] at next
      by_cases quoted : (following.drop (triviaLength following)).head?.any isQuote = true
      · rw [clauseLengthFrom?_from begins quoted, clauseLengthFrom?_from same (next.trans quoted)]
        have measured := gap.prepend "from".toList
        rw [encode_ascii _ narrow_from] at measured
        exact measured
      · have unquoted := Bool.eq_false_iff.2 quoted
        rw [clauseLengthFrom?_name begins unquoted,
          clauseLengthFrom?_name same (next.trans unquoted)]
        exact rest
    cases text with
    | nil => exact .absent
    | cons character rest =>
      rw [Bool.not_eq_true] at begins
      rw [begins] at same
      have comment := commentLength?_encode (character :: rest)
      generalize found : commentLength? (character :: rest) = length at comment
      generalize found' : commentLength? (encode (character :: rest)) = length' at comment
      cases comment with
      | @upto first second split =>
        have filled : first ≠ [] := by
          have := (commentLength?_bounds found).1
          exact List.length_pos_iff.1 (by omega)
        have rest_ := goesOn split filled
        rw [clauseLengthFrom?_of_comment found, clauseLengthFrom?_of_comment found', split,
          encode_append, List.take_left, List.drop_left, List.take_left, List.drop_left]
        rwa [split] at rest_
      | absent =>
        by_cases plain : isClauseCharacter character = true
        · have rest_ := goesOn (List.singleton_append).symm (by simp : [character] ≠ [])
          rw [clauseLengthFrom?_character plain begins]
          by_cases wide : IsWide character
          · rw [encode_cons, clauseLengthFrom?_wide _ fun _ member =>
              isWide_of_mem_encodeCharacter wide member]
            simpa using rest_
          · rw [encode_cons_ascii wide] at same ⊢
            rw [clauseLengthFrom?_character plain same]
            rw [encode_singleton wide] at rest_
            exact rest_
        · have foreign := Bool.eq_false_iff.2 plain
          have narrow : ¬IsWide character := fun wide =>
            plain (by simp [isClauseCharacter, wide.isWord])
          rw [encode_cons_ascii narrow] at found' ⊢
          rw [clauseLengthFrom?_foreign foreign found, clauseLengthFrom?_foreign foreign found']
          exact .absent

/-! ## Sites -/

/-- A text and its encoding name the same module at the same place. -/
inductive Names (text : List Char) : Option Site -> Option Site -> Prop where
  | absent : Names text none none
  | found {lead specifier rest : List Char} {quote : Char} (form : Form)
      (same : text = lead ++ (specifier ++ quote :: rest)) (quoted : isQuote quote = true) :
      Names text (some ⟨form, lead.length, specifier⟩)
        (some ⟨form, (encode lead).length, encode specifier⟩)

/-- A word with a literal behind it names the same specifier in units. -/
theorem quotedSite?_encode {form : Form} {word following : List Char} {offset offset' : Nat}
    (narrow : Narrow word)
    (measured : Measures following (some offset) (some offset')) :
    Names (word ++ following) (quotedSite? form word.length offset following)
      (quotedSite? form word.length offset' (encode following)) := by
  rw [quotedSite?, quotedSite?, measured.drop_eq, quotedSpecifier?_encode]
  cases found : quotedSpecifier? (following.drop offset) with
  | none => exact .absent
  | some specifier =>
    obtain ⟨quote, rest, ahead, quoted, -⟩ := exists_of_quotedSpecifier? found
    cases measured with
    | @upto first second same =>
      rw [same, List.drop_left] at ahead
      have split : word ++ following =
          (word ++ first ++ [quote]) ++ (specifier ++ quote :: rest) := by
        simp [same, ahead]
      have named := Names.found form split quoted
      have length : (word ++ first ++ [quote]).length = word.length + first.length + 1 := by
        rw [List.length_append, List.length_append]
        rfl
      have length' : (encode (word ++ first ++ [quote])).length =
          word.length + (encode first).length + 1 := by
        rw [encode_append, encode_append, encode_ascii word narrow,
          encode_singleton (narrow_of_isQuote quoted), List.length_append,
          List.length_append]
        rfl
      rw [length, length'] at named
      exact named

/-- A word with an argument behind it names the same specifier in units. -/
theorem argumentSite?_encode {form : Form} {word following : List Char} {offset offset' : Nat}
    (narrow : Narrow word)
    (measured : Measures following (some offset) (some offset'))
    (bracket : (following.drop offset).head? = some '(') :
    Names (word ++ following) (argumentSite? form word.length offset following)
      (argumentSite? form word.length offset' (encode following)) := by
  cases measured with
  | @upto first second same =>
    rw [same, List.drop_left] at bracket
    obtain ⟨rest, rfl⟩ := List.head?_eq_some_iff.1 bracket
    have split : following = (first ++ ['(']) ++ rest := by simp [same]
    have inner := (triviaLength_encode rest).prepend (first ++ ['('])
    have units : encode (first ++ ['(']) = encode first ++ ['('] := by
      rw [encode_append, encode_ascii ['('] (by decide)]
    have dropped (text : List Char) (tail : List Char) :
        (text ++ ['('] ++ tail).drop (text.length + 1) = tail :=
      List.drop_left' (by rw [List.length_append]; rfl)
    rw [← split, units] at inner
    rw [argumentSite?, argumentSite?, split, encode_append, units, dropped, dropped, ← units,
      ← encode_append, ← split]
    rw [List.length_append, List.length_append] at inner
    exact quotedSite?_encode narrow inner

/-- A word with a clause behind it names the same specifier in units. -/
theorem clauseSite?_encode {form : Form} {word : List Char}
    (narrow : Narrow word) (following : List Char) :
    Names (word ++ following) (clauseSite? form word.length following)
      (clauseSite? form word.length (encode following)) := by
  have measured := clauseLengthFrom?_encode (Iff.refl (BeforeWord (some 't'))) following
  rw [clauseSite?, clauseSite?]
  generalize clauseLengthFrom? 't' 0 0 following = length at measured
  generalize clauseLengthFrom? 't' 0 0 (encode following) = length' at measured
  cases measured with
  | absent => exact .absent
  | upto same => exact quotedSite?_encode narrow (.upto same)

/-- What follows a gap is told alike by a text and its encoding. -/
theorem head?_gap_encode (following : List Char) :
    (((encode following).drop (triviaLength (encode following))).head? = some '(' ↔
        (following.drop (triviaLength following)).head? = some '(') ∧
      ((encode following).drop (triviaLength (encode following))).head?.any isQuote =
        (following.drop (triviaLength following)).head?.any isQuote := by
  rw [(triviaLength_encode following).drop_eq]
  exact ⟨head?_encode_iff (by decide), any_head?_encode (fun unit => IsWide.isQuote) _⟩

/-- What `import` begins names the same specifier in units. -/
theorem importSite?_encode (following : List Char) :
    Names ("import".toList ++ following) (importSite? following)
      (importSite? (encode following)) := by
  have gap := triviaLength_encode following
  obtain ⟨bracket, quoted⟩ := head?_gap_encode following
  rw [importSite?_eq, importSite?_eq]
  dsimp only
  rw [quoted]
  by_cases opens : (following.drop (triviaLength following)).head? = some '('
  · rw [if_pos opens, if_pos (bracket.2 opens)]
    exact argumentSite?_encode narrow_import gap opens
  rw [if_neg opens, if_neg (bracket.not.2 opens)]
  split
  · exact quotedSite?_encode narrow_import gap
  · exact clauseSite?_encode narrow_import following

/-- What `require` begins names the same specifier in units. -/
theorem requireSite?_encode (following : List Char) :
    Names ("require".toList ++ following) (requireSite? following)
      (requireSite? (encode following)) := by
  have bracket := (head?_gap_encode following).1
  rw [requireSite?, requireSite?]
  by_cases opens : (following.drop (triviaLength following)).head? = some '('
  · rw [if_pos opens, if_pos (bracket.2 opens)]
    exact argumentSite?_encode narrow_require (triviaLength_encode following) opens
  · rw [if_neg opens, if_neg (bracket.not.2 opens)]
    exact .absent

/-- The statement that a text begins with names a module exactly where the statement that its
encoding begins with does. -/
theorem siteAt?_encode (before text : List Char) :
    Names text (siteAt? before.head? text) (siteAt? (encodeBack before).head? (encode text)) := by
  have alike := beforeWord_encodeBack before
  have word {word : List Char} (narrow : Narrow word) :=
    beginsWithWord_encode alike narrow text
  have shape {word : List Char} (narrow : Narrow word)
      (begins : beginsWithWord before.head? word text = true) :
      ∃ following, text = word ++ following ∧ encode text = word ++ encode following := by
    obtain ⟨-, following, same, -⟩ := beginsWithWord_iff.1 begins
    exact ⟨following, same, by rw [same, encode_append, encode_ascii word narrow]⟩
  rw [siteAt?, siteAt?, word narrow_import, word narrow_export, word narrow_require]
  split
  · rename_i begins
    obtain ⟨following, same, same'⟩ := shape narrow_import begins
    rw [same', same]
    exact importSite?_encode following
  split
  · rename_i begins
    obtain ⟨following, same, same'⟩ := shape narrow_export begins
    rw [same', same]
    exact clauseSite?_encode narrow_export following
  split
  · rename_i begins
    obtain ⟨following, same, same'⟩ := shape narrow_require begins
    rw [same', same]
    exact requireSite?_encode following
  · exact .absent

end Relink.Script
