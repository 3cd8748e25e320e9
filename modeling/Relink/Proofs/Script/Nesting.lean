import Relink.Proofs.Script.Reference

/-!
# Nested template literals

`Template` is the grammar of template literals whose substitutions hold digits, spaces and further
template literals. The skip over a template literal looks for a mark that no backslash escapes and
takes a substitution for text, so it ends at the first mark within. A template literal is skipped
as a whole exactly if none of its substitutions holds another one, and then nothing is found
inside it.
-/

namespace Relink.Script

/-- The two places in a template literal. -/
inductive Place where
  /-- Its text, up to the mark that closes it. -/
  | text
  /-- A substitution, up to the brace that closes it. -/
  | substitution
deriving DecidableEq, Repr

/-- The rest of a template literal from a place on. It holds `inner` other template literals, at
any depth. -/
inductive Template : Place -> Nat -> List Char -> Prop where
  | close : Template .text 0 ['\x60']
  | plain {inner : Nat} {character : Char} {rest : List Char} (noMark : character ≠ '\x60')
      (noEscape : character ≠ '\\') (opensNothing : character = '$' -> rest.head? ≠ some '{')
      (later : Template .text inner rest) : Template .text inner (character :: rest)
  | escape {inner : Nat} {rest : List Char} (character : Char)
      (later : Template .text inner rest) : Template .text inner ('\\' :: character :: rest)
  | substitution {held inner : Nat} {body rest : List Char}
      (holds : Template .substitution held body) (later : Template .text inner rest) :
      Template .text (held + inner) ('$' :: '{' :: (body ++ rest))
  | closeBrace : Template .substitution 0 ['}']
  | filler {inner : Nat} {character : Char} {rest : List Char}
      (isFiller : character.isDigit = true ∨ character = ' ')
      (later : Template .substitution inner rest) :
      Template .substitution inner (character :: rest)
  | nested {held inner : Nat} {body rest : List Char} (holds : Template .text held body)
      (later : Template .substitution inner rest) :
      Template .substitution (held + 1 + inner) ('\x60' :: (body ++ rest))

/-! ## The first mark -/

theorem TemplateBody.append {first second : List Char} (isFirst : TemplateBody first)
    (isSecond : TemplateBody second) : TemplateBody (first ++ second) := by
  induction isFirst with
  | nil => exact isSecond
  | plain noEscape other _ ih => exact .plain noEscape other ih
  | escape character _ ih => exact .escape character ih

/-- The start of a substitution is text like any other. -/
theorem TemplateBody.opened {body : List Char} (isBody : TemplateBody body) :
    TemplateBody ('$' :: '{' :: body) :=
  .plain (by decide) (by decide) (.plain (by decide) (by decide) isBody)

/-- The rest of a template literal is never empty. -/
theorem Template.ne_nil {place : Place} {inner : Nat} {text : List Char}
    (template : Template place inner text) : text ≠ [] := by
  cases template <;> simp

theorem Template.filler_ne {character : Char}
    (isFiller : character.isDigit = true ∨ character = ' ') :
    character ≠ '\\' ∧ character ≠ '\x60' := by
  constructor
  · rintro rfl
    exact absurd isFiller (by decide)
  · rintro rfl
    exact absurd isFiller (by decide)

/-- What ends a place that holds no template literal. -/
def Place.ending : Place -> List Char
  | .text => ['\x60']
  | .substitution => []

/-- A template literal that holds no other one has no mark but the one that closes it. -/
theorem Template.exists_body {place : Place} {text : List Char}
    (template : Template place 0 text) :
    ∃ body, text = body ++ place.ending ∧ TemplateBody body := by
  generalize none_ : 0 = inner at template
  induction template with
  | close => exact ⟨[], rfl, .nil⟩
  | plain noMark noEscape _ _ ih =>
    obtain ⟨body, rfl, isBody⟩ := ih none_
    exact ⟨_ :: body, rfl, .plain noEscape noMark isBody⟩
  | escape character _ ih =>
    obtain ⟨body, rfl, isBody⟩ := ih none_
    exact ⟨_ :: _ :: body, rfl, .escape character isBody⟩
  | @substitution held inner _ _ _ _ first second =>
    obtain ⟨body, rfl, isBody⟩ := first (by omega)
    obtain ⟨later, rfl, isLater⟩ := second (by omega)
    exact ⟨_ :: _ :: (body ++ later), by simp [Place.ending], (isBody.append isLater).opened⟩
  | closeBrace => exact ⟨['}'], rfl, .plain (by decide) (by decide) .nil⟩
  | filler isFiller _ ih =>
    obtain ⟨body, rfl, isBody⟩ := ih none_
    obtain ⟨noEscape, noMark⟩ := Template.filler_ne isFiller
    exact ⟨_ :: body, rfl, .plain noEscape noMark isBody⟩
  | nested => omega

/-- A template literal that holds another one has a mark before the one that closes it. -/
theorem Template.exists_mark {place : Place} {inner : Nat} {text : List Char}
    (template : Template place inner text) (some_ : inner ≠ 0) :
    ∃ front back, text = front ++ '\x60' :: back ∧ TemplateBody front ∧ back ≠ [] := by
  induction template with
  | close => exact absurd rfl some_
  | plain noMark noEscape _ _ ih =>
    obtain ⟨front, back, rfl, isFront, more⟩ := ih some_
    exact ⟨_ :: front, back, rfl, .plain noEscape noMark isFront, more⟩
  | escape character _ ih =>
    obtain ⟨front, back, rfl, isFront, more⟩ := ih some_
    exact ⟨_ :: _ :: front, back, rfl, .escape character isFront, more⟩
  | @substitution held inner body rest holds later first second =>
    -- The first mark stands in this substitution, or else behind it.
    by_cases flat : held = 0
    · subst flat
      obtain ⟨body, rfl, isBody⟩ := holds.exists_body
      obtain ⟨front, back, rfl, isFront, more⟩ := second (by omega)
      exact ⟨_ :: _ :: (body ++ front), back, by simp [Place.ending],
        (isBody.append isFront).opened, more⟩
    · obtain ⟨front, back, rfl, isFront, -⟩ := first flat
      exact ⟨_ :: _ :: front, back ++ rest, by simp, isFront.opened, by simp [later.ne_nil]⟩
  | closeBrace => exact absurd rfl some_
  | filler isFiller _ ih =>
    obtain ⟨front, back, rfl, isFront, more⟩ := ih some_
    obtain ⟨noEscape, noMark⟩ := Template.filler_ne isFiller
    exact ⟨_ :: front, back, rfl, .plain noEscape noMark isFront, more⟩
  | nested _ later => exact ⟨[], _, rfl, .nil, by simp [later.ne_nil]⟩

/-! ## The skip -/

/-- The skip over a template literal passes over all of it exactly if it holds no other one. -/
theorem Template.templateLength_eq_iff {inner : Nat} {body : List Char}
    (template : Template .text inner body) (passed : Nat) (rest : List Char) :
    templateLength passed (body ++ rest) = passed + body.length ↔ inner = 0 := by
  constructor
  · intro whole
    by_contra some_
    -- The skip ends at the first mark, and more of the literal is left.
    obtain ⟨front, back, rfl, isFront, more⟩ := template.exists_mark some_
    rw [List.append_assoc, List.cons_append, templateLength_closed _ _ isFront] at whole
    have := List.length_pos_iff.2 more
    rw [List.length_append, List.length_cons] at whole
    omega
  · rintro rfl
    obtain ⟨front, rfl, isFront⟩ := template.exists_body
    rw [Place.ending, List.append_assoc, List.singleton_append, templateLength_closed _ _ isFront,
      List.length_append, List.length_singleton, Nat.add_assoc]

/-- A scan that stops before a plain part finds nothing inside it. -/
theorem Stops.outside {before part rest : List Char} (stops : Stops (part ++ rest) [] before)
    (noSite : siteAt? before.reverse.head? (part ++ rest) = none)
    (measured : (lexemeLength? before.reverse (part ++ rest)).getD 1 = part.length)
    (filled : part ≠ []) {found : Occurrence}
    (member : found ∈ occurrences (String.ofList (before ++ (part ++ rest)))) :
    found.stop ≤ Text.byteLength before ∨ Text.byteLength (before ++ part) ≤ found.start := by
  obtain ⟨first, rfl, areSpecifiers, whole⟩ := stops.exists_pieces
  rw [List.append_nil] at whole
  obtain ⟨later, after⟩ := exists_scan (part.reverse ++ (first.flatMap Piece.text).reverse) rest
  have scan := whole _ (.plain noSite measured filled after)
  rw [occurrences, String.toList_ofList, scan.pieces_eq,
    occurrencesFrom_append areSpecifiers, List.mem_append] at member
  rcases member with member | member
  · have := (bounds_of_mem_occurrencesFrom member).2.2
    exact .inl (by omega)
  · rw [occurrencesFrom] at member
    have := (bounds_of_mem_occurrencesFrom member).1
    rw [Text.byteLength_append]
    exact .inr (by omega)

/-- The skip over a template literal passes over all of it exactly if none of its substitutions
holds another one. Then nothing is found inside it, wherever in a script the scan comes to it. -/
theorem Template.isSkipped_iff {inner : Nat} {body : List Char}
    (template : Template .text inner body) (rest : List Char) :
    (templateLength 1 (body ++ rest) = 1 + body.length ↔ inner = 0) ∧
      (inner = 0 -> ∀ before, Stops ('\x60' :: (body ++ rest)) [] before ->
        ∀ found ∈ occurrences (String.ofList (before ++ '\x60' :: (body ++ rest))),
          found.stop ≤ Text.byteLength before ∨
            Text.byteLength (before ++ '\x60' :: body) ≤ found.start) := by
  have skipped := template.templateLength_eq_iff 1 rest
  refine ⟨skipped, fun flat before stops found member => ?_⟩
  have measured : (lexemeLength? before.reverse ('\x60' :: (body ++ rest))).getD 1 =
      ('\x60' :: body).length := by
    rw [List.length_cons, Nat.add_comm, ← skipped.2 flat]
    rfl
  exact stops.outside (siteAt?_solid _ _ (by decide)) measured (by simp) member

/-- Characters that mean nothing to a template literal may stand before its text. -/
theorem Template.inert {inner : Nat} {front rest : List Char}
    (areInert : ∀ character ∈ front, character ≠ '\x60' ∧ character ≠ '\\' ∧ character ≠ '$')
    (later : Template .text inner rest) : Template .text inner (front ++ rest) := by
  induction front with
  | nil => exact later
  | cons character front ih =>
    obtain ⟨noMark, noEscape, noDollar⟩ := areInert character List.mem_cons_self
    exact .plain noMark noEscape (fun same => absurd same noDollar)
      (ih fun other member => areInert other (List.mem_cons_of_mem _ member))

/-- A template literal with an escaped mark, and with a number in its substitution, hides the
statement in its text. -/
theorem Template.isSkipped_iff_escaped :
    Template .text 0 "import './x';\\\x60$\x7b12 \x7d\x60".toList ∧
      templateLength 1
          ("import './x';\\\x60$\x7b12 \x7d\x60".toList ++ ";import './c';".toList) =
        1 + "import './x';\\\x60$\x7b12 \x7d\x60".toList.length ∧
      occurrences "=\x60import './x';\\\x60$\x7b12 \x7d\x60;import './c';" =
        [⟨"./c", 33, 36, .staticImport, 1⟩] ∧
      Text.byteLength "=\x60import './x';\\\x60$\x7b12 \x7d\x60".toList ≤ 33 := by
  have number : Template .substitution 0 "12 \x7d".toList :=
    .filler (by decide) (.filler (by decide) (.filler (by decide) .closeBrace))
  have template : Template .text 0 ("import './x';".toList ++ "\\\x60$\x7b12 \x7d\x60".toList) :=
    .inert (by simp) (.escape '\x60' (.substitution number .close))
  have stops : Stops "\x60import './x';\\\x60$\x7b12 \x7d\x60;import './c';".toList []
      (['='] ++ []) :=
    .plain (by decide) (by decide) (by decide) .done
  have found : occurrences "=\x60import './x';\\\x60$\x7b12 \x7d\x60;import './c';" =
      [⟨"./c", 33, 36, .staticImport, 1⟩] := by decide
  obtain ⟨skipped, hidden⟩ := template.isSkipped_iff ";import './c';".toList
  refine ⟨template, skipped.2 rfl, found, ?_⟩
  rcases hidden rfl ['='] stops _ (found ▸ List.mem_cons_self) with before | after
  · exact absurd before (by decide)
  · exact after

/-- A template literal in a substitution ends the skip at its first mark, and the statement in its
text is found. -/
theorem Template.not_isSkipped_nested :
    Template .text 1 "$\x7b\x60import './x';\x60\x7d\x60".toList ∧
      templateLength 1 "$\x7b\x60import './x';\x60\x7d\x60".toList = 4 ∧
      1 + "$\x7b\x60import './x';\x60\x7d\x60".toList.length = 20 ∧
      occurrences "\x60$\x7b\x60import './x';\x60\x7d\x60" =
        [⟨"./x", 12, 15, .staticImport, 1⟩] := by
  have inner : Template .text 0 ("import './x';".toList ++ ['\x60']) := .inert (by simp) .close
  have substitution : Template .substitution 1
      ('\x60' :: ("import './x';".toList ++ ['\x60'] ++ ['\x7d'])) := .nested inner .closeBrace
  exact ⟨.substitution substitution .close, by decide, by decide, by decide⟩

end Relink.Script
