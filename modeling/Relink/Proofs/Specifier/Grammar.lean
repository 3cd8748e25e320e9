import Mathlib.Data.List.TakeWhile
import Relink.Proofs.Pattern
import Relink.Specifier.PackageName

/-!
# The grammar of package names

A word begins with a small letter, a digit, `-` or `~`, and goes on with these, `.` and `_`. A
package name is a word, or `@`, a word, a slash and a word. What names a package is its name, with
nothing behind it or with a slash. No word holds a slash, so that no specifier names two packages
and it does not matter in which order the ways to read it are tried.
-/

namespace Relink.Specifier

/-! ## The grammar -/

/-- A character in `[a-z0-9~-]`. -/
def BeginsWord (character : Char) : Prop :=
  'a' ≤ character ∧ character ≤ 'z' ∨ '0' ≤ character ∧ character ≤ '9' ∨
    character = '~' ∨ character = '-'

/-- A character in `[a-z0-9._~-]`. -/
def ContinuesWord (character : Char) : Prop :=
  BeginsWord character ∨ character = '.' ∨ character = '_'

/-- A word of a package name. -/
inductive IsNameWord : List Char -> Prop
  | intro {first : Char} {rest : List Char} (begins : BeginsWord first)
      (continues : ∀ character ∈ rest, ContinuesWord character) : IsNameWord (first :: rest)

/-- A package name. -/
inductive IsPackageName : List Char -> Prop
  | bare {word : List Char} (isWord : IsNameWord word) : IsPackageName word
  | inScope {scope word : List Char} (isScope : IsNameWord scope) (isWord : IsNameWord word) :
      IsPackageName ('@' :: scope ++ '/' :: word)

/-- Whether a specifier names the package of the given name. -/
structure NamesPackage (specifier name : String) : Prop where
  isPackageName : IsPackageName name.toList
  ends : specifier = name ∨ ∃ rest, specifier = name ++ "/" ++ rest

/-! ## Words -/

/-- The characters of the first class are those that begin a word. -/
theorem isInRanges_wordStart_iff {character : Char} :
    Pattern.isInRanges wordStart character = true ↔ BeginsWord character := by
  have alone (other : Char) : other ≤ character ∧ character ≤ other ↔ character = other :=
    ⟨fun ⟨least, most⟩ => Char.le_antisymm most least, fun same => same ▸ ⟨Char.le_refl _, Char.le_refl _⟩⟩
  simp only [Pattern.isInRanges, wordStart, List.any_cons, List.any_nil, Bool.or_false,
    Bool.or_eq_true, Bool.and_eq_true, decide_eq_true_iff, alone, BeginsWord]
  exact or_congr_right (or_congr_right Or.comm)

/-- The characters of the second class are those that continue one. -/
theorem isInRanges_wordCharacters_iff {character : Char} :
    Pattern.isInRanges wordCharacters character = true ↔ ContinuesWord character := by
  have alone (other : Char) : other ≤ character ∧ character ≤ other ↔ character = other :=
    ⟨fun ⟨least, most⟩ => Char.le_antisymm most least, fun same => same ▸ ⟨Char.le_refl _, Char.le_refl _⟩⟩
  simp only [Pattern.isInRanges, wordCharacters, List.any_cons, List.any_nil, Bool.or_false,
    Bool.or_eq_true, Bool.and_eq_true, decide_eq_true_iff, alone, ContinuesWord, BeginsWord]
  tauto

theorem not_continuesWord_slash : ¬ContinuesWord '/' := by
  rw [← isInRanges_wordCharacters_iff]
  decide

theorem not_beginsWord_at : ¬BeginsWord '@' := by
  rw [← isInRanges_wordStart_iff]
  decide

/-- Every character of a word can go on with a word. -/
theorem IsNameWord.continues {word : List Char} (isWord : IsNameWord word) :
    ∀ character ∈ word, ContinuesWord character := by
  obtain ⟨begins, continues⟩ := isWord
  exact List.forall_mem_cons.2 ⟨.inl begins, continues⟩

/-- Whether a text does not go on with a word. -/
def EndsWord (rest : List Char) : Prop :=
  ∀ character ∈ rest.head?, ¬ContinuesWord character

/-- A word may end at a slash. -/
theorem EndsWord.slash (rest : List Char) : EndsWord ('/' :: rest) := by
  intro character first
  obtain rfl := Option.some.inj first
  exact not_continuesWord_slash

/-- Two words that end in the same text are the same. -/
theorem IsNameWord.unique {word word' rest rest' : List Char} (isWord : IsNameWord word)
    (isWord' : IsNameWord word') (same : word ++ rest = word' ++ rest') (ends : EndsWord rest)
    (ends' : EndsWord rest') : word = word' ∧ rest = rest' := by
  have whole {word rest : List Char} (isWord : IsNameWord word) (ends : EndsWord rest) :
      (word ++ rest).takeWhile (Pattern.isInRanges wordCharacters) = word := by
    rw [List.takeWhile_append_of_pos fun character member =>
      isInRanges_wordCharacters_iff.2 (isWord.continues character member)]
    cases rest with
    | nil => exact List.append_nil _
    | cons next rest =>
      have stops : ¬Pattern.isInRanges wordCharacters next = true :=
        fun inside => ends next rfl (isInRanges_wordCharacters_iff.1 inside)
      rw [List.takeWhile_cons_of_neg stops, List.append_nil]
  have words : word = word' := by rw [← whole isWord ends, same, whole isWord' ends']
  subst words
  exact ⟨rfl, List.append_cancel_left same⟩

/-- What the pattern of a word takes are the words. -/
theorem takes_wordPattern_iff {before word rest : List Char} :
    wordPattern.Takes before word rest ↔ IsNameWord word := by
  simp only [wordPattern, Pattern.takes_inOrder_iff, Pattern.takes_oneOf_iff,
    Pattern.takes_repetition_oneOf_iff, isInRanges_wordStart_iff, isInRanges_wordCharacters_iff]
  constructor
  · rintro ⟨_, back, rfl, ⟨first, rfl, begins⟩, continues⟩
    exact .intro begins continues
  · rintro ⟨begins, continues⟩
    exact ⟨[_], _, rfl, ⟨_, rfl, begins⟩, continues⟩

/-! ## Names -/

/-- What the pattern of a name takes are the package names. -/
theorem takes_namePattern_iff {before name rest : List Char} :
    namePattern.Takes before name rest ↔ IsPackageName name := by
  simp only [namePattern, Pattern.takes_inOrder_iff, Pattern.takes_option_iff,
    Pattern.takes_group_iff, Pattern.takes_single_iff, takes_wordPattern_iff]
  constructor
  · rintro ⟨_, word, rfl, ⟨_, _, rfl, rfl, scope, _, rfl, isScope, rfl⟩ | rfl, isWord⟩
    · have inScope := IsPackageName.inScope isScope isWord
      simpa using inScope
    · exact .bare isWord
  · rintro (isWord | ⟨isScope, isWord⟩)
    · exact ⟨[], _, rfl, .inr rfl, isWord⟩
    · refine ⟨_, _, ?_, .inl ⟨_, _, rfl, rfl, _, _, rfl, isScope, rfl⟩, isWord⟩
      simp

/-- No word begins as a name with a scope does. -/
theorem IsNameWord.ne_inScope {word rest rest' : List Char} (isWord : IsNameWord word) :
    word ++ rest ≠ '@' :: rest' := by
  obtain ⟨begins, -⟩ := isWord
  intro same
  obtain ⟨rfl, -⟩ := List.cons.inj same
  exact not_beginsWord_at begins

/-- Two package names that end in the same text are the same. -/
theorem IsPackageName.unique {name name' rest rest' : List Char} (isName : IsPackageName name)
    (isName' : IsPackageName name') (same : name ++ rest = name' ++ rest') (ends : EndsWord rest)
    (ends' : EndsWord rest') : name = name' := by
  cases isName with
  | bare isWord =>
    cases isName' with
    | bare isWord' => exact (isWord.unique isWord' same ends ends').1
    | inScope isScope' isWord' => exact absurd same isWord.ne_inScope
  | @inScope scope word isScope isWord =>
    cases isName' with
    | bare isWord' => exact absurd same.symm isWord'.ne_inScope
    | @inScope scope' word' isScope' isWord' =>
      simp only [List.cons_append, List.append_assoc, List.cons.injEq, true_and] at same
      obtain ⟨rfl, tails⟩ := isScope.unique isScope' same (.slash _) (.slash _)
      rw [(isWord.unique isWord' (List.cons.inj tails).2 ends ends').1]

/-! ## Packages -/

/-- Whether a text stands behind a name that it leaves as it is: nothing, or a slash and more. -/
inductive Follows : List Char -> Prop
  | nothing : Follows []
  | path (rest : List Char) : Follows ('/' :: rest)

/-- What may follow a package name ends a word. -/
theorem Follows.endsWord {rest : List Char} (follows : Follows rest) : EndsWord rest := by
  cases follows with
  | nothing => exact fun character impossible => by cases impossible
  | path rest => exact .slash rest

/-- What stands behind a name is taken by the last group, which does not touch the others. -/
theorem follows_of_mem_ways {place next : Pattern.Match}
    (member : next ∈ (Pattern.either (.single '/') .finish).ways place) :
    Follows place.rest ∧ next.groups = place.groups := by
  obtain ⟨before, rest, groups⟩ := place
  rcases List.mem_append.1 member with slash | nothing
  · cases rest with
    | nil => cases slash
    | cons character rest =>
      simp only [Pattern.ways, Pattern.Match.advance, List.mem_ite_nil_right, beq_iff_eq,
        List.mem_singleton] at slash
      obtain ⟨rfl, rfl⟩ := slash
      exact ⟨.path rest, rfl⟩
  · cases rest with
    | nil =>
      obtain rfl := List.mem_singleton.1 nothing
      exact ⟨.nothing, rfl⟩
    | cons character rest => cases nothing

/-- Where the pattern of a package matches, its first group is a package name that a slash or
nothing follows. -/
theorem exists_of_findFrom? {text : List Char} {found : Pattern.Match}
    (finds : packagePattern.findFrom? [] text = some found) :
    ∃ name rest, text = name ++ rest ∧ IsPackageName name ∧ Follows rest ∧
      found.groups.lookup 1 = some name := by
  rw [packagePattern, Pattern.findFrom?_start] at finds
  obtain ⟨middle, inside, later⟩ := List.mem_flatMap.1 (List.mem_of_head? finds)
  obtain ⟨named, inName, rfl⟩ := List.mem_map.1 inside
  obtain ⟨ended, inEnd, rfl⟩ := List.mem_map.1 later
  obtain ⟨name, shape, -, takes⟩ := Pattern.goesOn_of_mem_ways inName
  obtain ⟨follows, groups⟩ := follows_of_mem_ways inEnd
  dsimp only at shape follows groups ⊢
  have matched : text.take (text.length - named.rest.length) = name := by
    rw [shape, List.length_append, Nat.add_sub_cancel, List.take_left]
  refine ⟨name, named.rest, shape, takes_namePattern_iff.1 takes, follows, ?_⟩
  rw [groups, matched]
  rfl

/-- Where a package name stands before a slash or nothing, the pattern of a package matches. -/
theorem exists_findFrom? {name rest : List Char} (isName : IsPackageName name)
    (follows : Follows rest) :
    ∃ found, packagePattern.findFrom? [] (name ++ rest) = some found := by
  have ends : ∃ back later, rest = back ++ later ∧
      (Pattern.either (.single '/') .finish).Takes (name.reverse ++ []) back later := by
    cases follows with
    | nothing => exact ⟨[], [], rfl, by simp⟩
    | path rest => exact ⟨['/'], rest, rfl, by simp⟩
  obtain ⟨back, later, rfl, ends⟩ := ends
  have takes := Pattern.Takes.inOrder (.group 1 (takes_namePattern_iff.2 isName)) (.group 4 ends)
  obtain ⟨groups, member⟩ := takes.exists_mem_ways []
  rw [packagePattern, Pattern.findFrom?_start, ← List.append_assoc]
  exact Option.isSome_iff_exists.1 (List.isSome_head?.2 (List.ne_nil_of_mem member))

/-- The first group of the pattern of a package is the package name that a text begins with, if a
slash or nothing follows it. -/
theorem captured?_packagePattern_iff {text name : List Char} :
    packagePattern.captured? 1 text = some name ↔
      IsPackageName name ∧ (text = name ∨ ∃ rest, text = name ++ '/' :: rest) := by
  have shapes : (∃ rest, text = name ++ rest ∧ Follows rest) ↔
      text = name ∨ ∃ rest, text = name ++ '/' :: rest := by
    constructor
    · rintro ⟨_, shape, _ | ⟨rest⟩⟩
      · exact .inl (by rwa [List.append_nil] at shape)
      · exact .inr ⟨rest, shape⟩
    · rintro (rfl | ⟨rest, rfl⟩)
      · exact ⟨[], (List.append_nil _).symm, .nothing⟩
      · exact ⟨_, rfl, .path rest⟩
  rw [← shapes, Pattern.captured?, Option.bind_eq_some_iff]
  constructor
  · rintro ⟨found, finds, looked⟩
    obtain ⟨name', rest, shape, isName, follows, captured⟩ := exists_of_findFrom? finds
    obtain rfl := Option.some.inj (captured.symm.trans looked)
    exact ⟨isName, rest, shape, follows⟩
  · rintro ⟨isName, rest, rfl, follows⟩
    obtain ⟨found, finds⟩ := exists_findFrom? isName follows
    obtain ⟨name', rest', same, isName', follows', captured⟩ := exists_of_findFrom? finds
    obtain rfl := isName.unique isName' same follows.endsWord follows'.endsWord
    exact ⟨found, finds, captured⟩

/-- The package of a specifier is the one that the grammar says it names. -/
theorem package?_eq_some_iff {specifier name : String} :
    package? specifier = some name ↔ NamesPackage specifier name := by
  have written (rest : List Char) :
      specifier.toList = name.toList ++ '/' :: rest ↔
        specifier = name ++ "/" ++ String.ofList rest := by
    rw [← String.toList_inj]
    simp
  have found : package? specifier = some name ↔
      packagePattern.captured? 1 specifier.toList = some name.toList := by
    rw [package?, Option.map_eq_some_iff]
    constructor
    · rintro ⟨text, read, rfl⟩
      rwa [String.toList_ofList]
    · intro read
      exact ⟨_, read, String.ofList_toList⟩
  rw [found, captured?_packagePattern_iff, String.toList_inj]
  constructor
  · rintro ⟨isName, same | ⟨rest, shape⟩⟩
    · exact ⟨isName, .inl same⟩
    · exact ⟨isName, .inr ⟨_, (written rest).1 shape⟩⟩
  · rintro ⟨isName, same | ⟨rest, shape⟩⟩
    · exact ⟨isName, .inl same⟩
    · exact ⟨isName, .inr ⟨rest.toList, (written _).2 (by rwa [String.ofList_toList])⟩⟩

/-- A specifier names the package whose name it begins with, followed by a slash or by nothing.
There is at most one such name, and whatever follows a package name and a slash, the name is found
again. -/
theorem package?_grammar :
    (∀ specifier name, package? specifier = some name ↔ NamesPackage specifier name) ∧
      (∀ specifier name name', NamesPackage specifier name -> NamesPackage specifier name' ->
        name = name') ∧
      ∀ name rest, package? (name ++ "/" ++ rest) = some name ↔ IsPackageName name.toList := by
  refine ⟨fun specifier name => package?_eq_some_iff, fun specifier name name' names names' => ?_,
    fun name rest => ?_⟩
  · have found := package?_eq_some_iff.2 names
    rw [package?_eq_some_iff.2 names'] at found
    exact (Option.some.inj found).symm
  · rw [package?_eq_some_iff]
    exact ⟨NamesPackage.isPackageName, fun isName => ⟨isName, .inr ⟨rest, rfl⟩⟩⟩

/-- A name with a scope is found before a path, and it is the only one. -/
theorem package?_grammar_inScope :
    NamesPackage "@a/b.c/d" "@a/b.c" ∧ package? "@a/b.c/d" = some "@a/b.c" ∧
      ∀ name, NamesPackage "@a/b.c/d" name -> name = "@a/b.c" := by
  have found : package? "@a/b.c/d" = some "@a/b.c" := by decide
  have names := (package?_grammar.1 _ _).1 found
  exact ⟨names, found, fun name other => package?_grammar.2.1 _ _ _ other names⟩

end Relink.Specifier
