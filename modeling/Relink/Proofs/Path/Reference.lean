import Relink.Path.Relative
import Relink.Proofs.Path.Spelling
import Relink.Specifier.Candidate

/-!
# References between locations

The reference from a directory to a target, and the candidates made from it, are steps with a
slash between each two: first `.` or as many `..` as lead up to what both share, then the names
that lead down to the target. Read from the directory, they lead to the target again, unless names
are shown in it that are not Unicode.
-/

namespace Relink

/-- The text of a way. -/
def way (steps : List String) : String :=
  Text.intercalate "/" steps

/-- How one refers to the target from the source: with the steps `lead`, and then the steps
`down`. A directory is referred to through its parent, and the root as if it had one. -/
inductive Reference : List String -> List String -> List String -> List String -> Prop
  | below {source down : List String} (filled : down ≠ []) :
      Reference source (source ++ down) ["."] down
  | above {common climbed down : List String} (climbs : climbed ≠ []) :
      Reference (common ++ climbed) (common ++ down) (List.replicate climbed.length "..") down
  | top : Reference [] [] [".."] [""]

/-- The text of a way, in which the names that lead down are shown. -/
def shownWay (lead down : List String) : String :=
  way (lead ++ down.map Name.shown)

theorem way_cons_cons (first second : String) (steps : List String) :
    way (first :: second :: steps) = first ++ "/" ++ way (second :: steps) :=
  rfl

/-- What a reference enters on its way down. Of a target that goes on from a part of the source it
enters only what is gone on with, and the source itself is entered by its last name. -/
structure Enters (source target down : List String) : Prop where
  later : target ≠ source -> ∀ kept names, kept <+: source -> target = kept ++ names ->
    down <:+ names
  itself : target = source -> down = [source.getLast?.getD ""]

/-- A reference goes nowhere down exactly when the target lies above the source. -/
theorem Reference.eq_nil_iff {source target lead down : List String}
    (reference : Reference source target lead down) (enters : Enters source target down) :
    down = [] ↔ target <+: source ∧ target ≠ source := by
  constructor
  · rintro rfl
    generalize none_ : ([] : List String) = down at reference
    cases reference with
    | below filled => exact absurd none_.symm filled
    | above climbs =>
      subst none_
      simpa using climbs
    | top => cases none_
  · rintro ⟨above, other⟩
    simpa using enters.later other target [] above (List.append_nil _).symm

/-- A reference only climbs, or refers to the root, or ends in the name that its target ends in. -/
theorem Reference.end_cases {source target lead down : List String}
    (reference : Reference source target lead down) :
    (down = [] ∧ ∃ count, lead = List.replicate (count + 1) "..") ∨
      (source = [] ∧ target = [] ∧ lead = [".."] ∧ down = [""]) ∨
      ∃ outer inner last, target = outer ++ [last] ∧ down = inner ++ [last] := by
  cases reference with
  | @below _ down filled =>
    obtain ⟨inner, last, rfl⟩ := (List.eq_nil_or_concat down).resolve_left filled
    exact .inr (.inr ⟨source ++ inner, inner, last, by simp, List.concat_eq_append⟩)
  | @above common climbed down climbs =>
    rcases List.eq_nil_or_concat down with rfl | ⟨inner, last, rfl⟩
    · obtain ⟨step, climbed, rfl⟩ := List.exists_cons_of_ne_nil climbs
      exact .inl ⟨rfl, climbed.length, rfl⟩
    · exact .inr (.inr ⟨common ++ inner, inner, last, by simp, List.concat_eq_append⟩)
  | top => exact .inr (.inl ⟨rfl, rfl, rfl, rfl⟩)

/-- A reference that enters a name beside the directory, or the directory's own one, climbs one
step. -/
theorem Reference.lead_eq {outer source lead : List String} {last name : String}
    (reference : Reference source (outer ++ [name]) lead [name])
    (source_eq : source = outer ++ [last]) : lead = [".."] := by
  generalize target_eq : outer ++ [name] = target at reference
  cases reference with
  | below _ =>
    rw [source_eq, List.append_assoc, List.append_right_inj] at target_eq
    cases target_eq
  | @above common climbed =>
    rw [← (List.append_singleton_inj.1 target_eq).1, List.append_right_inj] at source_eq
    rw [source_eq]
    rfl
  | top => rfl

/-- A reference that climbs one step leads beside the directory. -/
theorem Reference.target_eq {outer source target down : List String} {last : String}
    (reference : Reference source target [".."] down) (source_eq : source = outer ++ [last]) :
    target = outer ++ down := by
  generalize lead_eq : [".."] = lead at reference
  cases reference with
  | below _ => exact absurd lead_eq (by decide)
  | @above common climbed =>
    have size := congrArg List.length lead_eq
    rw [List.length_replicate] at size
    obtain ⟨step, rfl⟩ := List.length_eq_one_iff.1 size.symm
    rw [(List.append_singleton_inj.1 source_eq).1]
  | top => exact absurd source_eq (by simp)

/-- An ending: a hidden name of its own, and what makes another name of a name. -/
structure IsEnding (ending : String) : Prop where
  isName : IsName ending
  plain : Name.IsPlain ending
  point : ending.toList.head? = some '.'

/-- What an ending follows need not be a name, to become one. -/
theorem IsEnding.append {ending text : String} (isEnding : IsEnding ending) (filled : text ≠ "")
    (noSlash : '/' ∉ text.toList) : IsName (text ++ ending) := by
  have positive : 0 < text.toList.length := by
    rw [List.length_pos_iff]
    exact fun empty => filled (String.toList_inj.1 empty)
  have longer : 1 < ending.toList.length := by
    obtain ⟨rest, written⟩ := List.head?_eq_some_iff.1 isEnding.point
    cases rest with
    | nil => exact absurd (String.toList_inj.1 written) isEnding.isName.ne_current
    | cons next rest => rw [written, List.length_cons, List.length_cons]; omega
  have size : (text ++ ending).toList.length = text.toList.length + ending.toList.length := by
    rw [String.toList_append, List.length_append]
  have short {other : String} (few : other.toList.length < 3) : text ++ ending ≠ other := by
    rintro rfl
    omega
  refine ⟨short (by decide), short (by decide), short (by decide), ?_⟩
  rw [String.toList_append, List.mem_append, not_or]
  exact ⟨noSlash, isEnding.isName.noSlash⟩

/-- An ending by itself is the name of a hidden file. -/
theorem IsEnding.isHiddenName {ending : String} (isEnding : IsEnding ending) :
    isHiddenName ending = true := by
  rw [isEnding.plain.isHiddenName_iff, isEnding.point]
  rfl

/-- A climb with an ending would be hidden. -/
theorem IsEnding.isHiddenName_climb {ending : String} (isEnding : IsEnding ending) :
    Relink.isHiddenName (".." ++ ending) = true := by
  have plain : Name.IsPlain (".." ++ ending) := by
    rw [Name.IsPlain, String.toList_append, List.mem_append, not_or]
    exact ⟨by decide, isEnding.plain⟩
  rw [plain.isHiddenName_iff, String.toList_append]
  rfl

/-- What is shown for a name could be one. -/
theorem IsName.shown {name : String} (isName : IsName name) : IsName (Name.shown name) := by
  have apart {text : String} (clear : '\uFFFD' ∉ text.toList) (plain : Name.ofText text = text)
      (other : name ≠ text) : Name.shown name ≠ text := by
    intro same
    have isUnicode := Name.isUnicode_of_shown (same ▸ clear)
    exact other (by rw [← Name.ofText_shown isUnicode, same, plain])
  refine ⟨Name.shown_ne_empty isName.ne_empty, apart (by decide) (by decide) isName.ne_current,
    apart (by decide) (by decide) isName.ne_parent, fun slash => ?_⟩
  exact (Name.mem_shown slash).elim (by decide) isName.noSlash

/-- What is shown for names can be read as names. -/
theorem AreNames.shown {names : List String} (areNames : AreNames names) :
    AreNames (names.map Name.shown) := by
  intro text member
  obtain ⟨name, inside, rfl⟩ := List.mem_map.1 member
  exact (areNames name inside).shown

/-- What can be read as a name is one. -/
theorem IsName.ofText {text : String} (isName : IsName text) : IsName (Name.ofText text) := by
  have apart {other : String} (plain : Name.ofText other = other) (differs : text ≠ other) :
      Name.ofText text ≠ other :=
    fun same => differs (Name.ofText_injective (same.trans plain.symm))
  refine ⟨apart (by decide) isName.ne_empty, apart (by decide) isName.ne_current,
    apart (by decide) isName.ne_parent, ?_⟩
  rw [Name.slash_mem_ofText_iff]
  exact isName.noSlash

/-- What a name is seen as is one. -/
theorem AreNames.seen {names : List String} (areNames : AreNames names) :
    AreNames (names.map Name.seen) := by
  intro name member
  obtain ⟨name', inside, rfl⟩ := List.mem_map.1 member
  exact (areNames name' inside).shown.ofText

/-! ## Reading what is shown -/

/-- A way is read as a text name by name. -/
theorem ofText_way (steps : List String) :
    Name.ofText (way steps) = way (steps.map Name.ofText) := by
  induction steps with
  | nil => rfl
  | cons first steps ih =>
    cases steps with
    | nil => rfl
    | cons second steps =>
      rw [way_cons_cons, Name.ofText_append, Name.ofText_append, ih]
      rfl

/-- A reference is read as the names in it are seen. -/
theorem Reference.ofText_shownWay {source target lead down : List String}
    (reference : Reference source target lead down) :
    Name.ofText (shownWay lead down) = way (lead ++ down.map Name.seen) := by
  have plain : lead.map Name.ofText = lead := by
    cases reference with
    | below _ => decide
    | above _ => rw [List.map_replicate, show Name.ofText ".." = ".." by decide]
    | top => decide
  rw [shownWay, ofText_way, List.map_append, plain, List.map_map]
  rfl

/-- What is read is a reference too. It is the one that was shown if the names in it are Unicode. -/
theorem Reference.exists_seen {source target lead down : List String}
    (reference : Reference source target lead down) (areTarget : AreNames target) :
    ∃ target', AreNames target' ∧ Reference source target' lead (down.map Name.seen) ∧
      (down.map Name.seen = down -> target' = target) := by
  cases reference with
  | below filled =>
    refine ⟨_, areTarget.left.append areTarget.right.seen, .below (by simpa using filled),
      fun same => by rw [same]⟩
  | above climbs =>
    exact ⟨_, areTarget.left.append areTarget.right.seen, .above climbs, fun same => by rw [same]⟩
  | top => exact ⟨[], .nil, .top, fun _ => rfl⟩

namespace Path

/-- The parts of a reference are as many `..` as there are names to leave, and the names to
enter, as they are written. No name is left to be entered again. -/
theorem exists_relativeParts (source target : List String) :
    ∃ common climbed down, source = common ++ climbed ∧ target = common ++ down ∧
      (climbed ≠ [] -> climbed.head? ≠ down.head?) ∧
      ∀ write, relativeParts write (source.map .name) (target.map .name) =
        List.replicate climbed.length ".." ++ down.map write := by
  have texts (write : String -> String) (names : List String) :
      (names.map Component.name).map (fun part => write part.text) = names.map write :=
    List.map_map
  induction source generalizing target with
  | nil =>
    refine ⟨[], [], target, rfl, rfl, fun climbs => absurd rfl climbs, fun write => ?_⟩
    rw [List.map_nil, relativeParts, texts]
    · rfl
    · simp
  | cons step source ih =>
    cases target with
    | nil => exact ⟨[], step :: source, [], rfl, rfl, by simp, by simp [relativeParts]⟩
    | cons goal target =>
      by_cases same : step = goal
      · obtain ⟨common, climbed, down, rfl, rfl, apart, shape⟩ := ih target
        refine ⟨step :: common, climbed, down, rfl, by rw [same]; rfl, apart, fun write => ?_⟩
        rw [List.map_cons, List.map_cons, relativeParts, if_pos (congrArg _ same), shape]
      · refine ⟨[], step :: source, goal :: target, rfl, rfl, by simpa using same,
          fun write => ?_⟩
        rw [List.map_cons, List.map_cons, relativeParts,
          if_neg fun equal => same (Component.name.inj equal), List.length_map, ← List.map_cons,
          texts]
        rfl

/-- What is entered where two places part is new: nothing of it is left on the way up. -/
theorem enters_of_apart {common climbed down : List String}
    (apart : climbed ≠ [] -> climbed.head? ≠ down.head?)
    (other : common ++ down ≠ common ++ climbed) :
    Enters (common ++ climbed) (common ++ down) down := by
  refine ⟨fun _ kept names isKept shape => ?_, fun same => absurd same other⟩
  have isShared : kept <+: common := by
    rcases List.prefix_or_prefix_of_prefix isKept (List.prefix_append common climbed) with
      shared | ⟨more, rfl⟩
    · exact shared
    · cases more with
      | nil => simp
      | cons step more =>
        have up := List.prefix_append_right_inj common |>.1 isKept
        have goesDown : down = step :: more ++ names := by
          rwa [List.append_assoc, List.append_right_inj] at shape
        obtain ⟨later, rfl⟩ := up
        exact absurd (by rw [goesDown]; rfl) (apart (by simp))
  obtain ⟨between, rfl⟩ := isShared
  rw [List.append_assoc, List.append_right_inj] at shape
  exact ⟨between, shape⟩

/-- A relative path between two locations, with its lead. -/
theorem relative_path {source target : List String} (areSource : AreNames source)
    (areTarget : AreNames target) :
    (Location.path source).relative (Location.path target) =
      let joined := way (relativeParts Name.shown (source.map .name) (target.map .name))
      if joined = "" then "./"
      else if joined = ".." || Text.startsWith joined "../" then joined
      else "./" ++ joined := by
  rw [relative, Location.components_path areSource, Location.components_path areTarget,
    relativeParts, if_pos rfl]
  rfl

/-- The first segment of a way down is its first name. -/
theorem splitAt_way {down : List String} (filled : down ≠ []) (areDown : AreNames down) :
    Text.splitAt '/' (way down).toList = down.map String.toList := by
  rw [way, Text.toList_intercalate]
  refine Text.splitAt_joinWith (by simpa using filled) fun piece member => ?_
  obtain ⟨name, inside, rfl⟩ := List.mem_map.1 member
  exact (areDown name inside).noSlash

/-- A way down is not empty. -/
theorem way_ne_empty {down : List String} (filled : down ≠ []) (areDown : AreNames down) :
    way down ≠ "" := by
  intro empty
  have split := splitAt_way filled areDown
  rw [empty] at split
  obtain ⟨name, down, rfl⟩ := List.exists_cons_of_ne_nil filled
  exact (areDown name (by simp)).ne_empty (String.toList_inj.1 (List.cons.inj split).1.symm)

/-- A way down is not taken for a way up. -/
theorem way_not_upward {down : List String} (filled : down ≠ []) (areDown : AreNames down) :
    (way down = ".." || Text.startsWith (way down) "../") = false := by
  have split := splitAt_way filled areDown
  obtain ⟨name, down, rfl⟩ := List.exists_cons_of_ne_nil filled
  have isName := areDown name (by simp)
  rw [Bool.or_eq_false_iff]
  refine ⟨?_, ?_⟩
  · rw [decide_eq_false_iff_not]
    intro same
    rw [same] at split
    exact isName.ne_parent (String.toList_inj.1 (List.cons.inj split).1.symm)
  · rw [Bool.eq_false_iff]
    intro starts
    obtain ⟨rest, same⟩ := List.isPrefixOf_iff_prefix.1 starts
    have written : (way (name :: down)).toList = ['.', '.'] ++ '/' :: rest := same.symm
    rw [written, Text.splitAt_append] at split
    exact isName.ne_parent (String.toList_inj.1 (List.cons.inj split).1.symm)

/-- A way up begins with `..`, and ends there or goes on after a slash. -/
theorem way_upward (steps : List String) :
    (way (".." :: steps) = ".." || Text.startsWith (way (".." :: steps)) "../") = true := by
  cases steps with
  | nil => rfl
  | cons step steps =>
    rw [Bool.or_eq_true]
    refine .inr (List.isPrefixOf_iff_prefix.2 ⟨(way (step :: steps)).toList, ?_⟩)
    rw [way_cons_cons, String.toList_append, String.toList_append, List.append_assoc]
    rfl

/-- How the relative path from one location to another is written: `./` for the directory itself,
and a way with a `.` in front if it does not climb. -/
theorem exists_relative {source target : List String} (areSource : AreNames source)
    (areTarget : AreNames target) :
    ∃ common climbed down, source = common ++ climbed ∧ target = common ++ down ∧
      (climbed ≠ [] -> climbed.head? ≠ down.head?) ∧
      (∀ write, relativeParts write (source.map .name) (target.map .name) =
        List.replicate climbed.length ".." ++ down.map write) ∧
      (Location.path source).relative (Location.path target) =
        if climbed = [] then if down = [] then "./" else shownWay ["."] down
        else shownWay (List.replicate climbed.length "..") down := by
  obtain ⟨common, climbed, down, rfl, rfl, apart, shape⟩ := exists_relativeParts source target
  have relative := relative_path areSource areTarget
  rw [shape] at relative
  refine ⟨common, climbed, down, rfl, rfl, apart, shape, ?_⟩
  have areDown : AreNames (down.map Name.shown) := areTarget.right.shown
  -- A way down gets `./` in front, a way up stays as it is.
  by_cases climbs : climbed = []
  · subst climbs
    rw [if_pos rfl]
    rw [List.length_nil, List.replicate_zero, List.nil_append] at relative
    by_cases filled : down = []
    · subst filled
      exact relative
    · have reference : shownWay ["."] down = "./" ++ way (down.map Name.shown) := by
        obtain ⟨name, down, rfl⟩ := List.exists_cons_of_ne_nil filled
        rfl
      have filled' : down.map Name.shown ≠ [] := by simpa using filled
      dsimp only at relative
      rw [if_neg (way_ne_empty filled' areDown), way_not_upward filled' areDown,
        if_neg (by decide)] at relative
      rw [relative, if_neg filled, reference]
  · obtain ⟨step, climbed, rfl⟩ := List.exists_cons_of_ne_nil climbs
    rw [if_neg climbs, shownWay]
    rw [List.length_cons, List.replicate_succ, List.cons_append] at relative ⊢
    have upward := way_upward (List.replicate climbed.length ".." ++ down.map Name.shown)
    have filled : way (".." :: (List.replicate climbed.length ".." ++ down.map Name.shown)) ≠ "" := by
      intro empty
      rw [empty] at upward
      exact absurd upward (by decide)
    dsimp only at relative
    rw [relative, if_neg filled, if_pos upward]

/-- The candidates for a target are a reference to it as it is shown, and what an ending makes of
it. -/
theorem exists_reference {source target : List String} (areSource : AreNames source)
    (areTarget : AreNames target) :
    ∃ lead down, Reference source target lead down ∧ Enters source target down ∧ ∀ ending,
      Specifier.candidates ((Location.path source).relative (Location.path target))
          (Location.path target) ending =
        [shownWay lead down, shownWay lead down ++ ending,
          shownWay lead down ++ "/index" ++ ending] := by
  obtain ⟨common, climbed, down, rfl, rfl, apart, -, relative⟩ :=
    exists_relative areSource areTarget
  have candidates {reference : String} (ending : String) (other : reference ≠ "./")
      (target : Path) : Specifier.candidates reference target ending =
        [reference, reference ++ ending, reference ++ "/index" ++ ending] := by
    rw [Specifier.candidates, if_neg other]
  have areDown : AreNames (down.map Name.shown) := areTarget.right.shown
  by_cases climbs : climbed = []
  · subst climbs
    rw [if_pos rfl] at relative
    by_cases filled : down = []
    · subst filled
      -- The directory refers to itself.
      rw [if_pos rfl] at relative
      rcases List.eq_nil_or_concat common with rfl | ⟨outer, name, rfl⟩
      · exact ⟨[".."], [""], .top, ⟨by simp, fun _ => rfl⟩, fun ending => by
          rw [relative]
          rfl⟩
      · simp only [List.append_nil, List.concat_eq_append] at areSource relative ⊢
        refine ⟨[".."], [name], .above (by simp), ⟨by simp, by simp⟩, fun ending => ?_⟩
        rw [relative, Specifier.candidates, if_pos rfl, Location.fileName?_path areSource]
        rfl
    · rw [if_neg filled] at relative
      refine ⟨["."], down, ?_, enters_of_apart apart (by simpa using filled), fun ending => ?_⟩
      · rw [List.append_nil]
        exact .below filled
      · obtain ⟨name, down, rfl⟩ := List.exists_cons_of_ne_nil filled
        rw [relative]
        refine candidates ending (fun same => ?_) _
        rw [shownWay, List.map_cons, List.singleton_append, way_cons_cons] at same
        exact way_ne_empty (by simp) areDown (String.append_right_inj "./" |>.1 same)
  · have other : common ++ down ≠ common ++ climbed := by
      rw [ne_eq, List.append_right_inj]
      rintro rfl
      exact apart climbs rfl
    rw [if_neg climbs] at relative
    refine ⟨_, down, .above climbs, enters_of_apart apart other, fun ending => ?_⟩
    rw [relative]
    refine candidates ending (fun same => ?_) _
    obtain ⟨step, climbed, rfl⟩ := List.exists_cons_of_ne_nil climbs
    have upward := way_upward (List.replicate climbed.length ".." ++ down.map Name.shown)
    rw [← List.cons_append, ← List.replicate_succ, ← List.length_cons, ← shownWay, same] at upward
    exact absurd upward (by decide)

/-! ## Names that are shown -/

/-- The candidates for a directory are those for what lies beside it under the name that is seen. -/
theorem candidates_seen {outer : List String} {last : String}
    (areSource : AreNames (outer ++ [last])) (other : Name.seen last ≠ last) (ending : String) :
    let source := Location.path (outer ++ [last])
    let beside := Location.path (outer ++ [Name.seen last])
    Specifier.candidates (source.relative beside) beside ending =
      Specifier.candidates (source.relative source) source ending := by
  have areBeside : AreNames (outer ++ [Name.seen last]) :=
    areSource.left.append (List.map_singleton ▸ areSource.right.seen)
  obtain ⟨lead, down, reference, enters, candidates⟩ := exists_reference areSource areSource
  obtain ⟨lead', down', reference', enters', candidates'⟩ := exists_reference areSource areBeside
  have apart : outer ++ [Name.seen last] ≠ outer ++ [last] := by simpa using other
  obtain rfl : down = [last] := by rw [enters.itself rfl, List.getLast?_concat, Option.getD_some]
  obtain rfl : down' = [Name.seen last] := by
    have entered := enters'.later apart outer [Name.seen last] (List.prefix_append ..) rfl
    rcases List.suffix_cons_iff.1 entered with whole | none_
    · exact whole
    · have above := ((reference'.eq_nil_iff enters').1 (List.suffix_nil.1 none_)).1
      exact absurd (above.eq_of_length (by simp)) apart
  obtain rfl := reference.lead_eq rfl
  obtain rfl := reference'.lead_eq rfl
  dsimp only
  rw [candidates, candidates', shownWay, shownWay, List.map_singleton, List.map_singleton,
    Name.shown_seen]

/-- Only the names of two locations count for the way between them. -/
theorem relativeParts_path {source target : List String} (areSource : AreNames source)
    (areTarget : AreNames target) :
    relativeParts id (Location.path source).components (Location.path target).components =
      relativeParts id (source.map .name) (target.map .name) := by
  rw [Location.components_path areSource, Location.components_path areTarget, relativeParts,
    if_pos rfl]

/-- Whether the names that the way from a directory to a target enters are Unicode. -/
def HasUnicodeWay (directory target : Path) : Prop :=
  ∀ part ∈ relativeParts id directory.components target.components, Name.isUnicode part = true

instance (directory target : Path) : Decidable (directory.HasUnicodeWay target) :=
  inferInstanceAs (Decidable (∀ part ∈ relativeParts id directory.components target.components,
    Name.isUnicode part = true))

/-- Whether a reference from a directory to a target shows every name as it is: those on the way,
and the directory's own one, which a reference to the directory itself enters. -/
structure HasUnicodeReference (directory target : Path) : Prop where
  way : directory.HasUnicodeWay target
  itself : target = directory -> ∀ name ∈ directory.fileName?, Name.isUnicode name = true

/-- Names that lead down from the common part are all that is asked to be Unicode. -/
theorem hasUnicodeWay_iff {common climbed down : List String}
    (areSource : AreNames (common ++ climbed)) (areTarget : AreNames (common ++ down))
    (shape : relativeParts id ((common ++ climbed).map .name) ((common ++ down).map .name) =
      List.replicate climbed.length ".." ++ down.map id) :
    (Location.path (common ++ climbed)).HasUnicodeWay (Location.path (common ++ down)) ↔
      ∀ name ∈ down, Name.isUnicode name = true := by
  rw [HasUnicodeWay, relativeParts_path areSource areTarget, shape, List.map_id,
    List.forall_mem_append]
  refine and_iff_right fun part member => ?_
  rw [List.eq_of_mem_replicate member]
  decide

/-- The names that a reference enters are seen as they are, if they are Unicode. -/
theorem HasUnicodeReference.map_seen {source target down : List String}
    (unicode : (Location.path source).HasUnicodeReference (Location.path target))
    (areSource : AreNames source) (areTarget : AreNames target)
    (enters : Enters source target down) : down.map Name.seen = down := by
  rw [Name.map_seen_eq_iff]
  by_cases same : target = source
  · rw [enters.itself same, List.forall_mem_singleton]
    rcases List.eq_nil_or_concat source with rfl | ⟨outer, last, rfl⟩
    · decide
    · rw [List.concat_eq_append] at areSource unicode same ⊢
      rw [List.getLast?_concat]
      exact unicode.itself (by rw [same]) last (Location.fileName?_path areSource)
  · obtain ⟨common, climbed, names, rfl, rfl, -, shape⟩ := exists_relativeParts source target
    have entered := enters.later same common names (List.prefix_append ..) rfl
    have areUnicode := (hasUnicodeWay_iff areSource areTarget (shape id)).1 unicode.way
    exact fun name member => areUnicode name (entered.subset member)

/-! ## Where a reference leads -/

/-- A way that begins with a dot is relative. -/
theorem isRelative_way {first : String} {tail : List Char} (steps : List String)
    (point : first.toList = '.' :: tail) : IsRelative (way (first :: steps)) := by
  have written : ∃ rest, (way (first :: steps)).toList = '.' :: rest := by
    cases steps with
    | nil => exact ⟨tail, point⟩
    | cons step steps =>
      refine ⟨tail ++ '/' :: (way (step :: steps)).toList, ?_⟩
      rw [way_cons_cons, String.toList_append, String.toList_append, point, List.append_assoc]
      rfl
  obtain ⟨rest, written⟩ := written
  rw [IsRelative, isAbsolute, written]
  rfl

/-- Reading a way from a location follows its steps. -/
theorem normalize_join_way {source steps : List String} {first : String} {tail : List Char}
    (areSource : AreNames source) (point : first.toList = '.' :: tail)
    (noSlash : ∀ step ∈ first :: steps, '/' ∉ step.toList) :
    ((Location.path source).join ⟨way (first :: steps)⟩).normalize =
      Location.path (((first :: steps).filterMap fun step =>
        Component.ofSegment? step.toList).foldl follow source) := by
  rw [normalize_join areSource (isRelative_way steps point), way,
    parts_intercalate (by simp) noSlash]

/-- Two dots are read as a step up. -/
theorem filterMap_parents (count : Nat) :
    (List.replicate count "..").filterMap (fun step => Component.ofSegment? step.toList) =
      List.replicate count .parent := by
  rw [List.filterMap_replicate]
  rfl

theorem noSlash_parents {count : Nat} {step : String} (member : step ∈ List.replicate count "..") :
    '/' ∉ step.toList := by
  rw [List.eq_of_mem_replicate member]
  decide

/-- What the parts of a reference are, when it goes on with more names: so many `..` as lead up to
what is shared, and then names. At the root there is nothing to lead up to. -/
theorem parts_reference {source target lead down later : List String}
    (reference : Reference source target lead down) (areTarget : AreNames target)
    (areLater : AreNames later) :
    (∃ common climbed, source = common ++ climbed ∧ target = common ++ down ∧
      parts (way (lead ++ down ++ later)) =
        List.replicate climbed.length .parent ++ (down ++ later).map .name) ∨
      (source = [] ∧ target = [] ∧ down = [""] ∧
        parts (way (lead ++ down ++ later)) = .parent :: later.map .name) := by
  have written {steps : List String} (filled : steps ≠ [])
      (noSlash : ∀ step ∈ steps, '/' ∉ step.toList) : parts (way steps) =
        steps.filterMap fun step => Component.ofSegment? step.toList :=
    parts_intercalate filled noSlash
  have names {names : List String} (areNames : AreNames names) (step : String)
      (member : step ∈ names) : '/' ∉ step.toList :=
    (areNames step member).noSlash
  -- The root is apart: its reference to itself goes up, where nothing is, and has an empty name.
  cases reference with
  | @below down filled =>
    have areNames : AreNames (down ++ later) := areTarget.right.append areLater
    refine .inl ⟨source, [], (List.append_nil _).symm, rfl, ?_⟩
    rw [List.append_assoc, written (by simp)]
    · rw [List.filterMap_append, filterMap_ofSegment?_names areNames]
      rfl
    · exact List.forall_mem_append.2 ⟨by decide, names areNames⟩
  | @above common climbed down climbs =>
    have areNames : AreNames (down ++ later) := areTarget.right.append areLater
    refine .inl ⟨common, climbed, rfl, rfl, ?_⟩
    rw [List.append_assoc, written (by simp [climbs])]
    · rw [List.filterMap_append, filterMap_ofSegment?_names areNames, filterMap_parents]
    · exact List.forall_mem_append.2 ⟨fun _ member => noSlash_parents member, names areNames⟩
  | top =>
    refine .inr ⟨rfl, rfl, rfl, ?_⟩
    rw [List.append_assoc, written (by simp)]
    · rw [List.filterMap_append, List.filterMap_append, filterMap_ofSegment?_names areLater]
      rfl
    · exact List.forall_mem_append.2 ⟨by decide,
        List.forall_mem_append.2 ⟨by decide, names areLater⟩⟩

/-- A reference is relative, wherever it goes on to. -/
theorem isRelative_reference {source target lead down : List String}
    (reference : Reference source target lead down) (later : List String) :
    IsRelative (way (lead ++ down ++ later)) := by
  cases reference with
  | below _ => exact isRelative_way _ rfl
  | @above common climbed down climbs =>
    obtain ⟨name, climbed, rfl⟩ := List.exists_cons_of_ne_nil climbs
    rw [List.length_cons, List.replicate_succ]
    exact isRelative_way _ rfl
  | top => exact isRelative_way _ rfl

/-- A reference leads to its target, and a reference with more names leads on from there. -/
theorem normalize_join_reference {source target lead down later : List String}
    (reference : Reference source target lead down) (areSource : AreNames source)
    (areTarget : AreNames target) (areLater : AreNames later) :
    ((Location.path source).join ⟨way (lead ++ down ++ later)⟩).normalize =
      Location.path (target ++ later) := by
  rw [normalize_join areSource (isRelative_reference reference later)]
  rcases parts_reference reference areTarget areLater with
    ⟨common, climbed, rfl, rfl, shape⟩ | ⟨rfl, rfl, -, shape⟩
  · rw [shape, List.foldl_append, follow_parents, follow_names, List.append_assoc]
  · rw [shape, List.foldl_cons, follow_names]
    rfl

/-- A reference leads to its target. -/
theorem normalize_join_target {source target lead down : List String}
    (reference : Reference source target lead down) (areSource : AreNames source)
    (areTarget : AreNames target) :
    ((Location.path source).join ⟨way (lead ++ down)⟩).normalize = Location.path target := by
  have leads := normalize_join_reference reference areSource areTarget .nil
  rwa [List.append_nil, List.append_nil] at leads

/-- The last name of a reference can be exchanged, and the target's with it. -/
theorem exchange_last {source target lead down : List String} {last : String} (name : String)
    (reference : Reference source target lead (down ++ [last])) (filled : last ≠ "") :
    ∃ outer, target = outer ++ [last] ∧
      Reference source (outer ++ [name]) lead (down ++ [name]) := by
  generalize shape : down ++ [last] = names at reference
  cases reference with
  | below _ =>
    subst shape
    exact ⟨source ++ down, by simp, by
      rw [List.append_assoc]
      exact .below (by simp)⟩
  | @above common climbed _ climbs =>
    subst shape
    exact ⟨common ++ down, by simp, by
      rw [List.append_assoc]
      exact .above climbs⟩
  | top =>
    have ends : (down ++ [last]).getLast? = [""].getLast? := by rw [shape]
    rw [List.getLast?_concat] at ends
    exact absurd (Option.some.inj ends) filled

/-- A climb with an ending leads to a hidden entry: the ending makes a name of the last `..`. -/
theorem normalize_join_climb {source : List String} {ending : String} (count : Nat)
    (areSource : AreNames source) (isEnding : IsEnding ending) :
    ∃ outer, AreNames (outer ++ [".." ++ ending]) ∧
      ((Location.path source).join ⟨way (List.replicate (count + 1) "..") ++ ending⟩).normalize =
        Location.path (outer ++ [".." ++ ending]) := by
  have isName := isEnding.append (by decide : ".." ≠ "") (by decide)
  have noSlash : ∀ step ∈ List.replicate count ".." ++ [".." ++ ending], '/' ∉ step.toList := by
    intro step member
    rcases List.mem_append.1 member with inside | inside
    · exact noSlash_parents inside
    · rw [List.mem_singleton.1 inside]
      exact isName.noSlash
  have leads : ((Location.path source).join
      ⟨way (List.replicate (count + 1) "..") ++ ending⟩).normalize =
        Location.path (((List.replicate count ".." ++ [".." ++ ending]).filterMap
          fun step => Component.ofSegment? step.toList).foldl follow source) := by
    rw [List.replicate_succ', way, Text.intercalate_append]
    cases count with
    | zero => exact normalize_join_way areSource String.toList_append noSlash
    | succ count =>
      rw [List.replicate_succ, List.cons_append] at noSlash ⊢
      exact normalize_join_way areSource rfl noSlash
  rw [List.filterMap_append, filterMap_parents, List.filterMap_cons,
    Component.ofSegment?_name isName, List.foldl_append] at leads
  refine ⟨_, ?_, leads⟩
  refine (areNames_follow areSource fun component member => ?_).append (.singleton isName)
  exact .inl (List.eq_of_mem_replicate member)

/-- The reference to the root with an ending leads to a hidden entry of the root. -/
theorem normalize_join_top {ending : String} (isEnding : IsEnding ending) :
    ((Location.path []).join ⟨way ["..", ""] ++ ending⟩).normalize =
      Location.path [ending] := by
  have noSlash : ∀ step ∈ ["..", ending], '/' ∉ step.toList := by
    intro step member
    simp only [List.mem_cons, List.not_mem_nil, or_false] at member
    rcases member with rfl | rfl
    · decide
    · exact isEnding.isName.noSlash
  have leads := normalize_join_way .nil rfl noSlash
  rw [List.filterMap_cons, List.filterMap_cons, Component.ofSegment?_name isEnding.isName] at leads
  exact leads

/-- A reference that ends in a name leads with an ending to the target with the ending. -/
theorem normalize_join_last {source target lead down : List String} {last ending : String}
    (reference : Reference source target lead (down ++ [last])) (filled : last ≠ "")
    (areSource : AreNames source) (areTarget : AreNames target) (isEnding : IsEnding ending) :
    ∃ outer, target = outer ++ [last] ∧
      ((Location.path source).join ⟨way (lead ++ (down ++ [last])) ++ ending⟩).normalize =
        Location.path (outer ++ [last ++ ending]) := by
  obtain ⟨outer, rfl, exchanged⟩ := exchange_last (last ++ ending) reference filled
  have isName := isEnding.append filled (areTarget last (by simp)).noSlash
  have areNames : AreNames (outer ++ [last ++ ending]) := areTarget.left.append (.singleton isName)
  refine ⟨outer, rfl, ?_⟩
  have leads := normalize_join_target exchanged areSource areNames
  rw [← leads, ← List.append_assoc, ← List.append_assoc, way, way, Text.intercalate_append]

/-- A reference that only climbs leads with an ending to a hidden entry. -/
theorem normalize_join_up {source target lead : List String} {ending : String}
    (reference : Reference source target lead []) (areSource : AreNames source)
    (isEnding : IsEnding ending) :
    ∃ outer name, isHiddenName name = true ∧ AreNames (outer ++ [name]) ∧
      ((Location.path source).join ⟨way (lead ++ []) ++ ending⟩).normalize =
        Location.path (outer ++ [name]) := by
  generalize none_ : ([] : List String) = down at reference
  cases reference with
  | below filled => exact absurd none_.symm filled
  | top => cases none_
  | @above common climbed _ climbs =>
    subst none_
    obtain ⟨step, climbed, rfl⟩ := List.exists_cons_of_ne_nil climbs
    obtain ⟨outer, areNames, leads⟩ := normalize_join_climb climbed.length areSource isEnding
    refine ⟨outer, ".." ++ ending, isEnding.isHiddenName_climb, areNames, ?_⟩
    rw [List.append_nil]
    exact leads

/-- A reference with an ending leads to the target with the ending. A reference that ends without
a name leads with the ending to a hidden entry. -/
theorem normalize_join_ending {source target lead down : List String} {ending : String}
    (reference : Reference source target lead down) (areSource : AreNames source)
    (areTarget : AreNames target) (isEnding : IsEnding ending) :
    (∃ outer last, down ≠ [] ∧ target = outer ++ [last] ∧
        ((Location.path source).join ⟨way (lead ++ down) ++ ending⟩).normalize =
          Location.path (outer ++ [last ++ ending])) ∨
      ∃ outer name, isHiddenName name = true ∧ AreNames (outer ++ [name]) ∧
        ((Location.path source).join ⟨way (lead ++ down) ++ ending⟩).normalize =
          Location.path (outer ++ [name]) := by
  rcases reference.end_cases with ⟨rfl, -⟩ | ⟨rfl, rfl, rfl, rfl⟩ | ⟨outer, inner, last, rfl, rfl⟩
  · exact .inr (normalize_join_up reference areSource isEnding)
  · exact .inr ⟨[], ending, isEnding.isHiddenName, .singleton isEnding.isName,
      normalize_join_top isEnding⟩
  · obtain ⟨outer', same, leads⟩ := normalize_join_last reference
      (areTarget last (by simp)).ne_empty areSource areTarget isEnding
    exact .inl ⟨outer', last, by simp, same, leads⟩

/-- A reference with an index goes on with one more name. -/
theorem way_index {source target lead down : List String}
    (reference : Reference source target lead down) (ending : String) :
    way (lead ++ down ++ ["index" ++ ending]) = way (lead ++ down) ++ "/index" ++ ending := by
  have filled : lead ++ down ≠ [] := by
    cases reference with
    | below _ => simp
    | above climbs => simp [climbs]
    | top => simp
  rw [way, Text.intercalate_concat filled, way]
  simp only [String.append_assoc]
  rfl

/-- A reference with an index leads to the index of the target. -/
theorem normalize_join_index {source target lead down : List String} {ending : String}
    (reference : Reference source target lead down) (areSource : AreNames source)
    (areTarget : AreNames target) (isEnding : IsEnding ending) :
    ((Location.path source).join ⟨way (lead ++ down) ++ "/index" ++ ending⟩).normalize =
      Location.path (target ++ ["index" ++ ending]) := by
  have areIndex : AreNames ["index" ++ ending] :=
    .singleton (isEnding.append (by decide) (by decide))
  rw [← way_index reference]
  exact normalize_join_reference reference areSource areTarget areIndex

/-- A reference is shown as `..`, or it begins with `./` or `../`. -/
theorem shownWay_reference {source target lead down : List String}
    (reference : Reference source target lead down) :
    (shownWay lead down = ".." ∧ down = []) ∨
      Text.startsWith (shownWay lead down) "./" = true ∨
      Text.startsWith (shownWay lead down) "../" = true := by
  have goesOn (first second : String) (steps : List String) :
      Text.startsWith (way (first :: second :: steps)) (first ++ "/") = true := by
    rw [way_cons_cons]
    exact List.isPrefixOf_iff_prefix.2 ⟨_, String.toList_append.symm⟩
  rw [shownWay]
  cases reference with
  | below filled =>
    obtain ⟨name, down, rfl⟩ := List.exists_cons_of_ne_nil filled
    exact .inr (.inl (goesOn "." (Name.shown name) (down.map Name.shown)))
  | above climbs =>
    obtain ⟨name, climbed, rfl⟩ := List.exists_cons_of_ne_nil climbs
    rw [List.length_cons, List.replicate_succ, List.cons_append]
    cases shape : List.replicate climbed.length ".." ++ down.map Name.shown with
    | nil => exact .inl ⟨rfl, by simpa using (List.append_eq_nil_iff.1 shape).2⟩
    | cons step steps => exact .inr (.inr (goesOn ".." step steps))
  | top => exact .inr (.inr (by decide))

end Path
end Relink
