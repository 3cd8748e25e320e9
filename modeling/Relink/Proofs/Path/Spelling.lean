import Mathlib.Data.List.Induction
import Relink.Path.Normal
import Relink.Proofs.Name
import Relink.Tree

/-!
# How absolute paths are written

The path of a location is the text that names its place from the root. This module reads such a
text back: its components, its parent, its last name, and what comes of joining a name to it.
-/

namespace Relink

/-- A name that an entry of a directory can have. -/
structure IsName (name : String) : Prop where
  ne_empty : name ≠ ""
  ne_current : name ≠ "."
  ne_parent : name ≠ ".."
  noSlash : '/' ∉ name.toList

instance (name : String) : Decidable (IsName name) :=
  decidable_of_iff (name ≠ "" ∧ name ≠ "." ∧ name ≠ ".." ∧ '/' ∉ name.toList)
    ⟨fun ⟨filled, current, parent, noSlash⟩ => ⟨filled, current, parent, noSlash⟩,
      fun isName => ⟨isName.ne_empty, isName.ne_current, isName.ne_parent, isName.noSlash⟩⟩

/-- Whether a list of names writes a location. -/
def AreNames (names : List String) : Prop :=
  ∀ name ∈ names, IsName name

instance (names : List String) : Decidable (AreNames names) :=
  inferInstanceAs (Decidable (∀ name ∈ names, IsName name))

/-- Names behind names are names. -/
theorem AreNames.append {names later : List String} (first : AreNames names)
    (second : AreNames later) : AreNames (names ++ later) := by
  intro name member
  rcases List.mem_append.1 member with member | member
  · exact first name member
  · exact second name member

theorem AreNames.left {names later : List String} (both : AreNames (names ++ later)) :
    AreNames names :=
  fun name member => both name (List.mem_append_left _ member)

theorem AreNames.right {names later : List String} (both : AreNames (names ++ later)) :
    AreNames later :=
  fun name member => both name (List.mem_append_right _ member)

theorem AreNames.nil : AreNames [] :=
  fun _ impossible => by cases impossible

theorem AreNames.singleton {name : String} (isName : IsName name) : AreNames [name] :=
  fun _ member => List.mem_singleton.1 member ▸ isName

/-! ## Splitting and joining -/

namespace Text

/-- A separator parts the pieces of a text into those before and those after it. -/
theorem splitAt_append (separator : Char) (first second : List Char) :
    splitAt separator (first ++ separator :: second) =
      splitAt separator first ++ splitAt separator second := by
  induction first with
  | nil => simp [splitAt]
  | cons character rest ih =>
    rw [List.cons_append, splitAt, splitAt, ih]
    split
    · rfl
    · cases split : splitAt separator rest with
      | nil => exact absurd split (splitAt_ne_nil separator rest)
      | cons piece pieces => rfl

/-- A text without a separator is one piece. -/
theorem splitAt_of_not_mem {separator : Char} {text : List Char} (absent : separator ∉ text) :
    splitAt separator text = [text] := by
  induction text with
  | nil => rfl
  | cons character rest ih =>
    simp only [List.mem_cons, not_or] at absent
    rw [splitAt, if_neg (Ne.symm absent.1), ih absent.2]

/-- `joinWith` loses nothing: splitting gives the pieces back. -/
theorem splitAt_joinWith {separator : Char} {pieces : List (List Char)} (filled : pieces ≠ [])
    (absent : ∀ piece ∈ pieces, separator ∉ piece) :
    splitAt separator (joinWith separator pieces) = pieces := by
  induction pieces with
  | nil => exact absurd rfl filled
  | cons piece pieces ih =>
    cases pieces with
    | nil => exact splitAt_of_not_mem (absent piece (List.mem_singleton_self piece))
    | cons next others =>
      rw [joinWith, splitAt_append, splitAt_of_not_mem (absent piece (List.mem_cons_self ..)),
        ih (by simp) fun other member => absent other (List.mem_cons_of_mem _ member),
        List.singleton_append]
      · simp

/-- Texts put together by slashes, character by character. -/
theorem toList_intercalate (texts : List String) :
    (intercalate "/" texts).toList = joinWith '/' (texts.map String.toList) := by
  induction texts with
  | nil => rfl
  | cons text texts ih =>
    cases texts with
    | nil => rfl
    | cons next others =>
      rw [intercalate, String.toList_append, String.toList_append, ih]
      · simp [joinWith]
      · simp

/-- A last text is put behind the others with a slash. -/
theorem intercalate_concat {texts : List String} (filled : texts ≠ []) (last : String) :
    intercalate "/" (texts ++ [last]) = intercalate "/" texts ++ "/" ++ last := by
  induction texts with
  | nil => exact absurd rfl filled
  | cons text texts ih =>
    cases texts with
    | nil => rfl
    | cons next others =>
      have later := ih (by simp)
      simp only [List.cons_append, intercalate] at later ⊢
      rw [later, String.append_assoc, String.append_assoc, String.append_assoc, String.append_assoc,
        String.append_assoc]

/-- What is written after the last of several texts belongs to it. -/
theorem intercalate_append (texts : List String) (last addition : String) :
    intercalate "/" (texts ++ [last]) ++ addition =
      intercalate "/" (texts ++ [last ++ addition]) := by
  by_cases filled : texts = []
  · subst filled
    rfl
  · rw [intercalate_concat filled, intercalate_concat filled, String.append_assoc]

end Text

/-! ## Segments and components -/

namespace Component

/-- A name is read as itself. -/
theorem ofSegment?_name {name : String} (isName : IsName name) :
    ofSegment? name.toList = some (.name name) := by
  unfold ofSegment?
  split
  · rename_i empty
    exact absurd (String.toList_inj.1 empty) isName.ne_empty
  · rename_i current
    exact absurd (String.toList_inj.1 current) isName.ne_current
  · rename_i parent
    exact absurd (String.toList_inj.1 parent) isName.ne_parent
  · rw [String.ofList_toList]

/-- A segment that is a name is that name. -/
theorem ofSegment?_eq_name {segment : List Char} {name : String}
    (found : ofSegment? segment = some (.name name)) : name = String.ofList segment := by
  unfold ofSegment? at found
  split at found
  · cases found
  · cases found
  · cases found
  · exact (Component.name.inj (Option.some.inj found)).symm

/-- What stands between slashes is `..` or a name, if it means anything. -/
theorem ofSegment?_eq_some {segment : List Char} {component : Component}
    (found : ofSegment? segment = some component) (noSlash : '/' ∉ segment) :
    component = .parent ∨ ∃ name, component = .name name ∧ IsName name := by
  unfold ofSegment? at found
  split at found
  · cases found
  · cases found
  · exact .inl (Option.some.inj found).symm
  · rename_i empty current parent
    have written {text : String} (same : String.ofList segment = text) :
        segment = text.toList := by
      rw [← same, String.toList_ofList]
    exact .inr ⟨String.ofList segment, (Option.some.inj found).symm,
      fun same => empty (written same),
      fun same => current (written same), fun same => parent (written same),
      by rwa [String.toList_ofList]⟩

end Component

/-- The components of a text that does not begin a path. -/
def parts (text : String) : List Component :=
  (Text.splitAt '/' text.toList).filterMap Component.ofSegment?

/-- Only `..` and names come after the front of a path. -/
theorem of_mem_parts {text : String} {component : Component} (member : component ∈ parts text) :
    component = .parent ∨ ∃ name, component = .name name ∧ IsName name := by
  obtain ⟨segment, inside, found⟩ := List.mem_filterMap.1 member
  exact Component.ofSegment?_eq_some found (Text.not_mem_of_mem_splitAt inside)

/-- The components of steps put together. -/
theorem parts_intercalate {steps : List String} (filled : steps ≠ [])
    (noSlash : ∀ step ∈ steps, '/' ∉ step.toList) :
    parts (Text.intercalate "/" steps) =
      steps.filterMap fun step => Component.ofSegment? step.toList := by
  rw [parts, Text.toList_intercalate, Text.splitAt_joinWith (by simpa using filled)]
  · rw [List.filterMap_map]
    rfl
  · intro piece member
    obtain ⟨step, inside, rfl⟩ := List.mem_map.1 member
    exact noSlash step inside

/-- A text that is read as a path is cut where the text is. -/
theorem Text.splitAt_ofText (chars : List Char) :
    splitAt '/' (chars.flatMap fun char => (Name.Atom.character char).written) =
      (splitAt '/' chars).map fun piece =>
        piece.flatMap fun char => (Name.Atom.character char).written := by
  have cons {char : Char} (other : char ≠ '/') {text piece : List Char}
      {pieces : List (List Char)} (split : splitAt '/' text = piece :: pieces) :
      splitAt '/' (char :: text) = (char :: piece) :: pieces := by
    rw [splitAt, if_neg other, split]
  induction chars with
  | nil => rfl
  | cons char chars ih =>
    by_cases slash : char = '/'
    · rw [slash, List.flatMap_cons, show (Name.Atom.character '/').written = ['/'] by decide,
        List.singleton_append, splitAt, splitAt, if_pos rfl, if_pos rfl, ih]
      rfl
    · cases split : splitAt '/' chars with
      | nil => exact absurd split (splitAt_ne_nil '/' chars)
      | cons piece pieces =>
        rw [split, List.map_cons] at ih
        rw [cons slash split, List.map_cons, List.flatMap_cons, List.flatMap_cons,
          Name.Atom.written]
        split
        · exact cons (by decide) (cons (by decide) ih)
        · exact cons slash ih

/-- The names in a text that is read as a path are what is read for those of the text. -/
theorem exists_of_mem_parts_ofText {text name : String}
    (member : .name name ∈ parts (Name.ofText text)) :
    ∃ part, name = Name.ofText part ∧ .name part ∈ parts text := by
  obtain ⟨segment, inside, found⟩ := List.mem_filterMap.1 member
  rw [Name.toList_ofText, Text.splitAt_ofText] at inside
  obtain ⟨piece, among, rfl⟩ := List.mem_map.1 inside
  refine ⟨String.ofList piece, ?_, List.mem_filterMap.2 ⟨piece, among, ?_⟩⟩
  · rw [Component.ofSegment?_eq_name found, Name.ofText, String.toList_ofList]
  · unfold Component.ofSegment?
    split
    · cases found
    · cases found
    · cases found
    · rfl

/-- Names are read as themselves. -/
theorem filterMap_ofSegment?_names {names : List String} (areNames : AreNames names) :
    names.filterMap (fun name => Component.ofSegment? name.toList) = names.map .name := by
  induction names with
  | nil => rfl
  | cons name names ih =>
    rw [List.filterMap_cons, Component.ofSegment?_name (areNames name (List.mem_cons_self ..)),
      ih fun other member => areNames other (List.mem_cons_of_mem _ member)]
    rfl

namespace Location

theorem path_text (names : List String) : (path names).text = "/" ++ Text.intercalate "/" names :=
  rfl

theorem toList_path (names : List String) :
    (path names).text.toList = '/' :: Text.joinWith '/' (names.map String.toList) := by
  rw [path_text, String.toList_append, Text.toList_intercalate]
  rfl

/-- The path of a location is absolute. -/
theorem path_isAbsolute (names : List String) : (path names).isAbsolute = true := by
  rw [Path.isAbsolute, toList_path]
  rfl

/-- Behind the root, the path of a location has its names as segments. -/
theorem segments_path {names : List String} (filled : names ≠ []) (areNames : AreNames names) :
    (path names).segments = [] :: names.map String.toList := by
  have absent : ∀ piece ∈ names.map String.toList, '/' ∉ piece := by
    intro piece member
    obtain ⟨name, inside, rfl⟩ := List.mem_map.1 member
    exact (areNames name inside).noSlash
  rw [Path.segments, toList_path, Text.splitAt, if_pos rfl,
    Text.splitAt_joinWith (by simpa using filled) absent]

/-- The path of a location leads from the root down along its names. -/
theorem components_path {names : List String} (areNames : AreNames names) :
    (path names).components = .root :: names.map .name := by
  rw [Path.components, Path.front, path_isAbsolute, if_pos rfl, List.singleton_append]
  congr 1
  by_cases filled : names = []
  · subst filled
    rfl
  · rw [segments_path filled areNames, List.filterMap_cons, List.filterMap_map]
    exact filterMap_ofSegment?_names areNames

/-- A location is told by the components of its path. -/
theorem path_inj {names names' : List String} (areNames : AreNames names)
    (areNames' : AreNames names') (same : (path names).components = (path names').components) :
    names = names' := by
  rw [components_path areNames, components_path areNames', List.cons.injEq] at same
  exact List.map_inj_right (fun _ _ => Component.name.inj) |>.1 same.2

/-- The path of a location goes on to what lies in it. -/
theorem path_concat {names : List String} (filled : names ≠ []) (name : String) :
    path (names ++ [name]) = ⟨(path names).text ++ "/" ++ name⟩ := by
  rw [path, Text.intercalate_concat filled, path_text]
  simp only [String.append_assoc]

/-- How long the path of an entry is. -/
theorem size_path_concat (outer : List String) (name : String) :
    Name.size (path (outer ++ [name])).text =
      (if outer = [] then 0 else Name.size (path outer).text) + 1 + Name.size name := by
  by_cases top : outer = []
  · rw [top, if_pos rfl]
    exact Name.size_append_slash "" name
  · rw [if_neg top, path_concat top]
    exact Name.size_append_slash _ name

/-- The path of a location ends in a slash only at the root. -/
theorem getLast?_path {names : List String} (areNames : AreNames names) :
    (path names).text.toList.getLast?.any (· != '/') = !names.isEmpty := by
  rcases List.eq_nil_or_concat names with rfl | ⟨names, name, rfl⟩
  · rfl
  · have isName := areNames name (by simp)
    obtain ⟨last, ends⟩ : ∃ last, name.toList.getLast? = some last := by
      cases ends : name.toList.getLast? with
      | some last => exact ⟨last, rfl⟩
      | none =>
        rw [List.getLast?_eq_none_iff] at ends
        exact absurd (String.toList_inj.1 ends) isName.ne_empty
    have solid : last ≠ '/' := by
      rintro rfl
      exact isName.noSlash (List.mem_of_getLast? ends)
    have written : ∃ before, (path (names ++ [name])).text.toList = before ++ name.toList := by
      by_cases filled : names = []
      · subst filled
        exact ⟨['/'], by rw [toList_path]; rfl⟩
      · exact ⟨_, by rw [path_concat filled, String.toList_append]⟩
    obtain ⟨before, written⟩ := written
    have joined : (names ++ [name]).isEmpty = false := by simp
    have other : (last != '/') = true := by simpa using solid
    rw [List.concat_eq_append, written, List.getLast?_append, ends, Option.some_or, joined]
    exact other

/-- Joining a name leads to the entry of that name. -/
theorem join_path {names : List String} {name : String} (areNames : AreNames names)
    (isName : IsName name) : (path names).join ⟨name⟩ = path (names ++ [name]) := by
  have relative : Path.isAbsolute ⟨name⟩ = false := by
    rw [Path.isAbsolute, beq_eq_false_iff_ne]
    intro first
    exact isName.noSlash (List.mem_of_head? first)
  rw [Path.join, relative, if_neg (by decide), getLast?_path areNames]
  by_cases filled : names = []
  · subst filled
    rfl
  · rw [path_concat filled]
    simp [filled]

/-- The last name of a location is the file name of its path. -/
theorem fileName?_path {names : List String} {name : String}
    (areNames : AreNames (names ++ [name])) :
    (path (names ++ [name])).fileName? = some name := by
  rw [Path.fileName?, components_path areNames, List.map_append, List.map_singleton,
    ← List.cons_append, List.getLast?_concat]

/-- No segment of a location's path is meaningless but the one before its first slash. -/
theorem trimSegments_path {names : List String} (areNames : AreNames names) :
    Path.trimSegments ([] :: names.map String.toList) = [] :: names.map String.toList := by
  rw [Path.trimSegments]
  congr 1
  rcases List.eq_nil_or_concat names with rfl | ⟨names, name, rfl⟩
  · rfl
  · have named := Component.ofSegment?_name (areNames name (by simp))
    rw [List.concat_eq_append, List.map_append, List.map_singleton, List.reverse_append,
      List.reverse_singleton, List.singleton_append, List.dropWhile_cons_of_neg (by simp [named]),
      List.reverse_cons, List.reverse_reverse]

/-- The parent of an entry is the directory that holds it. -/
theorem parent?_path {names : List String} {name : String}
    (areNames : AreNames (names ++ [name])) :
    (path (names ++ [name])).parent? = some (path names) := by
  have kept : Path.trimSegments (Path.trimSegments (path (names ++ [name])).segments).dropLast =
      [] :: names.map String.toList := by
    rw [segments_path (by simp) areNames, trimSegments_path areNames, List.map_append,
      List.map_singleton, ← List.cons_append, List.dropLast_concat, trimSegments_path areNames.left]
  rw [Path.parent?, components_path areNames, List.map_append, List.map_singleton,
    ← List.cons_append, List.getLast?_concat]
  dsimp only
  rw [kept, path_isAbsolute]
  by_cases filled : names = []
  · subst filled
    rfl
  · have other : ([] :: names.map String.toList == [[]]) = false := by
      simpa using filled
    rw [other]
    refine congrArg some ?_
    rw [path, Bool.and_false, if_neg (by decide)]
    congr 1
    rw [← String.toList_inj, String.toList_ofList, String.toList_append, Text.toList_intercalate]
    obtain ⟨first, rest, rfl⟩ := List.exists_cons_of_ne_nil filled
    rfl

end Location

/-! ## Joining and folding -/

namespace Path

/-- A text that may be read from a directory. -/
def IsRelative (text : String) : Prop :=
  Path.isAbsolute ⟨text⟩ = false

/-- Where a component leads from a location. There is nothing above the root. -/
def follow (names : List String) : Component -> List String
  | .parent => names.dropLast
  | .name name => names ++ [name]
  | _ => names

/-- Names lead down. -/
theorem follow_names (names later : List String) :
    (later.map Component.name).foldl follow names = names ++ later := by
  induction later generalizing names with
  | nil => rw [List.append_nil]; rfl
  | cons name later ih =>
    rw [List.map_cons, List.foldl_cons, ih, follow, List.append_assoc, List.singleton_append]

/-- As many steps up as names lead back to where the names began. -/
theorem follow_parents (names climbed : List String) :
    (List.replicate climbed.length Component.parent).foldl follow (names ++ climbed) = names := by
  induction climbed using List.reverseRecOn with
  | nil => rw [List.append_nil]; rfl
  | append_singleton climbed name ih =>
    rw [List.length_append, List.length_singleton, List.replicate_succ, List.foldl_cons, follow,
      ← List.append_assoc, List.dropLast_concat, ih]

/-- Following parts from a location leads to a location. -/
theorem areNames_follow {names : List String} {components : List Component}
    (areNames : AreNames names)
    (parts : ∀ component ∈ components,
      component = .parent ∨ ∃ name, component = .name name ∧ IsName name) :
    AreNames (components.foldl follow names) := by
  induction components generalizing names with
  | nil => exact areNames
  | cons component components ih =>
    refine ih ?_ fun other member => parts other (List.mem_cons_of_mem _ member)
    rcases parts component (List.mem_cons_self ..) with rfl | ⟨name, rfl, isName⟩
    · exact fun name member => areNames name (List.dropLast_subset names member)
    · exact areNames.append (.singleton isName)

/-- The stack of components that folding keeps above the root. -/
def stack (names : List String) : List Component :=
  (names.map Component.name).reverse ++ [.root]

/-- Folding one more component keeps the stack of where it leads. -/
theorem fold_stack {names : List String} {component : Component}
    (part : component = .parent ∨ ∃ name, component = .name name ∧ IsName name) :
    fold (stack names) component = stack (follow names component) := by
  rcases part with rfl | ⟨name, rfl, -⟩
  · rcases List.eq_nil_or_concat names with rfl | ⟨names, last, rfl⟩
    · rfl
    · rw [List.concat_eq_append, follow, List.dropLast_concat, stack, List.map_append,
        List.map_singleton, List.reverse_append, List.reverse_singleton]
      rfl
  · rw [follow, stack, stack, List.map_append, List.map_singleton, List.reverse_append,
      List.reverse_singleton]
    rfl

/-- Folding components keeps the stack of where they lead. -/
theorem foldl_fold_stack {names : List String} {components : List Component}
    (parts : ∀ component ∈ components,
      component = .parent ∨ ∃ name, component = .name name ∧ IsName name) :
    components.foldl fold (stack names) = stack (components.foldl follow names) := by
  induction components generalizing names with
  | nil => rfl
  | cons component components ih =>
    rw [List.foldl_cons, List.foldl_cons, fold_stack (parts component (List.mem_cons_self ..)),
      ih fun other member => parts other (List.mem_cons_of_mem _ member)]

/-- The names of a location spell its path. -/
theorem ofComponents_path {names : List String} (areNames : AreNames names) :
    ofComponents (.root :: names.map .name) = Location.path names := by
  rw [ofComponents, List.foldl_cons]
  have run (earlier : List String) (joined : AreNames (earlier ++ names)) :
      (names.map Component.name).foldl (fun path component => path.join ⟨component.text⟩)
        (Location.path earlier) = Location.path (earlier ++ names) := by
    induction names generalizing earlier with
    | nil => rw [List.append_nil]; rfl
    | cons name names ih =>
      rw [List.map_cons, List.foldl_cons, Component.text,
        Location.join_path joined.left (joined name (by simp)), ih, List.append_assoc,
        List.singleton_append]
      · exact fun other member => areNames other (List.mem_cons_of_mem _ member)
      · rwa [List.append_assoc, List.singleton_append]
  exact run [] areNames

/-- The components of an absolute path. -/
theorem components_of_isAbsolute {path : Path} (isAbsolute : path.isAbsolute = true) :
    path.components = .root :: parts path.text := by
  rw [components, front, isAbsolute, if_pos rfl]
  rfl

/-- Normalizing an absolute path follows its parts from the root. -/
theorem normalize_of_isAbsolute {path : Path} (isAbsolute : path.isAbsolute = true) :
    path.normalize = Location.path ((parts path.text).foldl follow []) := by
  have isPart : ∀ component ∈ parts path.text,
      component = .parent ∨ ∃ name, component = .name name ∧ IsName name :=
    fun _ member => of_mem_parts member
  rw [normalize, normalComponents, components_of_isAbsolute isAbsolute, List.foldl_cons]
  have run := @foldl_fold_stack [] _ isPart
  rw [show fold [] .root = stack [] from rfl, run, stack, List.reverse_append,
    List.reverse_singleton, List.singleton_append, List.reverse_reverse]
  exact ofComponents_path (areNames_follow .nil isPart)

/-- A slash parts the components of a text into those before and those after it. -/
theorem parts_append (first second : String) :
    parts (first ++ "/" ++ second) = parts first ++ parts second := by
  have written : (first ++ "/" ++ second).toList = first.toList ++ '/' :: second.toList := by
    rw [String.toList_append, String.toList_append, List.append_assoc]
    rfl
  rw [parts, written, Text.splitAt_append, List.filterMap_append]
  rfl

/-- What is joined to an absolute path is absolute. -/
theorem isAbsolute_join {base addition : Path} (isAbsolute_ : base.isAbsolute = true) :
    (base.join addition).isAbsolute = true := by
  have extended (tail : String) : (⟨base.text ++ tail⟩ : Path).isAbsolute = true := by
    rw [isAbsolute, beq_iff_eq] at isAbsolute_ ⊢
    rw [String.toList_append, List.head?_append, isAbsolute_, Option.some_or]
  unfold join
  split
  · assumption
  · split
    · rw [String.append_assoc]
      exact extended _
    · exact extended _

/-- What is read from a path is absolute if the path is. -/
theorem isAbsolute_join_relative (base : Path) {text : String} (isRelative : IsRelative text) :
    (base.join ⟨text⟩).isAbsolute = base.isAbsolute := by
  rw [join, isRelative, if_neg (by decide)]
  rw [IsRelative, isAbsolute] at isRelative
  cases begins : base.text.toList with
  | nil => simp [isAbsolute, begins, isRelative]
  | cons first rest => split <;> simp [isAbsolute, begins]

/-- The parts of a path that is read from another one come after those of the other one. -/
theorem parts_join (base : Path) {text : String} (isRelative : IsRelative text) :
    parts (base.join ⟨text⟩).text = parts base.text ++ parts text := by
  rw [join, isRelative, if_neg (by decide)]
  cases ends : base.text.toList.getLast? with
  | none =>
    have empty : base.text = "" := by
      rwa [List.getLast?_eq_none_iff, String.toList_eq_nil_iff] at ends
    rw [empty]
    exact congrArg parts (String.empty_append)
  | some last =>
    by_cases slash : last = '/'
    · obtain ⟨front, shape⟩ := List.getLast?_eq_some_iff.1 ends
      have written : base.text = String.ofList front ++ "/" := by
        rw [← String.toList_inj, shape, slash, String.toList_append, String.toList_ofList]
        rfl
      have slashed := parts_append (String.ofList front) ""
      rw [String.append_empty, ← written] at slashed
      rw [slash, if_neg (by decide)]
      dsimp only
      rw [slashed, written, parts_append]
      exact congrArg (· ++ _) (List.append_nil _).symm
    · rw [Option.any_some, bne_iff_ne.2 slash, if_pos rfl]
      exact parts_append ..

/-- The components of a location's path, without its root, are the names. -/
theorem parts_path {names : List String} (areNames : AreNames names) :
    parts (Location.path names).text = names.map .name := by
  have same := components_of_isAbsolute (Location.path_isAbsolute names)
  rw [Location.components_path areNames] at same
  exact (List.cons.inj same).2.symm

/-- What is read from an absolute path leads on from where that path leads. -/
theorem normalize_join_of_isAbsolute {base : Path} {text : String}
    (isAbsolute : base.isAbsolute = true) (isRelative : IsRelative text) :
    (base.join ⟨text⟩).normalize =
      Location.path ((parts text).foldl follow ((parts base.text).foldl follow [])) := by
  rw [normalize_of_isAbsolute (isAbsolute_join isAbsolute), parts_join base isRelative,
    List.foldl_append]

/-- What is read from a location leads on from there. -/
theorem normalize_join {names : List String} {text : String} (areNames : AreNames names)
    (isRelative : IsRelative text) :
    ((Location.path names).join ⟨text⟩).normalize =
      Location.path ((parts text).foldl follow names) := by
  rw [normalize_join_of_isAbsolute (Location.path_isAbsolute names) isRelative,
    parts_path areNames, follow_names, List.nil_append]

/-- A normal absolute path is the path of a location. -/
theorem exists_location_of_isAbsolute {path : Path} (isAbsolute : path.isAbsolute = true) :
    ∃ names, AreNames names ∧ path.normalize = Location.path names :=
  ⟨_, areNames_follow .nil fun _ member => of_mem_parts member,
    normalize_of_isAbsolute isAbsolute⟩

end Path
end Relink
