import Relink.Outcome
import Relink.Proofs.Path.Reference
import Relink.Proofs.Snapshot

/-!
# What a local specifier refers to

A specifier is read from the directory of its file, or, as an alias, from the root of the package.
What it refers to goes on from a part of the directory with names of the specifier. Other names come
in only where a directory is named itself: the file's own one, by its name, and the root, by the way
that leads there.
-/

namespace Relink

namespace Text

theorem startsWith_append {text lead : String} (starts : startsWith text lead = true)
    (tail : String) : startsWith (text ++ tail) lead = true := by
  rw [startsWith, List.isPrefixOf_iff_prefix] at starts ⊢
  rw [String.toList_append]
  exact starts.trans (List.prefix_append _ _)

/-- What follows the beginning of a text. -/
theorem exists_after? {text lead : String} (starts : startsWith text lead = true) :
    ∃ rest, text = lead ++ rest ∧ after? text lead = some rest := by
  obtain ⟨tail, written⟩ := List.isPrefixOf_iff_prefix.1 starts
  refine ⟨String.ofList tail, ?_, ?_⟩
  · rw [← String.toList_inj, String.toList_append, String.toList_ofList, written]
  · rw [after?, starts, if_pos rfl, ← written, List.drop_left]

end Text

namespace Path

/-- A text that begins with a point is read as a relative path. -/
theorem isRelative_ofText {text : String} (starts : Text.startsWith text "." = true) :
    IsRelative (Name.ofText text) := by
  obtain ⟨rest, written⟩ := List.isPrefixOf_iff_prefix.1 starts
  rw [IsRelative, isAbsolute, Name.head?_ofText, ← written]
  rfl

/-- Following parts keeps a part of where one starts, and goes on with names of the parts. -/
theorem exists_kept_follow (names : List String) (components : List Component) :
    ∃ kept added, kept <+: names ∧ components.foldl follow names = kept ++ added ∧
      ∀ name ∈ added, .name name ∈ components := by
  induction components generalizing names with
  | nil => exact ⟨names, [], List.prefix_refl _, by simp, by simp⟩
  | cons component components ih =>
    obtain ⟨kept, added, isKept, shape, ofParts⟩ := ih (follow names component)
    have later : ∀ name ∈ added, .name name ∈ component :: components :=
      fun name member => List.mem_cons_of_mem _ (ofParts name member)
    rw [List.foldl_cons, shape]
    cases component with
    | name text =>
      -- What is kept of the names with the new one is kept of the names, or ends in the new one.
      rcases List.prefix_concat_iff.1 isKept with rfl | isKept
      · refine ⟨names, text :: added, List.prefix_refl _, by simp, ?_⟩
        rw [List.forall_mem_cons]
        exact ⟨List.mem_cons_self .., later⟩
      · exact ⟨kept, added, isKept, rfl, later⟩
    | parent => exact ⟨kept, added, isKept.trans (List.dropLast_prefix names), rfl, later⟩
    | root => exact ⟨kept, added, isKept, rfl, later⟩
    | current => exact ⟨kept, added, isKept, rfl, later⟩

/-- A text that is read from a location keeps a part of it, and goes on with names of the text. -/
theorem exists_kept_join {names : List String} (areNames : AreNames names) (text : String) :
    ∃ kept added, kept <+: names ∧ AreNames (kept ++ added) ∧
      ((Location.path names).join (.ofText text)).normalize = Location.path (kept ++ added) ∧
      ∀ name ∈ added, .name name ∈ parts (Name.ofText text) := by
  have ofStart {start : List String} (areStart : AreNames start) (isStart : start <+: names)
      (leads : ((Location.path names).join (.ofText text)).normalize =
        Location.path ((parts (Name.ofText text)).foldl follow start)) :
      ∃ kept added, kept <+: names ∧ AreNames (kept ++ added) ∧
        ((Location.path names).join (.ofText text)).normalize = Location.path (kept ++ added) ∧
        ∀ name ∈ added, .name name ∈ parts (Name.ofText text) := by
    obtain ⟨kept, added, isKept, shape, ofParts⟩ :=
      exists_kept_follow start (parts (Name.ofText text))
    have areNames := @areNames_follow start (parts (Name.ofText text)) areStart
      fun _ member => of_mem_parts member
    rw [shape] at leads areNames
    exact ⟨kept, added, isKept.trans isStart, areNames, leads, ofParts⟩
  by_cases isRelative : IsRelative (Name.ofText text)
  · exact ofStart areNames (List.prefix_refl _) (normalize_join areNames isRelative)
  · have isAbsolute : (Path.ofText text).isAbsolute = true := by
      rwa [IsRelative, Bool.not_eq_false] at isRelative
    refine ofStart .nil List.nil_prefix ?_
    rw [join, if_pos isAbsolute, normalize_of_isAbsolute isAbsolute]
    rfl

/-- What goes on with Unicode names from a part of a location is reached from there by them. -/
theorem hasUnicodeWay_of_prefix {source kept added : List String} (areSource : AreNames source)
    (areTarget : AreNames (kept ++ added)) (isKept : kept <+: source)
    (ofAdded : ∀ name ∈ added, Name.isUnicode name = true) :
    (Location.path source).HasUnicodeWay (Location.path (kept ++ added)) := by
  obtain ⟨common, climbed, down, rfl, target_eq, apart, shape⟩ :=
    exists_relativeParts source (kept ++ added)
  rw [target_eq] at areTarget shape ⊢
  rw [hasUnicodeWay_iff areSource areTarget (shape id)]
  by_cases same : common ++ down = common ++ climbed
  · rw [List.append_right_inj] at same
    subst same
    by_cases filled : down = []
    · simp [filled]
    · exact absurd rfl (apart filled)
  · have entered := (enters_of_apart apart same).later same kept added isKept target_eq.symm
    exact fun name member => ofAdded name (entered.subset member)

end Path

/-- An aliased specifier begins with the mark of aliases. -/
theorem Specifier.startsWith_of_aliased {layout : Layout} {specifier : String}
    (aliased : classify layout specifier = .aliased) :
    Text.startsWith specifier layout.aliasMarker = true := by
  unfold classify at aliased
  split at aliased
  · cases aliased
  split at aliased
  · assumption
  split at aliased
  · cases aliased
  split at aliased
  · cases aliased
  split at aliased <;> cases aliased

namespace Snapshot

/-- What a local specifier of a file in `directory` refers to. -/
inductive Refers (snapshot : Snapshot) (directory : Path) (specifier : String) : Path -> Prop
  | relative (isRelative : Specifier.classify {} specifier = .relative) :
      Refers snapshot directory specifier (directory.join (.ofText specifier)).normalize
  | aliased {rest : String} (isAliased : Specifier.classify {} specifier = .aliased)
      (shape : specifier = "~" ++ rest) :
      Refers snapshot directory specifier (snapshot.root.join (.ofText ("." ++ rest))).normalize

variable {host : Host} {config : Config} {snapshot : Snapshot}

/-- A local specifier refers to what it is read as. -/
theorem refers_targetOf (layout_eq : snapshot.layout = {}) {directory : Path} {specifier : String}
    (isLocal : (Specifier.classify snapshot.layout specifier).isLocal = true) :
    Refers snapshot directory specifier (snapshot.targetOf directory specifier) := by
  rw [layout_eq] at isLocal
  rw [targetOf, layout_eq]
  cases kind : Specifier.classify {} specifier with
  | relative => exact .relative kind
  | aliased =>
    obtain ⟨rest, shape, after⟩ := Text.exists_after? (Specifier.startsWith_of_aliased kind)
    dsimp only
    rw [after]
    exact .aliased kind shape
  | bareBuiltin => rw [kind] at isLocal; cases isLocal
  | builtin name => rw [kind] at isLocal; cases isLocal
  | dependency package => rw [kind] at isLocal; cases isLocal
  | invalid => rw [kind] at isLocal; cases isLocal

/-- What a specifier refers to is found by reading it. -/
theorem Refers.targetOf_eq (layout_eq : snapshot.layout = {}) {directory target : Path}
    {specifier : String} (refers : Refers snapshot directory specifier target) :
    snapshot.targetOf directory specifier = target := by
  rw [targetOf, layout_eq]
  cases refers with
  | relative isRelative => rw [isRelative]
  | @aliased rest isAliased shape =>
    rw [isAliased]
    dsimp only
    have starts : Text.startsWith specifier "~" = true := by
      rw [shape, Text.startsWith, List.isPrefixOf_iff_prefix, String.toList_append]
      exact List.prefix_append _ _
    obtain ⟨rest', shape', after⟩ := Text.exists_after? starts
    rw [after, Option.getD_some, (String.append_right_inj "~").1 (shape'.symm.trans shape)]

/-- What a specifier refers to is the path of a location. -/
theorem Refers.exists_location {layout : Layout} (taken : Taken host config layout snapshot)
    {source : List String} {specifier : String} {target : Path}
    (refers : Refers snapshot (Location.path source) specifier target) :
    ∃ names, AreNames names ∧ target = Location.path names := by
  cases refers with
  | relative _ =>
    exact Path.exists_location_of_isAbsolute
      (Path.isAbsolute_join (Location.path_isAbsolute source))
  | aliased _ _ =>
    obtain ⟨root, -, shape⟩ := taken.exists_root
    rw [shape]
    exact Path.exists_location_of_isAbsolute (Path.isAbsolute_join (Location.path_isAbsolute root))

/-! ## Names that come from directories -/

/-- Whether the names that a replacement takes from directories are such: the name of the file's own
directory, for a specifier that refers to it, and the way to the root, for an aliased one. -/
structure Adds (snapshot : Snapshot) (isSuch : String -> Prop) (directory : Path)
    (specifier : String) : Prop where
  itself : snapshot.targetOf directory specifier = directory ->
    ∀ name ∈ directory.fileName?, isSuch name
  aliased : Specifier.classify snapshot.layout specifier = .aliased ->
    ∀ part ∈ Path.relativeParts id directory.components snapshot.root.components, isSuch part

variable {isSuch : String -> Prop}

/-- What a specifier refers to goes on from a part of the directory with names of the specifier. An
aliased one is read from the root, and the names on the way there are what the directory does not
share with it. -/
theorem Refers.exists_kept {source target : List String} {specifier : String}
    (refers : Refers snapshot (Location.path source) specifier (Location.path target))
    (areSource : AreNames source) (areTarget : AreNames target)
    (taken : Taken host config {} snapshot)
    (ofSpecifier : ∀ (text name : String),
      (∀ character ∈ text.toList, character = '.' ∨ character ∈ specifier.toList) ->
      .name name ∈ parts (Name.ofText text) -> isSuch name)
    (ofRoot : Specifier.classify snapshot.layout specifier = .aliased ->
      ∀ part ∈ Path.relativeParts id (Location.path source).components snapshot.root.components,
        isSuch part) :
    ∃ kept added, kept <+: source ∧ target = kept ++ added ∧ ∀ name ∈ added, isSuch name := by
  have reads {base : List String} {text : String} (areBase : AreNames base)
      (ofText : ∀ name, .name name ∈ parts (Name.ofText text) -> isSuch name)
      (leads : Location.path target = ((Location.path base).join (.ofText text)).normalize) :
      ∃ kept added, kept <+: base ∧ target = kept ++ added ∧ ∀ name ∈ added, isSuch name := by
    obtain ⟨kept, added, isKept, areNames, same, ofParts⟩ := Path.exists_kept_join areBase text
    refine ⟨kept, added, isKept, ?_, fun name member => ofText name (ofParts name member)⟩
    exact Location.path_inj areTarget areNames (congrArg Path.components (leads.trans same))
  generalize target_eq : Location.path target = path at refers
  cases refers with
  | relative isRelative =>
    exact reads areSource (fun name => ofSpecifier _ name fun _ member => .inr member) target_eq
  | @aliased rest isAliased shape =>
    obtain ⟨root, areRoot, root_eq⟩ := taken.exists_root
    replace ofRoot := ofRoot (by rw [taken.layout_eq, isAliased])
    rw [root_eq] at target_eq ofRoot
    have ofRest (name : String) : .name name ∈ parts (Name.ofText ("." ++ rest)) -> isSuch name := by
      refine ofSpecifier _ name fun character member => ?_
      rw [String.toList_append, List.mem_append] at member
      refine member.imp List.mem_singleton.1 fun inside => ?_
      rw [shape, String.toList_append]
      exact List.mem_append_right _ inside
    obtain ⟨kept, added, isKept, rfl, ofAdded⟩ := reads areRoot ofRest target_eq
    -- The way to the root enters the names that the directory does not share with it.
    rw [Path.relativeParts_path areSource areRoot] at ofRoot
    obtain ⟨common, climbed, down, rfl, rfl, -, parts_eq⟩ := Path.exists_relativeParts source root
    rw [parts_eq, List.map_id, List.forall_mem_append] at ofRoot
    -- The directory shares what is kept of the root, or the root is kept beyond what it shares.
    rcases List.prefix_or_prefix_of_prefix isKept (List.prefix_append common down) with
      isShared | ⟨more, rfl⟩
    · exact ⟨kept, added, isShared.trans (List.prefix_append _ _), rfl, ofAdded⟩
    · refine ⟨common, more ++ added, List.prefix_append _ _, List.append_assoc .., ?_⟩
      rw [List.prefix_append_right_inj] at isKept
      rw [List.forall_mem_append]
      exact ⟨fun name member => ofRoot.2 name (isKept.subset member), ofAdded⟩

/-- The names that a reference enters come from the specifier, or from what is added to it. -/
theorem Refers.forall_down {source target down : List String} {specifier : String}
    (refers : Refers snapshot (Location.path source) specifier (Location.path target))
    (areSource : AreNames source) (areTarget : AreNames target)
    (taken : Taken host config {} snapshot)
    (ofSpecifier : ∀ (text name : String),
      (∀ character ∈ text.toList, character = '.' ∨ character ∈ specifier.toList) ->
      .name name ∈ parts (Name.ofText text) -> isSuch name) (ofNone : isSuch "")
    (adds : snapshot.Adds isSuch (Location.path source) specifier)
    (enters : Enters source target down) : ∀ name ∈ down, isSuch name := by
  by_cases same : target = source
  · rw [same] at refers
    rw [enters.itself same, List.forall_mem_singleton]
    rcases List.eq_nil_or_concat source with rfl | ⟨outer, last, rfl⟩
    · exact ofNone
    · rw [List.concat_eq_append] at areSource refers adds ⊢
      rw [List.getLast?_concat]
      exact adds.itself (refers.targetOf_eq taken.layout_eq) last
        (Location.fileName?_path areSource)
  · obtain ⟨kept, added, isKept, shape, ofAdded⟩ := refers.exists_kept areSource areTarget taken
      ofSpecifier adds.aliased
    have isAdded := enters.later same kept added isKept shape
    exact fun name member => ofAdded name (isAdded.subset member)

/-- Where the way to the root is Unicode, a reference shows every name as it is, except to the
directory itself. -/
theorem Refers.map_seen_down {source target down : List String} {specifier : String}
    (refers : Refers snapshot (Location.path source) specifier (Location.path target))
    (areSource : AreNames source) (areTarget : AreNames target)
    (taken : Taken host config {} snapshot)
    (ofRoot : Specifier.classify snapshot.layout specifier = .aliased ->
      (Location.path source).HasUnicodeWay snapshot.root)
    (enters : Enters source target down) (other : target ≠ source) :
    down.map Name.seen = down := by
  obtain ⟨kept, added, isKept, shape, ofAdded⟩ := refers.exists_kept areSource areTarget taken
    (fun text name _ member => by
      obtain ⟨part, rfl, -⟩ := exists_of_mem_parts_ofText member
      exact Name.isUnicode_ofText part) ofRoot
  have isAdded := enters.later other kept added isKept shape
  rw [Name.map_seen_eq_iff]
  exact fun name member => ofAdded name (isAdded.subset member)

/-! ## The way to the root -/

/-- Whether the ways from the directories of tracked files to the root are Unicode. -/
def HasUnicodeWays (snapshot : Snapshot) : Prop :=
  ∀ role, ∀ pair ∈ (snapshot.tracked role).files, ∀ directory ∈ pair.1.parent?,
    directory.HasUnicodeWay snapshot.root

/-- The directory of an entry module goes on from a part of the package's directory with Unicode
names. -/
theorem exists_kept_rootOf {names : List String} (areNames : AreNames names) (entry : String) :
    ∃ kept added, kept <+: names ∧ AreNames (kept ++ added) ∧
      rootOf (Location.path names) entry = Location.path (kept ++ added) ∧
      ∀ name ∈ added, Name.isUnicode name = true := by
  obtain ⟨kept, added, isKept, areEntry, entry_eq, ofParts⟩ := Path.exists_kept_join areNames entry
  have ofAdded : ∀ name ∈ added, Name.isUnicode name = true := by
    intro name member
    obtain ⟨part, rfl, -⟩ := exists_of_mem_parts_ofText (ofParts name member)
    exact Name.isUnicode_ofText part
  rw [rootOf, entry_eq]
  rcases List.eq_nil_or_concat added with rfl | ⟨outer, last, rfl⟩
  · rw [List.append_nil] at areEntry ⊢
    rcases List.eq_nil_or_concat kept with rfl | ⟨outer, last, rfl⟩
    · exact ⟨names, [], List.prefix_refl _, by simpa using areNames, by simp; rfl, by simp⟩
    · rw [List.concat_eq_append] at isKept areEntry ⊢
      rw [Location.parent?_path areEntry]
      exact ⟨outer, [], (List.prefix_append ..).trans isKept, by simpa using areEntry.left,
        by simp, by simp⟩
  · rw [List.concat_eq_append, ← List.append_assoc] at areEntry ⊢
    rw [Location.parent?_path areEntry]
    exact ⟨kept, outer, isKept, areEntry.left, rfl, fun name member => ofAdded name (by simp [member])⟩

/-- From below the package's directory, the way to the root is Unicode. -/
theorem Taken.hasUnicodeWay {layout : Layout} (taken : Taken host config layout snapshot)
    {package inner : List String} (areSource : AreNames (package ++ inner))
    (directory_eq : host.absolutize config.directory = Location.path package) :
    (Location.path (package ++ inner)).HasUnicodeWay snapshot.root := by
  obtain ⟨entry, -, rooted⟩ := taken.entry
  obtain ⟨kept, added, isKept, areRoot, root_eq, ofAdded⟩ := exists_kept_rootOf areSource.left entry
  rw [rooted, directory_eq, root_eq]
  exact Path.hasUnicodeWay_of_prefix areSource areRoot (isKept.trans (List.prefix_append ..)) ofAdded

/-- Where the output lies below the package's directory, the ways to the root are Unicode. -/
theorem Taken.hasUnicodeWays {layout : Layout} (taken : Taken host config layout snapshot)
    (named : host.tree.Named) {package below : List String} (areOutput : AreNames (package ++ below))
    (output_eq : outputDirectory host config = Location.path (package ++ below))
    (directory_eq : host.absolutize config.directory = Location.path package) :
    snapshot.HasUnicodeWays := by
  intro role pair member directory parent
  obtain ⟨rest, isTracked⟩ := taken.isTracked named areOutput output_eq member
  obtain ⟨inner, name, rfl⟩ := (List.eq_nil_or_concat rest).resolve_left isTracked.ne_nil
  have areNames := isTracked.areNames
  rw [isTracked.path] at parent
  rw [List.concat_eq_append, ← List.append_assoc] at areNames parent
  obtain rfl := Option.some.inj ((Location.parent?_path areNames).symm.trans parent)
  rw [List.append_assoc]
  exact taken.hasUnicodeWay (List.append_assoc .. ▸ areNames.left) directory_eq

end Snapshot
end Relink
