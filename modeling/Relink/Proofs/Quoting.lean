import Relink.Proofs.Resolution
import Relink.Proofs.Script.Replacement

/-!
# Replacements can be quoted

A replacement is written between the quotes that the specifier stood between, and nothing in it is
escaped. It is made of steps up, of names that the specifier has, and of names of directories: an
aliased specifier adds those on the way to the package's root, and one that refers to the directory
of its own file adds the name of the directory. Where these hold no quote and no blank, the
replacement is a specifier again.
-/

namespace Relink

open Script

/-! ## Texts that can be quoted -/

/-- Whether every character of a text may stand in a specifier: none is a quote or a blank. -/
def IsQuotable (text : String) : Prop :=
  ∀ character ∈ text.toList, isSpecifierCharacter character = true

instance (text : String) : Decidable (IsQuotable text) :=
  decidable_of_iff (text.toList.all isSpecifierCharacter = true) List.all_eq_true

/-- Whether no part of a path holds a quote or a blank. -/
def Path.IsQuotable (path : Path) : Prop :=
  ∀ component ∈ path.components, Relink.IsQuotable (Name.shown component.text)

instance (path : Path) : Decidable path.IsQuotable :=
  inferInstanceAs (Decidable (∀ component ∈ path.components,
    Relink.IsQuotable (Name.shown component.text)))

theorem isQuotable_append_iff {text later : String} :
    IsQuotable (text ++ later) ↔ IsQuotable text ∧ IsQuotable later := by
  unfold IsQuotable
  rw [String.toList_append]
  exact List.forall_mem_append

/-- A text that can be quoted has no quote. -/
theorem IsQuotable.not_mem {text : String} {quote : Char} (quotable : IsQuotable text)
    (quoted : isQuote quote = true) : quote ∉ text.toList :=
  quote_not_mem quoted quotable

theorem IsQuotable.append {text later : String} (first : IsQuotable text)
    (second : IsQuotable later) : IsQuotable (text ++ later) :=
  isQuotable_append_iff.2 ⟨first, second⟩

/-- A way can be quoted when its steps can be, and only then. -/
theorem isQuotable_way_iff {steps : List String} :
    IsQuotable (way steps) ↔ ∀ step ∈ steps, IsQuotable step := by
  induction steps with
  | nil =>
    refine iff_of_true ?_ (by simp)
    intro character member
    cases member
  | cons first steps ih =>
    cases steps with
    | nil => simp [way, Text.intercalate]
    | cons second steps =>
      have slash : IsQuotable "/" := by decide
      rw [way_cons_cons, isQuotable_append_iff, isQuotable_append_iff, ih, and_iff_left slash]
      exact List.forall_mem_cons.symm

namespace Text

/-- What stands between separators is a part of the text. -/
theorem mem_of_mem_splitAt {separator character : Char} {text piece : List Char}
    (member : piece ∈ splitAt separator text) (inside : character ∈ piece) : character ∈ text := by
  induction text generalizing piece with
  | nil =>
    rw [splitAt, List.mem_singleton] at member
    rw [member] at inside
    cases inside
  | cons first rest ih =>
    rw [splitAt] at member
    split at member
    · rcases List.mem_cons.1 member with rfl | later
      · cases inside
      · exact List.mem_cons_of_mem _ (ih later inside)
    · cases split : splitAt separator rest with
      | nil => exact absurd split (splitAt_ne_nil separator rest)
      | cons piece' others =>
        rw [split] at member ih
        rcases List.mem_cons.1 member with rfl | later
        · rcases List.mem_cons.1 inside with rfl | inside
          · exact List.mem_cons_self ..
          · exact List.mem_cons_of_mem _ (ih (List.mem_cons_self ..) inside)
        · exact List.mem_cons_of_mem _ (ih (List.mem_cons_of_mem _ later) inside)

end Text

namespace Path

/-- The names in a text that can be quoted can be. -/
theorem isQuotable_of_mem_parts {text name : String} (quotable : Relink.IsQuotable text)
    (member : .name name ∈ parts text) : Relink.IsQuotable name := by
  obtain ⟨segment, inside, found⟩ := List.mem_filterMap.1 member
  intro character here
  rw [Component.ofSegment?_eq_name found, String.toList_ofList] at here
  exact quotable character (Text.mem_of_mem_splitAt inside here)

/-- A reference can be quoted when the names that it enters can be. -/
theorem isQuotable_reference {source target lead down : List String}
    (reference : Reference source target lead down)
    (quotable : ∀ name ∈ down, Relink.IsQuotable (Name.shown name)) :
    Relink.IsQuotable (shownWay lead down) := by
  rw [shownWay, isQuotable_way_iff, List.forall_mem_append, List.forall_mem_map]
  refine ⟨fun step leads => ?_, quotable⟩
  cases reference with
  | below _ =>
    rw [List.mem_singleton.1 leads]
    decide
  | above _ =>
    rw [List.eq_of_mem_replicate leads]
    decide
  | top =>
    rw [List.mem_singleton.1 leads]
    decide

/-- The names of a path that can be quoted. -/
theorem IsQuotable.names {names : List String} (areNames : AreNames names)
    (quotable : (Location.path names).IsQuotable) :
    ∀ name ∈ names, Relink.IsQuotable (Name.shown name) := by
  intro name member
  refine quotable (.name name) ?_
  rw [Location.components_path areNames]
  exact List.mem_cons_of_mem _ (List.mem_map_of_mem member)

end Path

namespace Snapshot

variable {host : Host} {config : Config} {snapshot : Snapshot}

/-! ## Replacements -/

/-- Whether the names that a replacement takes from directories can be quoted as they are shown. -/
def AddsQuotable (snapshot : Snapshot) (directory : Path) (specifier : String) : Prop :=
  snapshot.Adds (fun name => Relink.IsQuotable (Name.shown name)) directory specifier

section

variable {role : FileRole} {specifier candidate : String}
  {source meant target lead down found : List String}

/-- The names that a reference enters come from the specifier, or from what is added to it. -/
theorem Resolves.isQuotable_down
    (resolves : Resolves snapshot role specifier candidate source meant target lead down found)
    (taken : Taken host config {} snapshot) (quotable : IsQuotable specifier)
    (adds : snapshot.AddsQuotable (Location.path source) specifier) :
    ∀ name ∈ down, IsQuotable (Name.shown name) := by
  refine resolves.refers.forall_down resolves.areSource resolves.areMeant taken
    (fun text name within member => ?_) (by decide) adds resolves.enters
  have ofText : IsQuotable text := fun character inside =>
    (within character inside).elim (fun point => by rw [point]; decide) (quotable character)
  obtain ⟨part, rfl, inside⟩ := exists_of_mem_parts_ofText member
  rw [Name.shown_ofText]
  exact Path.isQuotable_of_mem_parts ofText inside

end

/-- What a specifier is replaced by can be quoted. -/
theorem isSpecifier_of_replaced (taken : Taken host config {} snapshot) (named : host.tree.Named)
    {tracked role : FileRole} {file directory : Path} {text specifier next : String}
    (member : (file, text) ∈ (snapshot.tracked tracked).files)
    (parent : file.parent? = some directory) (quotable : IsQuotable specifier)
    (adds : snapshot.AddsQuotable directory specifier)
    (replaced : snapshot.relinkSpecifier role file specifier = .replaced next) :
    IsSpecifier next.toList := by
  obtain ⟨candidate, source, meant, target, lead, down, found, resolves, parent', rfl⟩ :=
    exists_resolves taken named member replaced
  obtain rfl := Option.some.inj (parent.symm.trans parent')
  have reference := Path.isQuotable_reference resolves.reference
    (resolves.isQuotable_down taken quotable adds)
  have ending : IsQuotable (snapshot.ending role) := by
    unfold Snapshot.ending
    rw [taken.layout_eq]
    cases role <;> decide
  -- A candidate is the reference, or the reference with an ending put behind it.
  have candidate_ : IsQuotable candidate := by
    rcases resolves.cases with ⟨rfl, -⟩ | ⟨rfl, -⟩ | ⟨rfl, -⟩
    · exact reference
    · exact reference.append ending
    · exact (reference.append (by decide)).append ending
  have filled {text lead : String} (starts : Text.startsWith text lead = true)
      (some_ : lead.toList ≠ []) : text.toList ≠ [] := by
    rintro empty
    rw [Text.startsWith, empty, List.isPrefixOf_iff_prefix, List.prefix_nil] at starts
    exact some_ starts
  cases role with
  | script =>
    refine ⟨?_, candidate_⟩
    rcases resolves.candidate_startsWith with starts | starts
    · exact filled starts (by decide)
    · exact filled starts (by decide)
  | declaration =>
    refine ⟨?_, reference⟩
    dsimp only [replacement]
    rcases Path.shownWay_reference resolves.reference with ⟨upward, -⟩ | starts | starts
    · rw [upward]
      decide
    · exact filled starts (by decide)
    · exact filled starts (by decide)

/-! ## Directories -/

/-- Whether no directory of a snapshot has a quote or a blank in its path. -/
def IsQuotable (snapshot : Snapshot) : Prop :=
  snapshot.root.IsQuotable ∧ ∀ role, ∀ pair ∈ (snapshot.tracked role).files,
    ∀ directory ∈ pair.1.parent?, directory.IsQuotable

/-- Whether a replacement can be read again as it was meant: no quote and no blank is in what it can
take from directories, which is the names of those that hold tracked files and the ways from there
to the root, and these ways are Unicode. -/
structure HasLegibleWays (snapshot : Snapshot) : Prop where
  quotable : ∀ role, ∀ pair ∈ (snapshot.tracked role).files, ∀ directory ∈ pair.1.parent?,
    (∀ name ∈ directory.fileName?, Relink.IsQuotable (Name.shown name)) ∧
      ∀ part ∈ Path.relativeParts id directory.components snapshot.root.components,
        Relink.IsQuotable (Name.shown part)
  unicode : snapshot.HasUnicodeWays

theorem HasLegibleWays.adds (ways : snapshot.HasLegibleWays) {role : FileRole}
    {file directory : Path} {text : String} (member : (file, text) ∈ (snapshot.tracked role).files)
    (parent : file.parent? = some directory) (specifier : String) :
    snapshot.AddsQuotable directory specifier := by
  obtain ⟨itself, aliased⟩ := ways.quotable role _ member _ parent
  exact ⟨fun _ => itself, fun _ => aliased⟩

/-- Paths without quotes and blanks are made of names without. -/
theorem IsQuotable.ways (taken : Taken host config {} snapshot) (named : host.tree.Named)
    (quotable : snapshot.IsQuotable) (unicode : snapshot.HasUnicodeWays) :
    snapshot.HasLegibleWays := by
  refine ⟨fun role pair member directory parent => ?_, unicode⟩
  have ofDirectory := quotable.2 role pair member directory parent
  have ofRoot := quotable.1
  obtain ⟨output, areOutput, output_eq⟩ := exists_outputDirectory host config
  obtain ⟨rest, isTracked⟩ := taken.isTracked named areOutput output_eq member
  obtain ⟨source, -, -, areSource, parent'⟩ := isTracked.exists_directory
  obtain rfl := Option.some.inj (parent'.symm.trans parent)
  constructor
  · intro name isLast
    rcases List.eq_nil_or_concat source with rfl | ⟨outer, last, rfl⟩
    · cases isLast
    · rw [List.concat_eq_append] at areSource ofDirectory isLast
      rw [Location.fileName?_path areSource] at isLast
      obtain rfl := Option.some.inj isLast
      exact ofDirectory.names areSource last (by simp)
  · obtain ⟨root, areRoot, root_eq⟩ := taken.exists_root
    rw [root_eq] at ofRoot ⊢
    obtain ⟨common, climbed, down, rfl, rfl, -, shape⟩ := Path.exists_relativeParts source root
    rw [Path.relativeParts_path areSource areRoot, shape, List.map_id, List.forall_mem_append]
    refine ⟨fun step climbs => ?_, fun name inside => ?_⟩
    · rw [List.eq_of_mem_replicate climbs]
      decide
    · exact ofRoot.names areRoot name (List.mem_append_right _ inside)

theorem sampleSnapshot_isQuotable : sampleSnapshot.IsQuotable := by
  refine ⟨by decide, fun role => ?_⟩
  cases role <;> decide

theorem sampleSnapshot_hasUnicodeWays : sampleSnapshot.HasUnicodeWays :=
  (take_eq_ok_iff.1 samplePackage_take).hasUnicodeWays samplePackage_named
    (by decide : AreNames (["p"] ++ ["dist"])) (by decide) (by decide)

end Snapshot
end Relink
