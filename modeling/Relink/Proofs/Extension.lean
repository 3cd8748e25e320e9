import Relink.Proofs.Completeness

/-!
# Endings of references in declarations

A declaration refers to a file without its ending, and the ending is left out by never adding it:
what a specifier is settled to is the reference to what it refers to, whichever candidate names the
file. So the ending is there where the specifier spells it out, by naming the file as it stands or
something whose name ends so.
-/

namespace Relink

/-! ## How a reference ends -/

namespace Text

/-- An ending without the separator is one of what follows the last separator. -/
theorem suffix_append_cons_iff {separator : Char} {ending front last : List Char}
    (absent : separator ∉ ending) : ending <:+ front ++ separator :: last ↔ ending <:+ last := by
  have inside : separator :: last <:+ front ++ separator :: last := List.suffix_append ..
  refine ⟨fun ends => ?_, fun ends => ends.trans ((List.suffix_cons ..).trans inside)⟩
  rcases List.suffix_or_suffix_of_suffix ends inside with short | long
  · rcases List.suffix_cons_iff.1 short with rfl | ends
    · exact absurd (List.mem_cons_self ..) absent
    · exact ends
  · exact absurd (long.subset (List.mem_cons_self ..)) absent

end Text

/-- A way ends as its last step does, in what has no slash. -/
theorem endsWith_way_iff {steps : List String} {last ending : String} (noSlash : '/' ∉ ending.toList) :
    Text.endsWith (way (steps ++ [last])) ending = true ↔ Text.endsWith last ending = true := by
  by_cases filled : steps = []
  · subst filled
    rfl
  · rw [way, Text.intercalate_concat filled, Text.endsWith, Text.endsWith,
      List.isSuffixOf_iff_suffix, List.isSuffixOf_iff_suffix, String.toList_append,
      String.toList_append, List.append_assoc]
    exact Text.suffix_append_cons_iff noSlash

/-- An ending is not one of what is shorter than a name can be. -/
theorem IsEnding.endsWith_parent {ending : String} (isEnding : IsEnding ending) :
    Text.endsWith ".." ending = false ∧ Text.endsWith "" ending = false := by
  have isName := isEnding.isName
  have same {text : String} (written : ending.toList = text.toList) : ending = text :=
    String.toList_inj.1 written
  simp only [Bool.eq_false_iff, ne_eq, Text.endsWith, List.isSuffixOf_iff_suffix]
  constructor
  · intro ends
    rcases List.suffix_cons_iff.1 ends with parent | ends
    · exact isName.ne_parent (same parent)
    · rcases List.suffix_cons_iff.1 ends with current | ends
      · exact isName.ne_current (same current)
      · exact isName.ne_empty (same (List.suffix_nil.1 ends))
  · intro ends
    exact isName.ne_empty (same (List.suffix_nil.1 ends))

/-- A reference ends as the name that it ends in. One that only climbs ends in no name. -/
theorem Reference.endsWith_iff {source target lead down : List String} {ending : String}
    (reference : Reference source target lead down) (areTarget : AreNames target)
    (isEnding : IsEnding ending) :
    Text.endsWith (shownWay lead down) ending = true ↔
      down ≠ [] ∧ ∃ name, (Location.path target).fileName? = some name ∧
        Text.endsWith (Name.shown name) ending = true := by
  have noSlash := isEnding.isName.noSlash
  obtain ⟨notParent, notEmpty⟩ := isEnding.endsWith_parent
  rw [shownWay]
  rcases reference.end_cases with ⟨rfl, count, rfl⟩ | ⟨-, rfl, rfl, rfl⟩ |
    ⟨outer, inner, last, rfl, rfl⟩
  · rw [List.map_nil, List.append_nil, List.replicate_succ', endsWith_way_iff noSlash, notParent]
    simp
  · rw [List.map_singleton, show Name.shown "" = "" from rfl, endsWith_way_iff noSlash, notEmpty]
    refine iff_of_false (by decide) ?_
    rintro ⟨-, name, named, -⟩
    cases named
  · rw [List.map_append, List.map_singleton, ← List.append_assoc, endsWith_way_iff noSlash,
      Location.fileName?_path areTarget]
    simp

namespace Snapshot

variable {host : Host} {config : Config} {snapshot : Snapshot}

/-! ## What a resolved specifier is settled to -/

/-- What stands for a specifier that is resolved is what it was resolved to, whether it is replaced
or stood there already. -/
theorem applyTo_of_resolve? {role : FileRole} {file : Path} {specifier : String}
    {resolution : Resolution} (layout_eq : snapshot.layout = {})
    (isLocal : (Specifier.classify {} specifier).isLocal = true)
    (open_ : Text.endsWith specifier ".js" = false)
    (resolved : snapshot.resolve? role file specifier = some resolution) :
    (snapshot.relinkSpecifier role file specifier).applyTo specifier.toList =
      (replacement role resolution).toList := by
  unfold relinkSpecifier relinkLocal
  rw [layout_eq, if_pos isLocal, if_neg (by rw [open_]; decide), resolved]
  dsimp only
  split
  · rename_i same
    exact congrArg String.toList same.symm
  · rfl

/-- The reference that a specifier of a declaration is settled to ends as a declaration does exactly
if it ends in the name of what it refers to, and the name ends so. It always does where the file is
named as it stands. -/
theorem relinkSpecifier_extension (taken : take host config {} = .ok snapshot)
    (named : host.tree.Named) {tracked : FileRole} {file : Path} {text : String}
    (member : (file, text) ∈ (snapshot.tracked tracked).files) :
    ∃ directory, file.parent? = some directory ∧ ∀ specifier resolution,
      (Specifier.classify {} specifier).isLocal = true ->
      Text.endsWith specifier ".js" = false ->
      snapshot.resolve? .declaration file specifier = some resolution ->
      ∃ target, Refers snapshot directory specifier target ∧
        (snapshot.relinkSpecifier .declaration file specifier).applyTo specifier.toList =
          resolution.bare.toList ∧
        (Text.endsWith resolution.bare ".d.ts" = true ↔
          ¬target.IsAbove directory ∧ ∃ name, target.fileName? = some name ∧
            Text.endsWith (Name.shown name) ".d.ts" = true) ∧
        (resolution.candidate = resolution.bare ->
          Text.endsWith resolution.bare ".d.ts" = true) := by
  replace taken := take_eq_ok_iff.1 taken
  have ending : snapshot.ending .declaration = ".d.ts" :=
    congrArg Layout.declarationEnding taken.layout_eq
  obtain ⟨output, areOutput, output_eq⟩ := exists_outputDirectory host config
  obtain ⟨rest, isTracked⟩ := taken.isTracked named areOutput output_eq member
  obtain ⟨directory, name, -, -, parent⟩ := isTracked.exists_directory
  refine ⟨_, parent, fun specifier resolution isLocal open_ resolved => ?_⟩
  obtain ⟨source, meant, target, lead, down, found, resolves, parent', bare⟩ :=
    exists_resolves_of_resolve? taken named member (by rwa [taken.layout_eq]) resolved
  rw [Option.some.inj (parent.symm.trans parent')]
  refine ⟨_, resolves.refers, applyTo_of_resolve? taken.layout_eq isLocal open_ resolved, ?_,
    fun exact_ => ?_⟩
  · have isEnding := isEnding_ending taken.layout_eq .declaration
    rw [ending] at isEnding
    rw [bare, resolves.reference.endsWith_iff resolves.areMeant isEnding, ne_eq,
      resolves.reference.eq_nil_iff resolves.enters,
      Location.isAbove_path resolves.areMeant resolves.areSource]
  · have ends := resolves.candidate_endsWith
    rwa [exact_, ending] at ends

/-! ## In the small package -/

set_option maxRecDepth 1000 in
/-- A declaration that spells an ending out keeps it, and an alias that does becomes a reference
with the ending. -/
theorem relinkSpecifier_keeps_extension :
    ∃ host config snapshot, take host config {} = .ok snapshot ∧ host.tree.Named ∧
      Text.endsWith "./index.d.ts" ".d.ts" = true ∧
      ∃ file text, (file, text) ∈ snapshot.declarations.files ∧
        (Specifier.classify {} "./index.d.ts" = .relative ∧
          snapshot.resolve? .declaration file "./index.d.ts" =
            some ⟨"./index.d.ts", "./index.d.ts"⟩ ∧
          snapshot.relinkSpecifier .declaration file "./index.d.ts" = .unchanged) ∧
        Specifier.classify {} "~/index.d.ts" = .aliased ∧
          snapshot.relinkSpecifier .declaration file "~/index.d.ts" = .replaced "./index.d.ts" := by
  refine ⟨samplePackage, sampleConfig, sampleSnapshot, samplePackage_take, samplePackage_named,
    by decide, ⟨"/p/dist/index.d.ts"⟩, "export * from '.';", by decide, ⟨by decide, ?_, ?_⟩,
    by decide, ?_⟩
  · decide
  · decide
  · decide

/-- In the small package, the declaration's reference to its own directory has no ending, although
it is completed by an index that has. -/
theorem relinkSpecifier_extension_samplePackage :
    take samplePackage sampleConfig {} = .ok sampleSnapshot ∧ samplePackage.tree.Named ∧
      sampleSnapshot.resolve? .declaration ⟨"/p/dist/index.d.ts"⟩ "." =
        some ⟨"../dist/index.d.ts", "../dist"⟩ ∧
      sampleSnapshot.relinkSpecifier .declaration ⟨"/p/dist/index.d.ts"⟩ "." =
        .replaced "../dist" ∧
      ∃ directory target, Refers sampleSnapshot directory "." target ∧
        (Text.endsWith "../dist" ".d.ts" = true ↔
          ¬target.IsAbove directory ∧ ∃ name, target.fileName? = some name ∧
            Text.endsWith (Name.shown name) ".d.ts" = true) := by
  have resolved : sampleSnapshot.resolve? .declaration ⟨"/p/dist/index.d.ts"⟩ "." =
      some ⟨"../dist/index.d.ts", "../dist"⟩ := by decide
  obtain ⟨directory, -, extension⟩ := @relinkSpecifier_extension samplePackage sampleConfig
    sampleSnapshot samplePackage_take samplePackage_named .declaration ⟨"/p/dist/index.d.ts"⟩
    "export * from '.';" (by decide)
  obtain ⟨target, refers, -, ends, -⟩ := extension "." _ (by decide) (by decide) resolved
  exact ⟨samplePackage_take, samplePackage_named, resolved, relinkSpecifier_sampleDeclaration,
    directory, target, refers, ends⟩

end Snapshot
end Relink
