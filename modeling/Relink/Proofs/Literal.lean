import Relink.Proofs.Relinking
import Relink.Proofs.Tree.Visible

/-!
# Replaced literals

What a specifier is replaced by is a specifier again, and the relinked text is scanned to the same
pieces with the replacements in their places. This needs that the names which are added from
directories can be quoted: a directory may bear a quote in its name, and a replacement that brings
the name closes its literal early.
-/

namespace Relink.Snapshot

open Script

variable {host : Host} {config : Config} {snapshot : Snapshot}

/-- Where the names added from directories can be quoted, every replacement of a specifier is a
specifier, and scanning a relinked text finds the literals of the text, each one that was replaced
with its replacement. -/
theorem relinkSpecifier_quoted (taken : take host config {} = .ok snapshot)
    (named : host.tree.Named) {tracked : FileRole} {file : Path} {content : String}
    (member : (file, content) ∈ (snapshot.tracked tracked).files) :
    ∃ directory, file.parent? = some directory ∧ ∀ role,
      (∀ specifier next, IsSpecifier specifier.toList ->
        snapshot.AddsQuotable directory specifier ->
        snapshot.relinkSpecifier role file specifier = .replaced next ->
        IsSpecifier next.toList) ∧
      ∀ text : String,
        (∀ form specifier, .site form specifier ∈ pieces text.toList ->
          snapshot.AddsQuotable directory (String.ofList specifier)) ->
        pieces (snapshot.relinkText role file text).text.toList =
          (pieces text.toList).map (Piece.replace fun specifier =>
            (snapshot.relinkSpecifier role file (String.ofList specifier)).applyTo specifier) := by
  replace taken := take_eq_ok_iff.1 taken
  obtain ⟨output, areOutput, output_eq⟩ := exists_outputDirectory host config
  obtain ⟨rest, isTracked⟩ := taken.isTracked named areOutput output_eq member
  obtain ⟨directory, name, -, -, parent⟩ := isTracked.exists_directory
  refine ⟨_, parent, fun role => ⟨fun specifier next isSpecifier adds replaced => ?_,
    fun text adds => ?_⟩⟩
  · exact isSpecifier_of_replaced taken named member parent isSpecifier.characters adds replaced
  · exact pieces_relinkText taken named member parent adds

/-- In the small package nothing is added that cannot be quoted. -/
theorem relinkSpecifier_quoted_samplePackage :
    sampleSnapshot.relinkSpecifier .script ⟨"/p/dist/index.js"⟩ "./b" = .replaced "./b.js" ∧
      IsSpecifier "./b.js".toList ∧
      pieces (sampleSnapshot.relinkText .script ⟨"/p/dist/index.js"⟩ "import './b';").text.toList =
        (pieces "import './b';".toList).map (Piece.replace fun specifier =>
          (sampleSnapshot.relinkSpecifier .script ⟨"/p/dist/index.js"⟩
            (String.ofList specifier)).applyTo specifier) := by
  have replaced := relinkSpecifier_sampleScript
  obtain ⟨directory, parent, quoted⟩ := @relinkSpecifier_quoted samplePackage sampleConfig
    sampleSnapshot samplePackage_take samplePackage_named .script ⟨"/p/dist/index.js"⟩
    "import './b';" (by decide)
  obtain rfl : directory = ⟨"/p/dist"⟩ :=
    Option.some.inj (parent.symm.trans (by decide))
  have adds (specifier : String) : sampleSnapshot.AddsQuotable ⟨"/p/dist"⟩ specifier := by
    refine ⟨fun _ name isLast => ?_, fun _ => by decide⟩
    obtain rfl : "dist" = name :=
      Option.some.inj ((by decide : some "dist" = _).trans isLast)
    decide
  obtain ⟨specifiers, texts⟩ := quoted .script
  exact ⟨replaced, specifiers "./b" "./b.js" (by decide) (adds _) replaced,
    texts _ fun _ _ _ => adds _⟩

/-! ## A directory with a quote in its name -/

/-- A package whose entry module lies in a directory with a quote in its name. -/
def quotedPackage : Host where
  tree := ⟨[(["p"], .directory),
    (["p", "package.json"], .file "\x7b\"main\":\"dist/it's/index.js\"\x7d".toByteArray false),
    (["p", "dist"], .directory),
    (["p", "dist", "a.js"], .file "import '~/x';".toByteArray false),
    (["p", "dist", "it's"], .directory),
    (["p", "dist", "it's", "index.js"], .file "".toByteArray false),
    (["p", "dist", "it's", "x.js"], .file "import '.';".toByteArray false)]⟩
  directory := ["p"]

/-- What a pass knows of the package. -/
def quotedSnapshot : Snapshot where
  root := ⟨"/p/dist/it's"⟩
  layout := {}
  manifest := { entry := some "dist/it's/index.js" }
  files := [⟨"/p/dist/a.js"⟩, ⟨"/p/dist/it's/index.js"⟩, ⟨"/p/dist/it's/x.js"⟩]
  scripts := .ofFiles [(⟨"/p/dist/a.js"⟩, "import '~/x';"), (⟨"/p/dist/it's/index.js"⟩, ""),
    (⟨"/p/dist/it's/x.js"⟩, "import '.';")]
  declarations := .ofFiles []

theorem quotedPackage_visibleChildren :
    quotedPackage.tree.visibleChildren ["p", "dist"] = ["a.js", "it's"] ∧
      quotedPackage.tree.visibleChildren ["p", "dist", "it's"] = ["index.js", "x.js"] := by
  constructor
  · exact Tree.visibleChildren_of_sorted (by decide) (by decide) (by decide)
  · exact Tree.visibleChildren_of_sorted (by decide) (by decide) (by decide)

theorem quotedPackage_visibleBelow :
    quotedPackage.tree.visibleBelow (62 + 1 + 1) ⟨"/p/dist"⟩ ["p", "dist"] =
      quotedSnapshot.files := by
  obtain ⟨outer, inner⟩ := quotedPackage_visibleChildren
  have nested : quotedPackage.tree.visibleBelow (62 + 1) ⟨"/p/dist/it's"⟩ ["p", "dist", "it's"] =
      [⟨"/p/dist/it's/index.js"⟩, ⟨"/p/dist/it's/x.js"⟩] := by
    rw [Tree.visibleBelow, inner]
    decide
  rw [Tree.visibleBelow, outer, List.flatMap_cons, List.flatMap_singleton,
    if_neg (by decide), if_pos (by decide),
    show (⟨"/p/dist"⟩ : Path).join ⟨"it's"⟩ = ⟨"/p/dist/it's"⟩ by decide,
    show (["p", "dist"] ++ ["it's"] : List String) = ["p", "dist", "it's"] from rfl, nested]
  decide

theorem quotedPackage_take : take quotedPackage sampleConfig {} = .ok quotedSnapshot := by
  have found : quotedPackage.tree.status ["p"] ⟨"/p/dist"⟩ = .ok (["p", "dist"], .directory) := by
    decide
  have free : quotedPackage.tree.LinkFree ["p", "dist"] :=
    Tree.linkFree_of_entries (by simp [quotedPackage]) _
  have listed : quotedPackage.visibleFiles ⟨"/p/dist"⟩ = .ok quotedSnapshot.files := by
    refine (free.list found).trans ?_
    rw [show quotedPackage.tree.listingDepth = 62 + 1 + 1 by decide,
      quotedPackage_visibleBelow]
  have manifest : quotedPackage.readText ⟨"/p/package.json"⟩ =
      .ok "\x7b\"main\":\"dist/it's/index.js\"\x7d" :=
    @readText_of_status _ _ ["p", "package.json"] _ false (by decide)
  have first : quotedPackage.readText ⟨"/p/dist/a.js"⟩ = .ok "import '~/x';" :=
    @readText_of_status _ _ ["p", "dist", "a.js"] _ false (by decide)
  have index : quotedPackage.readText ⟨"/p/dist/it's/index.js"⟩ = .ok "" :=
    @readText_of_status _ _ ["p", "dist", "it's", "index.js"] _ false (by decide)
  have other : quotedPackage.readText ⟨"/p/dist/it's/x.js"⟩ = .ok "import '.';" :=
    @readText_of_status _ _ ["p", "dist", "it's", "x.js"] _ false (by decide)
  refine take_of_visibleFiles rfl rfl found manifest (by decide) rfl (by decide)
    listed fun role => ?_
  cases role with
  | script =>
    rw [show quotedSnapshot.files.filter _ = _ from
      (by decide : _ = [⟨"/p/dist/a.js"⟩, ⟨"/p/dist/it's/index.js"⟩,
        ⟨"/p/dist/it's/x.js"⟩])]
    exact .cons ⟨rfl, first⟩ (.cons ⟨rfl, index⟩ (.cons ⟨rfl, other⟩ .nil))
  | declaration =>
    rw [show quotedSnapshot.files.filter _ = _ from (by decide : _ = [])]
    exact .nil

set_option maxRecDepth 1000 in
/-- A script refers to the directory that it lies in, which has a quote in its name. -/
theorem relinkSpecifier_quotedScript :
    quotedSnapshot.relinkSpecifier .script ⟨"/p/dist/it's/x.js"⟩ "." =
      .replaced "../it's/index.js" := by
  decide

theorem relinkText_quotedScript :
    quotedSnapshot.relinkText .script ⟨"/p/dist/it's/x.js"⟩ "import '.';" =
      ⟨"import '../it's/index.js';", 1, []⟩ :=
  @relinkText_of_pieces _ _ _ _ "import '" _ _ ["'", ";"] .staticImport (by decide)
    relinkSpecifier_quotedScript

/-- A quote in the name of a directory closes the literal of a replacement that the name is added
to, from the way to the root or from the directory of the file. What is scanned again is the part
before the quote. -/
theorem relinkSpecifier_unquoted :
    ∃ host config snapshot, take host config {} = .ok snapshot ∧ host.tree.Named ∧
      (∃ file text specifier next, (file, text) ∈ snapshot.scripts.files ∧
        IsSpecifier specifier.toList ∧
        Specifier.classify snapshot.layout specifier = .aliased ∧
        snapshot.relinkSpecifier .script file specifier = .replaced next ∧
        ¬ IsSpecifier next.toList ∧
        (occurrences (snapshot.relinkText .script file text).text).map Occurrence.specifier =
          ["./it"]) ∧
      ∃ file text specifier next, (file, text) ∈ snapshot.scripts.files ∧
        IsSpecifier specifier.toList ∧
        Specifier.classify snapshot.layout specifier = .relative ∧
        snapshot.relinkSpecifier .script file specifier = .replaced next ∧
        ¬ IsSpecifier next.toList ∧
        (occurrences (snapshot.relinkText .script file text).text).map Occurrence.specifier =
          ["../it"] := by
  have broken {text : String} (quote : '\'' ∈ text.toList) : ¬ IsSpecifier text.toList :=
    fun isSpecifier => absurd (isSpecifier.characters _ quote) (by decide)
  have aliased : quotedSnapshot.relinkSpecifier .script ⟨"/p/dist/a.js"⟩ "~/x" =
      .replaced "./it's/x.js" := by decide +kernel
  refine ⟨quotedPackage, sampleConfig, quotedSnapshot, quotedPackage_take, by decide,
    ⟨⟨"/p/dist/a.js"⟩, "import '~/x';", "~/x", "./it's/x.js", by decide,
      by decide, by decide, aliased, broken (by decide), ?_⟩,
    ⟨"/p/dist/it's/x.js"⟩, "import '.';", ".", "../it's/index.js", by decide,
      by decide, by decide, relinkSpecifier_quotedScript, broken (by decide), ?_⟩
  · rw [@relinkText_of_pieces _ _ _ _ "import '" _ _ ["'", ";"] .staticImport (by decide)
      aliased]
    decide
  · rw [relinkText_quotedScript]
    decide

end Relink.Snapshot
