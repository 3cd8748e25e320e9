import Relink.Proofs.Referring
import Relink.Proofs.Tree.Visible

/-!
# Replaced specifiers resolve

What a local specifier is replaced by, read from the directory of its file, leads to a tracked
file: in a script to the very file, in a declaration to what the specifier referred to, which
names a tracked file with or without an ending. The names that the listing passes over are what
keeps a reference that ends in `..` from being completed to the name of a file. Where a directory is
shown by a name that is not Unicode, what is read is another place.
-/

namespace Relink

namespace Text

/-- A text ends with what was put behind it. -/
theorem endsWith_append (text tail : String) : endsWith (text ++ tail) tail = true := by
  rw [endsWith, List.isSuffixOf_iff_suffix, String.toList_append]
  exact List.suffix_append _ _

/-- A text ends with the ending of its ending. -/
theorem endsWith_trans {text tail ending : String} (first : endsWith text tail = true)
    (second : endsWith tail ending = true) : endsWith text ending = true := by
  rw [endsWith, List.isSuffixOf_iff_suffix] at first second ⊢
  exact second.trans first

end Text

/-- A way ends as its last step does. -/
theorem endsWith_way (steps : List String) (last : String) :
    Text.endsWith (way (steps ++ [last])) last = true := by
  by_cases filled : steps = []
  · subst filled
    rw [Text.endsWith, List.isSuffixOf_iff_suffix]
    exact List.suffix_refl _
  · rw [way, Text.intercalate_concat filled]
    exact Text.endsWith_append _ _

namespace Location

/-- What is put behind the path of a location is put behind its last name. -/
theorem path_append_text (outer : List String) (last addition : String) :
    (⟨(path (outer ++ [last])).text ++ addition⟩ : Path) = path (outer ++ [last ++ addition]) := by
  rw [path_text, String.append_assoc, Text.intercalate_append]
  rfl

end Location

namespace Snapshot

variable {host : Host} {config : Config} {snapshot : Snapshot}

/-- A local specifier that is replaced was resolved. -/
theorem exists_resolution {role : FileRole} {file : Path} {specifier next : String}
    (replaced : snapshot.relinkSpecifier role file specifier = .replaced next) :
    (Specifier.classify snapshot.layout specifier).isLocal = true ∧ ∃ resolution,
      snapshot.resolve? role file specifier = some resolution ∧
        next = replacement role resolution := by
  unfold relinkSpecifier at replaced
  dsimp only at replaced
  split at replaced
  · rename_i isLocal
    refine ⟨isLocal, ?_⟩
    unfold relinkLocal at replaced
    split at replaced
    · cases replaced
    · split at replaced
      · cases replaced
      · rename_i resolution resolved
        dsimp only at replaced
        split at replaced
        · cases replaced
        · exact ⟨resolution, resolved, (Outcome.replaced.inj replaced).symm⟩
  · cases role with
    | script =>
      dsimp only at replaced
      unfold checkForeign at replaced
      split at replaced
      · cases replaced
      · split at replaced <;> cases replaced
      · split at replaced <;> cases replaced
      · cases replaced
      · cases replaced
    | declaration => cases replaced

/-- What a specifier was resolved to: the first candidate that names a tracked file. -/
theorem resolve?_eq_some {role : FileRole} {file directory : Path} {specifier : String}
    {resolution : Resolution} (parent : file.parent? = some directory)
    (resolved : snapshot.resolve? role file specifier = some resolution) :
    let target := snapshot.targetOf directory specifier
    let candidates := Specifier.candidates (directory.relative target) target
      (snapshot.ending role)
    resolution.candidate ∈ candidates ∧ resolution.bare = candidates.head?.getD "" ∧
      ∃ known ∈ (snapshot.tracked role).files.map Prod.fst,
        known.components =
          (directory.join (.ofText resolution.candidate)).normalize.components := by
  rw [resolve?, parent] at resolved
  dsimp only at resolved ⊢
  obtain ⟨candidate, found, rfl⟩ := Option.map_eq_some_iff.1 resolved
  rw [Specifier.probe] at found
  refine ⟨List.mem_of_find?_eq_some found, rfl, ?_⟩
  have contains := List.find?_some found
  rw [(snapshot.tracked role).paths_eq_ofList] at contains
  exact PathSet.contains_ofList.1 contains

/-- The endings that are looked for are endings. -/
theorem isEnding_ending (layout_eq : snapshot.layout = {}) (role : FileRole) :
    IsEnding (snapshot.ending role) := by
  have plain {ending : String} (shape : ending = ".js" ∨ ending = ".d.ts") : IsEnding ending := by
    rcases shape with rfl | rfl <;> exact ⟨⟨by decide, by decide, by decide, by decide⟩, by decide, by decide⟩
  unfold ending
  rw [layout_eq]
  cases role
  · exact plain (.inl rfl)
  · exact plain (.inr rfl)

/-- What the candidates of a reference come to, when they name entries that are reached by visible
names: the target, the target with an ending, or its index. The target is what is read where the
reference is shown. -/
theorem candidate_cases {source target meant lead down output rest : List String}
    {ending candidate : String} (reference : Reference source meant lead down)
    (seen : Reference source target lead (down.map Name.seen))
    (areSource : AreNames source) (areTarget : AreNames target) (isEnding : IsEnding ending)
    (filled : rest ≠ []) (areNames : AreNames (output ++ rest)) (areVisible : Tree.AreVisible rest)
    (member : candidate ∈ [shownWay lead down, shownWay lead down ++ ending,
      shownWay lead down ++ "/index" ++ ending])
    (leads : (Location.path (output ++ rest)).components =
      ((Location.path source).join (.ofText candidate)).normalize.components) :
    (candidate = shownWay lead down ∧ output ++ rest = target) ∨
      (candidate = shownWay lead down ++ ending ∧ down ≠ [] ∧
        ∃ outer last, target = outer ++ [last] ∧ output ++ rest = outer ++ [last ++ ending]) ∨
      (candidate = shownWay lead down ++ "/index" ++ ending ∧
        output ++ rest = target ++ ["index" ++ ending]) := by
  have areIndex : AreNames ["index" ++ ending] :=
    .singleton (isEnding.append (by decide) (by decide))
  simp only [List.mem_cons, List.not_mem_nil, or_false] at member
  -- One case for each candidate, with where it leads.
  rcases member with rfl | rfl | rfl
  · rw [Path.ofText, reference.ofText_shownWay,
      Path.normalize_join_target seen areSource areTarget] at leads
    exact .inl ⟨rfl, Location.path_inj areNames areTarget leads⟩
  · rw [Path.ofText, Name.ofText_append, reference.ofText_shownWay, isEnding.plain.ofText] at leads
    rcases Path.normalize_join_ending seen areSource areTarget isEnding with
      ⟨outer, last, goesDown, rfl, ended⟩ | ⟨outer, name, hidden, areOuter, ended⟩
    · rw [ended] at leads
      have isName := isEnding.append (areTarget last (by simp)).ne_empty
        (areTarget last (by simp)).noSlash
      have same := Location.path_inj areNames
        (areTarget.left.append (.singleton isName)) leads
      exact .inr (.inl ⟨rfl, by simpa using goesDown, outer, last, rfl, same⟩)
    · -- The listing passes over an entry of that name.
      rw [ended] at leads
      have same := Location.path_inj areNames areOuter leads
      exact absurd ⟨outer, name, same, hidden⟩ (areVisible.not_isHidden filled output)
  · rw [Path.ofText, Name.ofText_append, Name.ofText_append, reference.ofText_shownWay,
      isEnding.plain.ofText, show Name.ofText "/index" = "/index" by decide,
      Path.normalize_join_index seen areSource areTarget isEnding] at leads
    exact .inr (.inr ⟨rfl, Location.path_inj areNames (areTarget.append areIndex) leads⟩)

/-- How a specifier of a file in `source` was resolved to the known file at `found`: what the
specifier means, the reference to it, what is read where the reference is shown, and the candidate
that names the file. -/
structure Resolves (snapshot : Snapshot) (role : FileRole) (specifier candidate : String)
    (source meant target lead down found : List String) : Prop where
  areSource : AreNames source
  areMeant : AreNames meant
  areTarget : AreNames target
  areFound : AreNames found
  refers : Refers snapshot (Location.path source) specifier (Location.path meant)
  reference : Reference source meant lead down
  enters : Enters source meant down
  seen : Reference source target lead (down.map Name.seen)
  /-- A reference in which every name is seen as it is leads to what is meant. -/
  straight : down.map Name.seen = down -> target = meant
  known : Location.path found ∈ (snapshot.tracked role).files.map Prod.fst
  leads : ((Location.path source).join (.ofText candidate)).normalize = Location.path found
  ending : ∃ outer last, found = outer ++ [last] ∧
    Text.endsWith (Name.shown last) (snapshot.ending role) = true
  cases : (candidate = shownWay lead down ∧ found = target) ∨
    (candidate = shownWay lead down ++ snapshot.ending role ∧ down ≠ [] ∧
      ∃ outer last, target = outer ++ [last] ∧ found = outer ++ [last ++ snapshot.ending role]) ∨
    (candidate = shownWay lead down ++ "/index" ++ snapshot.ending role ∧
      found = target ++ ["index" ++ snapshot.ending role])
  /-- A reference to a file ends in a name. -/
  named : found = target -> ∃ inner last, down = inner ++ [last] ∧ Name.seen last ≠ ""

/-- A tracked file lies in a directory. -/
theorem IsTracked.exists_directory {layout : Layout} {output rest : List String} {role : FileRole}
    {file : Path} {text : String} (isTracked : IsTracked host layout output role file text rest) :
    ∃ source name, output ++ rest = source ++ [name] ∧ AreNames source ∧
      file.parent? = some (Location.path source) := by
  obtain ⟨inner, name, rfl⟩ := (List.eq_nil_or_concat rest).resolve_left isTracked.ne_nil
  have areNames := isTracked.areNames
  rw [List.concat_eq_append, ← List.append_assoc] at areNames
  refine ⟨output ++ inner, name, by simp, areNames.left, ?_⟩
  rw [isTracked.path, List.concat_eq_append, ← List.append_assoc]
  exact Location.parent?_path areNames

/-- The name of a tracked file ends as its role does. -/
theorem IsTracked.exists_ending {output rest : List String} {role : FileRole} {file : Path}
    {text : String} (isTracked : IsTracked host {} output role file text rest)
    (layout_eq : snapshot.layout = {}) :
    ∃ outer last, output ++ rest = outer ++ [last] ∧
      Text.endsWith (Name.shown last) (snapshot.ending role) = true := by
  obtain ⟨outer, last, shape, -, -⟩ := isTracked.exists_directory
  have areNames := isTracked.areNames
  have hasRole := isTracked.role
  rw [isTracked.path] at hasRole
  rw [shape] at areNames hasRole
  have ends := endsWith_of_roleOf? areNames hasRole
  refine ⟨outer, last, shape, ?_⟩
  unfold ending
  rw [layout_eq]
  cases role <;> exact ends

/-- A reference from the directory of a tracked file to a tracked file ends in a name: a directory
on the way to a file is not known as a file. -/
theorem IsTracked.reference_named {layout : Layout} {output rest rest' : List String}
    {tracked role : FileRole} {file known : Path} {text content : String}
    {source lead down : List String} {name : String}
    (isTracked : IsTracked host layout output tracked file text rest)
    (isKnown : IsTracked host layout output role known content rest')
    (shape : output ++ rest = source ++ [name])
    (reference : Reference source (output ++ rest') lead down) :
    ∃ inner last, down = inner ++ [last] ∧ last ≠ "" := by
  have areNames := isKnown.areNames
  have filled := isKnown.ne_nil
  generalize target_eq : output ++ rest' = target at reference areNames
  cases reference with
  | below goesDown =>
    obtain ⟨inner, last, rfl⟩ := (List.eq_nil_or_concat down).resolve_left goesDown
    rw [List.concat_eq_append] at areNames
    exact ⟨inner, last, List.concat_eq_append, (areNames last (by simp)).ne_empty⟩
  | @above common climbed _ climbs =>
    rcases List.eq_nil_or_concat down with rfl | ⟨inner, last, rfl⟩
    · refine absurd ?_ (isKnown.not_above isTracked (by simp : climbed ++ [name] ≠ []))
      rw [target_eq, shape]
      simp
    · rw [List.concat_eq_append] at areNames
      exact ⟨inner, last, List.concat_eq_append, (areNames last (by simp)).ne_empty⟩
  | top => exact absurd (List.append_eq_nil_iff.1 target_eq).2 filled

/-- A local specifier of a tracked file that is resolved leads to a tracked file. -/
theorem exists_resolves_of_resolve? (taken : Taken host config {} snapshot)
    (named : host.tree.Named) {tracked role : FileRole} {file : Path} {text specifier : String}
    {resolution : Resolution} (member : (file, text) ∈ (snapshot.tracked tracked).files)
    (isLocal : (Specifier.classify snapshot.layout specifier).isLocal = true)
    (resolved : snapshot.resolve? role file specifier = some resolution) :
    ∃ source meant target lead down found,
      Resolves snapshot role specifier resolution.candidate source meant target lead down found ∧
        file.parent? = some (Location.path source) ∧ resolution.bare = shownWay lead down := by
  obtain ⟨output, areOutput, output_eq⟩ := exists_outputDirectory host config
  obtain ⟨rest, isTracked⟩ := taken.isTracked named areOutput output_eq member
  obtain ⟨source, name, shape, areSource, parent⟩ := isTracked.exists_directory
  have refers := @refers_targetOf snapshot taken.layout_eq (Location.path source) specifier isLocal
  obtain ⟨meant, areMeant, meant_eq⟩ := refers.exists_location taken
  obtain ⟨among, bare, known, inside, same⟩ := resolve?_eq_some parent resolved
  rw [meant_eq] at refers among bare
  -- The reference leads to what is meant; the names that it shows are read as those of the target.
  obtain ⟨lead, down, reference, enters, candidates⟩ := Path.exists_reference areSource areMeant
  obtain ⟨target, areTarget, seen, straight⟩ := reference.exists_seen areMeant
  rw [candidates] at among bare
  obtain ⟨⟨known, content⟩, inside', rfl⟩ := List.mem_map.1 inside
  obtain ⟨rest', isKnown⟩ := taken.isTracked named areOutput output_eq inside'
  have known_eq : known = Location.path (output ++ rest') := isKnown.path
  dsimp only at inside same
  rw [known_eq] at inside same
  have outcome := candidate_cases reference seen areSource areTarget
    (isEnding_ending taken.layout_eq role) isKnown.ne_nil isKnown.areNames isKnown.areVisible
    among same
  refine ⟨source, meant, target, lead, down, output ++ rest',
    ⟨areSource, areMeant, areTarget, isKnown.areNames, refers, reference, enters, seen, straight,
      inside, ?_, ?_, outcome, ?_⟩, parent, bare⟩
  · obtain ⟨names, areNames, shape'⟩ := Path.exists_location_of_isAbsolute
      (@Path.isAbsolute_join _ (.ofText resolution.candidate) (Location.path_isAbsolute source))
    rw [shape'] at same ⊢
    rw [Location.path_inj isKnown.areNames areNames same]
  · exact isKnown.exists_ending taken.layout_eq
  · intro itself
    obtain ⟨inner, last, shape', filled⟩ := isTracked.reference_named isKnown shape (itself ▸ seen)
    obtain ⟨inner', last', rfl, -, ends⟩ := List.map_eq_append_iff.1 shape'
    obtain ⟨last'', rfl, rfl⟩ := List.map_eq_singleton_iff.1 ends
    exact ⟨inner', last'', rfl, filled⟩

/-- A specifier that is replaced in a tracked file resolves to a tracked file. -/
theorem exists_resolves (taken : Taken host config {} snapshot) (named : host.tree.Named)
    {tracked role : FileRole} {file : Path} {text specifier next : String}
    (member : (file, text) ∈ (snapshot.tracked tracked).files)
    (replaced : snapshot.relinkSpecifier role file specifier = .replaced next) :
    ∃ candidate source meant target lead down found,
      Resolves snapshot role specifier candidate source meant target lead down found ∧
        file.parent? = some (Location.path source) ∧
        next = replacement role ⟨candidate, shownWay lead down⟩ := by
  obtain ⟨isLocal, ⟨candidate, bare⟩, resolved, rfl⟩ := exists_resolution replaced
  obtain ⟨source, meant, target, lead, down, found, resolves, parent, rfl⟩ :=
    exists_resolves_of_resolve? taken named member isLocal resolved
  exact ⟨candidate, source, meant, target, lead, down, found, resolves, parent, rfl⟩

/-! ## What a specifier is replaced by -/

section

variable {role : FileRole} {specifier candidate : String}
  {source meant target lead down found : List String}

/-- What is read where the reference is shown is what the specifier means, if every name is shown as
it is. -/
theorem Resolves.target_eq
    (resolves : Resolves snapshot role specifier candidate source meant target lead down found)
    (unicode : (Location.path source).HasUnicodeReference (Location.path meant)) : target = meant :=
  resolves.straight (unicode.map_seen resolves.areSource resolves.areMeant resolves.enters)

/-- Where the way to the root is Unicode, what is read is what the specifier means, or is beside the
directory, which the specifier means and whose own name is not Unicode. -/
theorem Resolves.target_cases
    (resolves : Resolves snapshot role specifier candidate source meant target lead down found)
    (taken : Taken host config {} snapshot)
    (ofRoot : Specifier.classify snapshot.layout specifier = .aliased ->
      (Location.path source).HasUnicodeWay snapshot.root) :
    target = meant ∨ ∃ outer last, source = outer ++ [last] ∧ target = outer ++ [Name.seen last] ∧
      Name.seen last ≠ last ∧ meant = source := by
  by_cases straight : down.map Name.seen = down
  · exact .inl (resolves.straight straight)
  · have itself : meant = source := by
      by_contra other
      exact straight (resolves.refers.map_seen_down resolves.areSource resolves.areMeant taken
        ofRoot resolves.enters other)
    have enters := resolves.enters.itself itself
    have reference := resolves.reference
    have seen := resolves.seen
    rw [itself] at reference
    rw [enters] at straight reference seen
    rcases List.eq_nil_or_concat source with rfl | ⟨outer, last, rfl⟩
    · exact absurd (by decide) straight
    · simp only [List.concat_eq_append, List.getLast?_concat, Option.getD_some, List.map_singleton]
        at straight reference seen
      obtain rfl := reference.lead_eq rfl
      exact .inr ⟨outer, last, List.concat_eq_append, seen.target_eq rfl,
        fun same => straight (by rw [same]), itself⟩

/-- The file that a resolved specifier names is what is read, that with an ending, or its index. -/
theorem Resolves.known_cases
    (resolves : Resolves snapshot role specifier candidate source meant target lead down found)
    (layout_eq : snapshot.layout = {}) :
    Location.path found = Location.path target ∨
      Location.path found = ⟨(Location.path target).text ++ snapshot.ending role⟩ ∨
      Location.path found = (Location.path target).join ⟨"index" ++ snapshot.ending role⟩ := by
  rcases resolves.cases with ⟨-, rfl⟩ | ⟨-, -, outer, last, rfl, rfl⟩ | ⟨-, rfl⟩
  · exact .inl rfl
  · exact .inr (.inl (Location.path_append_text ..).symm)
  · have isIndex := (isEnding_ending layout_eq role).append (by decide : "index" ≠ "") (by decide)
    exact .inr (.inr (Location.join_path resolves.areTarget isIndex).symm)

/-- The candidate that names a file begins as a reference does. -/
theorem Resolves.candidate_startsWith
    (resolves : Resolves snapshot role specifier candidate source meant target lead down found) :
    Text.startsWith candidate "./" = true ∨ Text.startsWith candidate "../" = true := by
  rcases Path.shownWay_reference resolves.reference with ⟨upward, none_⟩ | starts
  · rcases resolves.cases with ⟨rfl, itself⟩ | ⟨-, filled, -⟩ | ⟨rfl, -⟩
    · obtain ⟨inner, last, shape, -⟩ := resolves.named itself
      rw [none_] at shape
      simp at shape
    · exact absurd none_ filled
    · rw [upward]
      exact .inr (Text.startsWith_append
        (by decide : Text.startsWith (".." ++ "/index") "../" = true) _)
  · have extended (tail : String) :
        Text.startsWith (shownWay lead down ++ tail) "./" = true ∨
          Text.startsWith (shownWay lead down ++ tail) "../" = true :=
      starts.imp (Text.startsWith_append · tail) (Text.startsWith_append · tail)
    rcases resolves.cases with ⟨rfl, -⟩ | ⟨rfl, -⟩ | ⟨rfl, -⟩
    · exact starts
    · exact extended _
    · rw [String.append_assoc]
      exact extended _

/-- The candidate that names a file ends as the file does. -/
theorem Resolves.candidate_endsWith
    (resolves : Resolves snapshot role specifier candidate source meant target lead down found) :
    Text.endsWith candidate (snapshot.ending role) = true := by
  rcases resolves.cases with ⟨rfl, itself⟩ | ⟨rfl, -⟩ | ⟨rfl, -⟩
  · obtain ⟨inner, last, rfl, filled⟩ := resolves.named itself
    obtain ⟨outer, last', shape, ends⟩ := resolves.ending
    have seen := resolves.seen
    rw [List.map_append, List.map_singleton] at seen
    obtain ⟨outer', shape', -⟩ := Path.exchange_last last seen filled
    have same : last' = Name.seen last := by
      rw [itself, shape'] at shape
      exact (List.append_singleton_inj.1 shape).2.symm
    rw [same, Name.shown_seen] at ends
    rw [shownWay, List.map_append, List.map_singleton, ← List.append_assoc]
    exact Text.endsWith_trans (endsWith_way _ _) ends
  · exact Text.endsWith_append _ _
  · exact Text.endsWith_append _ _

/-- What a declaration's specifier is replaced by leads to what is read where it is shown. -/
theorem Resolves.leads_bare
    (resolves : Resolves snapshot role specifier candidate source meant target lead down found) :
    ((Location.path source).join (.ofText (shownWay lead down))).normalize =
      Location.path target := by
  rw [Path.ofText, resolves.reference.ofText_shownWay]
  exact Path.normalize_join_target resolves.seen resolves.areSource resolves.areTarget

end

/-! ## A small package -/

/-- A package with two scripts and a declaration that refers to its own directory. -/
def samplePackage : Host where
  tree := ⟨[(["p"], .directory),
    (["p", "package.json"], .file "\x7b\"main\":\"dist/index.js\"\x7d".toByteArray false),
    (["p", "dist"], .directory),
    (["p", "dist", "b.js"], .file "".toByteArray false),
    (["p", "dist", "index.d.ts"], .file "export * from '.';".toByteArray false),
    (["p", "dist", "index.js"], .file "import './b';".toByteArray false)]⟩
  directory := ["p"]

/-- The working directory as a package. -/
def sampleConfig : Config where
  directory := ⟨"."⟩

/-- What a pass knows of the small package. -/
def sampleSnapshot : Snapshot where
  root := ⟨"/p/dist"⟩
  layout := {}
  manifest := { entry := some "dist/index.js" }
  files := [⟨"/p/dist/b.js"⟩, ⟨"/p/dist/index.d.ts"⟩, ⟨"/p/dist/index.js"⟩]
  scripts := .ofFiles [(⟨"/p/dist/b.js"⟩, ""), (⟨"/p/dist/index.js"⟩, "import './b';")]
  declarations := .ofFiles [(⟨"/p/dist/index.d.ts"⟩, "export * from '.';")]

theorem samplePackage_named : samplePackage.tree.Named := by
  decide

theorem samplePackage_children :
    samplePackage.tree.children ["p", "dist"] = ["b.js", "index.d.ts", "index.js"] := by
  rw [Tree.children, show samplePackage.tree.entries.filterMap _ = _ from
    (by decide : _ = ["b.js", "index.d.ts", "index.js"])]
  exact List.mergeSort_of_pairwise (by decide)

/-- The output directory of a package is listed by the names in it. -/
theorem visibleFiles_of_children {host : Host} {names : List String} {depth : Nat}
    {files : List Path} (directory_eq : host.directory = ["p"])
    (found : host.tree.status ["p"] ⟨"/p/dist"⟩ = .ok (["p", "dist"], .directory))
    (children : host.tree.children ["p", "dist"] = names)
    (depth_eq : host.tree.listingDepth = depth + 1)
    (listed : (names.mapM (host.tree.listEntry depth [] ⟨⟨"/p/dist"⟩, ["p", "dist"]⟩)).map
      List.flatten = .ok files) : host.visibleFiles ⟨"/p/dist"⟩ = .ok files := by
  rw [Host.visibleFiles, Tree.list, directory_eq, found]
  dsimp only
  rw [depth_eq, Tree.listBelow_succ, children, listed]

/-- What a pass knows of a package: its manifest and its files, as they are read. -/
theorem take_of_visibleFiles {host : Host} {snapshot : Snapshot} {text entry : String}
    (directory_eq : host.directory = ["p"]) (layout_eq : snapshot.layout = {})
    (found : host.tree.status ["p"] ⟨"/p/dist"⟩ = .ok (["p", "dist"], .directory))
    (manifest : host.readText ⟨"/p/package.json"⟩ = .ok text)
    (parsed : Manifest.parse text = .ok snapshot.manifest)
    (entry_eq : snapshot.manifest.entry = some entry)
    (rooted : snapshot.root = rootOf ⟨"/p"⟩ entry)
    (listed : host.visibleFiles ⟨"/p/dist"⟩ = .ok snapshot.files)
    (tracked : ∀ role, List.Forall₂ (fun file pair => pair.1 = file ∧
      host.readText file = .ok pair.2)
        (snapshot.files.filter fun file => roleOf? {} file = some role)
        (snapshot.tracked role).files) : take host sampleConfig {} = .ok snapshot := by
  have absolutize (path : Path) : host.absolutize path = samplePackage.absolutize path := by
    rw [Host.absolutize, Host.workingPath, directory_eq]
    rfl
  have package : host.absolutize sampleConfig.directory = ⟨"/p"⟩ := by
    rw [absolutize]
    decide
  have output : outputDirectory host sampleConfig = ⟨"/p/dist"⟩ := by
    rw [outputDirectory, package]
    decide
  have manifestPath : host.absolutize sampleConfig.manifestPath = ⟨"/p/package.json"⟩ := by
    rw [absolutize]
    decide
  rw [take_eq_ok_iff]
  constructor
  case isDirectory => rw [output, Host.isDirectory, Tree.isDirectory, directory_eq, found]
  case manifest =>
    rw [manifestPath]
    exact readManifest_eq_ok_iff.2 ⟨_, manifest, parsed⟩
  case entry => exact ⟨entry, entry_eq, by rw [package, rooted]⟩
  case layout_eq => exact layout_eq
  case files => rw [output, listOutput, listed]
  case tracked => exact fun role => readFiles_eq_ok_iff.2 (tracked role)

/-- What a pass knows of a package in which it reads what the small package holds. -/
theorem take_sampleSnapshot {host : Host} (directory_eq : host.directory = ["p"])
    (found : host.tree.status ["p"] ⟨"/p/dist"⟩ = .ok (["p", "dist"], .directory))
    (listed : host.visibleFiles ⟨"/p/dist"⟩ = .ok sampleSnapshot.files)
    (manifest : host.readText ⟨"/p/package.json"⟩ = .ok "\x7b\"main\":\"dist/index.js\"\x7d")
    (script : host.readText ⟨"/p/dist/b.js"⟩ = .ok "")
    (index : host.readText ⟨"/p/dist/index.js"⟩ = .ok "import './b';")
    (declaration : host.readText ⟨"/p/dist/index.d.ts"⟩ = .ok "export * from '.';") :
    take host sampleConfig {} = .ok sampleSnapshot := by
  refine take_of_visibleFiles directory_eq rfl found manifest (by decide) rfl
    (by decide) listed fun role => ?_
  cases role with
  | script =>
    rw [show sampleSnapshot.files.filter _ = _ from
      (by decide : _ = [⟨"/p/dist/b.js"⟩, ⟨"/p/dist/index.js"⟩])]
    exact .cons ⟨rfl, script⟩ (.cons ⟨rfl, index⟩ .nil)
  | declaration =>
    rw [show sampleSnapshot.files.filter _ = _ from
      (by decide : _ = [⟨"/p/dist/index.d.ts"⟩])]
    exact .cons ⟨rfl, declaration⟩ .nil

theorem samplePackage_visibleFiles :
    samplePackage.visibleFiles ⟨"/p/dist"⟩ = .ok sampleSnapshot.files :=
  visibleFiles_of_children rfl (by decide) samplePackage_children
    (by decide : _ = 48 + 1) (by decide)

theorem samplePackage_take : take samplePackage sampleConfig {} = .ok sampleSnapshot :=
  take_sampleSnapshot rfl (by decide) samplePackage_visibleFiles
    (@readText_of_status _ _ ["p", "package.json"] _ false (by decide))
    (@readText_of_status _ _ ["p", "dist", "b.js"] _ false (by decide))
    (@readText_of_status _ _ ["p", "dist", "index.js"] _ false (by decide))
    (@readText_of_status _ _ ["p", "dist", "index.d.ts"] _ false (by decide))

set_option maxRecDepth 1000 in
/-- The one script refers to the other. -/
theorem relinkSpecifier_sampleScript :
    sampleSnapshot.relinkSpecifier .script ⟨"/p/dist/index.js"⟩ "./b" = .replaced "./b.js" := by
  decide

/-- The declaration refers to its directory. -/
theorem relinkSpecifier_sampleDeclaration :
    sampleSnapshot.relinkSpecifier .declaration ⟨"/p/dist/index.d.ts"⟩ "." =
      .replaced "../dist" := by
  decide

/-! ## A text with one specifier -/

/-- Plain pieces hold no specifier. -/
theorem occurrencesFrom_plain (parts : List String) (offset line : Nat) :
    Script.occurrencesFrom offset line (parts.map fun part => .plain part.toList) = [] := by
  induction parts generalizing offset line with
  | nil => rfl
  | cons part parts ih => exact ih _ _

/-- A text with one specifier, which is replaced. -/
theorem relinkText_of_pieces {snapshot : Snapshot} {role : FileRole} {file : Path}
    {text before specifier next : String} {after : List String} {form : Script.Form}
    (cut : Script.pieces text.toList = .plain before.toList :: .site form specifier.toList ::
      after.map fun part => .plain part.toList)
    (replaced : snapshot.relinkSpecifier role file specifier = .replaced next) :
    snapshot.relinkText role file text = ⟨before ++ next ++ String.join after, 1, []⟩ := by
  have rest : (after.map fun part => Script.Piece.plain part.toList).flatMap
      (snapshot.relinkPiece role file) = (String.join after).toList := by
    rw [List.flatMap_map, String.toList_join]
    rfl
  rw [relinkText, cut]
  dsimp only [Script.occurrencesFrom]
  rw [occurrencesFrom_plain, List.flatMap_cons, List.flatMap_cons, rest]
  simp only [relinkPiece, String.ofList_toList, replaced, Outcome.applyTo,
    ← String.toList_append, ← String.append_assoc, List.map_cons, List.map_nil]
  rfl

/-! ## Every replacement -/

/-- What a specifier is replaced by leads to a tracked file, or, in a declaration, to what a tracked
file completes. If a reference to what the specifier refers to shows every name as it is, this is
that: in a script the tracked file is it, with an ending or as an index if need be, and in a
declaration the replacement leads to it. -/
theorem relinkSpecifier_resolves (taken : take host config {} = .ok snapshot)
    (named : host.tree.Named) {tracked : FileRole} {file : Path} {text : String}
    (member : (file, text) ∈ (snapshot.tracked tracked).files) :
    ∃ directory, file.parent? = some directory ∧ ∀ specifier next,
      (snapshot.relinkSpecifier .script file specifier = .replaced next ->
        ∃ target, Refers snapshot directory specifier target ∧
          (Text.startsWith next "./" = true ∨ Text.startsWith next "../" = true) ∧
          Text.endsWith next ".js" = true ∧
          ∃ known ∈ snapshot.scripts.files.map Prod.fst,
            (directory.join (.ofText next)).normalize = known ∧
            (directory.HasUnicodeReference target ->
              known = target ∨ known = ⟨target.text ++ ".js"⟩ ∨
                known = target.join ⟨"index.js"⟩)) ∧
      (snapshot.relinkSpecifier .declaration file specifier = .replaced next ->
        ∃ target, Refers snapshot directory specifier target ∧
          (next = ".." ∨ Text.startsWith next "./" = true ∨
            Text.startsWith next "../" = true) ∧
          (directory.HasUnicodeReference target ->
            (directory.join (.ofText next)).normalize = target ∧
            ∃ known ∈ snapshot.declarations.files.map Prod.fst,
              known = target ∨ known = ⟨target.text ++ ".d.ts"⟩ ∨
                known = target.join ⟨"index.d.ts"⟩)) := by
  replace taken := take_eq_ok_iff.1 taken
  have scriptEnding : snapshot.ending .script = ".js" :=
    congrArg Layout.scriptEnding taken.layout_eq
  have declarationEnding : snapshot.ending .declaration = ".d.ts" :=
    congrArg Layout.declarationEnding taken.layout_eq
  -- Both roles go the same way: the replacement is inverted, and the file that was found is one of
  -- three.
  obtain ⟨output, areOutput, output_eq⟩ := exists_outputDirectory host config
  obtain ⟨rest, isTracked⟩ := taken.isTracked named areOutput output_eq member
  obtain ⟨directory, name, -, -, parent⟩ := isTracked.exists_directory
  refine ⟨_, parent, fun specifier next => ⟨fun replaced => ?_, fun replaced => ?_⟩⟩
  · obtain ⟨candidate, source, meant, target, lead, down, found, resolves, parent', rfl⟩ :=
      exists_resolves taken named member replaced
    rw [Option.some.inj (parent.symm.trans parent')]
    have ends := resolves.candidate_endsWith
    have known := resolves.known_cases taken.layout_eq
    rw [scriptEnding] at ends known
    refine ⟨_, resolves.refers, resolves.candidate_startsWith, ends, _, resolves.known,
      resolves.leads, fun unicode => ?_⟩
    rwa [resolves.target_eq unicode] at known
  · obtain ⟨candidate, source, meant, target, lead, down, found, resolves, parent', rfl⟩ :=
      exists_resolves taken named member replaced
    rw [Option.some.inj (parent.symm.trans parent')]
    have known := resolves.known_cases taken.layout_eq
    have leads := resolves.leads_bare
    rw [declarationEnding] at known
    refine ⟨_, resolves.refers, (Path.shownWay_reference resolves.reference).imp And.left id,
      fun unicode => ?_⟩
    rw [resolves.target_eq unicode] at known leads
    exact ⟨leads, _, resolves.known, known⟩

/-- In the small package, the script is led to the other script, and the declaration to the
directory that both lie in. -/
theorem relinkSpecifier_resolves_samplePackage :
    sampleSnapshot.relinkSpecifier .script ⟨"/p/dist/index.js"⟩ "./b" = .replaced "./b.js" ∧
      sampleSnapshot.relinkSpecifier .declaration ⟨"/p/dist/index.d.ts"⟩ "." =
        .replaced "../dist" ∧
      (∃ target, Refers sampleSnapshot ⟨"/p/dist"⟩ "./b" target ∧
        ∃ known ∈ sampleSnapshot.scripts.files.map Prod.fst,
          ((⟨"/p/dist"⟩ : Path).join (.ofText "./b.js")).normalize = known ∧
          (known = target ∨ known = ⟨target.text ++ ".js"⟩ ∨
            known = target.join ⟨"index.js"⟩)) ∧
      ∃ target, Refers sampleSnapshot ⟨"/p/dist"⟩ "." target ∧
        ((⟨"/p/dist"⟩ : Path).join (.ofText "../dist")).normalize = target := by
  refine ⟨relinkSpecifier_sampleScript, relinkSpecifier_sampleDeclaration, ?_, ?_⟩
  · obtain ⟨directory, parent, resolves⟩ := @relinkSpecifier_resolves samplePackage sampleConfig
      sampleSnapshot samplePackage_take samplePackage_named .script ⟨"/p/dist/index.js"⟩
      "import './b';" (by decide)
    obtain rfl : directory = ⟨"/p/dist"⟩ := Option.some.inj (parent.symm.trans (by decide))
    obtain ⟨target, refers, -, -, known, inside, leads, cases⟩ :=
      (resolves "./b" "./b.js").1 relinkSpecifier_sampleScript
    obtain rfl : _ = target := refers.targetOf_eq rfl
    exact ⟨_, refers, known, inside, leads, cases ⟨by decide, by decide⟩⟩
  · obtain ⟨directory, parent, resolves⟩ := @relinkSpecifier_resolves samplePackage sampleConfig
      sampleSnapshot samplePackage_take samplePackage_named .declaration ⟨"/p/dist/index.d.ts"⟩
      "export * from '.';" (by decide)
    obtain rfl : directory = ⟨"/p/dist"⟩ := Option.some.inj (parent.symm.trans (by decide))
    obtain ⟨target, refers, -, leads⟩ := (resolves "." "../dist").2 relinkSpecifier_sampleDeclaration
    obtain rfl : _ = target := refers.targetOf_eq rfl
    exact ⟨_, refers, (leads ⟨by decide, by decide⟩).1⟩

/-! ## A directory that is shown by another name -/

/-- A name that is not Unicode. It is shown as the replacement character is. -/
def strayName : String :=
  Name.ofBytes [0xFF]

/-- A package with two directories whose names are shown alike. -/
def strayPackage : Host where
  tree := ⟨[(["p"], .directory),
    (["p", "package.json"], .file "\x7b\"main\":\"dist/index.js\"\x7d".toByteArray false),
    (["p", "dist"], .directory),
    (["p", "dist", "\uFFFD"], .directory),
    (["p", "dist", "\uFFFD", "index.js"], .file "".toByteArray false),
    (["p", "dist", strayName], .directory),
    (["p", "dist", strayName, "x.js"], .file "import '.';".toByteArray false)]⟩
  directory := ["p"]

/-- What a pass knows of the package. -/
def straySnapshot : Snapshot where
  root := ⟨"/p/dist"⟩
  layout := {}
  manifest := { entry := some "dist/index.js" }
  files := [⟨"/p/dist/\uFFFD/index.js"⟩, ⟨"/p/dist/" ++ strayName ++ "/x.js"⟩]
  scripts := .ofFiles [(⟨"/p/dist/\uFFFD/index.js"⟩, ""),
    (⟨"/p/dist/" ++ strayName ++ "/x.js"⟩, "import '.';")]
  declarations := .ofFiles []

theorem strayPackage_visibleChildren :
    strayPackage.tree.visibleChildren ["p", "dist"] = ["\uFFFD", strayName] ∧
      strayPackage.tree.visibleChildren ["p", "dist", "\uFFFD"] = ["index.js"] ∧
      strayPackage.tree.visibleChildren ["p", "dist", strayName] = ["x.js"] := by
  refine ⟨?_, ?_, ?_⟩
  · exact Tree.visibleChildren_of_sorted (by decide) (by decide) (by decide)
  · exact Tree.visibleChildren_of_sorted (by decide) (by decide) (by decide)
  · exact Tree.visibleChildren_of_sorted (by decide) (by decide) (by decide)

theorem strayPackage_visibleBelow :
    strayPackage.tree.visibleBelow (62 + 1 + 1) ⟨"/p/dist"⟩ ["p", "dist"] =
      straySnapshot.files := by
  obtain ⟨outer, shown, stray⟩ := strayPackage_visibleChildren
  have first : strayPackage.tree.visibleBelow (62 + 1) ⟨"/p/dist/\uFFFD"⟩
      ["p", "dist", "\uFFFD"] = [⟨"/p/dist/\uFFFD/index.js"⟩] := by
    rw [Tree.visibleBelow, shown]
    decide
  have second : strayPackage.tree.visibleBelow (62 + 1) ⟨"/p/dist/" ++ strayName⟩
      ["p", "dist", strayName] = [⟨"/p/dist/" ++ strayName ++ "/x.js"⟩] := by
    rw [Tree.visibleBelow, stray]
    decide
  rw [Tree.visibleBelow, outer, List.flatMap_cons, List.flatMap_singleton,
    if_pos (by decide), if_pos (by decide),
    show (⟨"/p/dist"⟩ : Path).join ⟨"\uFFFD"⟩ = ⟨"/p/dist/\uFFFD"⟩ by decide,
    show (⟨"/p/dist"⟩ : Path).join ⟨strayName⟩ = ⟨"/p/dist/" ++ strayName⟩ by decide]
  exact (congrArg (· ++ _) first).trans (congrArg (_ ++ ·) second)

theorem strayPackage_take : take strayPackage sampleConfig {} = .ok straySnapshot := by
  have found : strayPackage.tree.status ["p"] ⟨"/p/dist"⟩ = .ok (["p", "dist"], .directory) := by
    decide
  have free : strayPackage.tree.LinkFree ["p", "dist"] :=
    Tree.linkFree_of_entries (by simp [strayPackage]) _
  have listed : strayPackage.visibleFiles ⟨"/p/dist"⟩ = .ok straySnapshot.files := by
    refine (free.list found).trans ?_
    rw [show strayPackage.tree.listingDepth = 62 + 1 + 1 by decide, strayPackage_visibleBelow]
  have manifest : strayPackage.readText ⟨"/p/package.json"⟩ =
      .ok "\x7b\"main\":\"dist/index.js\"\x7d" :=
    @readText_of_status _ _ ["p", "package.json"] _ false (by decide)
  have shown : strayPackage.readText ⟨"/p/dist/\uFFFD/index.js"⟩ = .ok "" :=
    @readText_of_status _ _ ["p", "dist", "\uFFFD", "index.js"] _ false (by decide)
  have stray : strayPackage.readText ⟨"/p/dist/" ++ strayName ++ "/x.js"⟩ = .ok "import '.';" :=
    @readText_of_status _ _ ["p", "dist", strayName, "x.js"] _ false (by decide)
  refine take_of_visibleFiles rfl rfl found manifest (by decide) rfl (by decide)
    listed fun role => ?_
  cases role with
  | script =>
    rw [show straySnapshot.files.filter _ = _ from (by decide : _ =
      [⟨"/p/dist/\uFFFD/index.js"⟩, ⟨"/p/dist/" ++ strayName ++ "/x.js"⟩])]
    exact .cons ⟨rfl, shown⟩ (.cons ⟨rfl, stray⟩ .nil)
  | declaration =>
    rw [show straySnapshot.files.filter _ = _ from (by decide : _ = [])]
    exact .nil

/-- A script in a directory that is shown by another name is led to a file of that name: the
replacement is none of what the specifier refers to. -/
theorem relinkSpecifier_strayDirectory :
    take strayPackage sampleConfig {} = .ok straySnapshot ∧ strayPackage.tree.Named ∧
      ∃ file text directory target next, (file, text) ∈ straySnapshot.scripts.files ∧
        file.parent? = some directory ∧ Refers straySnapshot directory "." target ∧
        straySnapshot.relinkSpecifier .script file "." = .replaced next ∧
        (directory.join (.ofText next)).normalize ∉
          [target, ⟨target.text ++ ".js"⟩, target.join ⟨"index.js"⟩] := by
  refine ⟨strayPackage_take, by decide, ⟨"/p/dist/" ++ strayName ++ "/x.js"⟩, "import '.';",
    ⟨"/p/dist/" ++ strayName⟩, _, "../\uFFFD/index.js", by decide, by decide,
    .relative (by decide), ?_, by decide⟩
  decide

end Snapshot
end Relink
