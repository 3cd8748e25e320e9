import Mathlib.Data.List.Find
import Relink.Proofs.Settled
import Relink.Proofs.Tree.Visible

/-!
# Which specifiers are resolved

A local specifier can mean a few places: what it refers to, that with an ending, or its index. It
is resolved when a tracked file lies at one of them, and then to the first one. A directory above
the one of the referring file is referred to by a climb, and no ending can follow a climb: with
one, it leads to an entry that every listing passes over. All this is so where no name that is not
Unicode has to be shown.
-/

namespace Relink

/-- Whether a path names a directory on the way to another one. -/
def Path.IsAbove (path other : Path) : Prop :=
  path.components <+: other.components ∧ path.components ≠ other.components

instance (path other : Path) : Decidable (path.IsAbove other) :=
  inferInstanceAs (Decidable (path.components <+: other.components ∧ _))

theorem Location.isAbove_path {names names' : List String} (areNames : AreNames names)
    (areNames' : AreNames names') :
    (path names).IsAbove (path names') ↔ names <+: names' ∧ names ≠ names' := by
  have injective : Function.Injective Component.name := fun _ _ => Component.name.inj
  rw [Path.IsAbove, components_path areNames, components_path areNames', List.cons_prefix_cons,
    List.prefix_map_iff_of_injective injective, ne_eq, List.cons.injEq,
    List.map_inj_right injective]
  simp

/-- The places that a reference from a file in `directory` to `target` can mean, in the order in
which they are tried. -/
def places (directory target : Path) (ending : String) : List Path :=
  if target.IsAbove directory then [target, target.join ⟨"index" ++ ending⟩]
  else [target, ⟨target.text ++ ending⟩, target.join ⟨"index" ++ ending⟩]

/-- The places that a reference can mean are paths of locations. -/
theorem exists_location_of_mem_places {directory place : Path} {target : List String}
    {ending : String} (isEnding : IsEnding ending) (areTarget : AreNames target)
    (inside : place ∈ places directory (Location.path target) ending) :
    ∃ names, AreNames names ∧ place = Location.path names := by
  have index : ∃ names, AreNames names ∧
      (Location.path target).join ⟨"index" ++ ending⟩ = Location.path names := by
    have isName := isEnding.append (by decide : "index" ≠ "") (by decide)
    exact ⟨_, areTarget.append (.singleton isName), Location.join_path areTarget isName⟩
  have ended : ∃ names, AreNames names ∧
      (⟨(Location.path target).text ++ ending⟩ : Path) = Location.path names := by
    rcases List.eq_nil_or_concat target with rfl | ⟨outer, last, rfl⟩
    · exact ⟨[ending], .singleton isEnding.isName, rfl⟩
    · rw [List.concat_eq_append] at areTarget ⊢
      have isLast := areTarget last (by simp)
      exact ⟨_, areTarget.left.append (.singleton (isEnding.append isLast.ne_empty isLast.noSlash)),
        Location.path_append_text ..⟩
  unfold places at inside
  split at inside
  · simp only [List.mem_cons, List.not_mem_nil, or_false] at inside
    rcases inside with rfl | rfl
    · exact ⟨target, areTarget, rfl⟩
    · exact index
  · simp only [List.mem_cons, List.not_mem_nil, or_false] at inside
    rcases inside with rfl | rfl | rfl
    · exact ⟨target, areTarget, rfl⟩
    · exact ended
    · exact index

namespace Path

/-- A reference that goes down, with an ending, leads to the target with the ending. -/
theorem normalize_join_down {source target lead down : List String} {ending : String}
    (reference : Reference source target lead down) (areSource : AreNames source)
    (areTarget : AreNames target) (isEnding : IsEnding ending) (filled : down ≠ []) :
    ((Location.path source).join ⟨way (lead ++ down) ++ ending⟩).normalize =
      ⟨(Location.path target).text ++ ending⟩ := by
  rcases reference.end_cases with ⟨rfl, -⟩ | ⟨rfl, rfl, rfl, rfl⟩ | ⟨outer, inner, last, rfl, rfl⟩
  · exact absurd rfl filled
  · exact normalize_join_top isEnding
  · obtain ⟨outer', same, leads⟩ := normalize_join_last reference
      (areTarget last (by simp)).ne_empty areSource areTarget isEnding
    rw [leads, same, Location.path_append_text]

end Path

namespace Snapshot

variable {host : Host} {config : Config} {snapshot : Snapshot}

/-- The path of a location is in a set of tracked files when it is that of one. -/
theorem Taken.contains_iff (taken : Taken host config {} snapshot) (named : host.tree.Named)
    (role : FileRole) {names : List String} (areNames : AreNames names) :
    (snapshot.tracked role).paths.contains (Location.path names) = true ↔
      Location.path names ∈ (snapshot.tracked role).files.map Prod.fst := by
  obtain ⟨output, areOutput, output_eq⟩ := exists_outputDirectory host config
  rw [(snapshot.tracked role).paths_eq_ofList, PathSet.contains_ofList]
  constructor
  · rintro ⟨known, inside, same⟩
    obtain ⟨pair, member, rfl⟩ := List.mem_map.1 inside
    obtain ⟨rest, isTracked⟩ := taken.isTracked named areOutput output_eq member
    rw [isTracked.path] at same inside
    rwa [Location.path_inj isTracked.areNames areNames same] at inside
  · intro inside
    exact ⟨_, inside, rfl⟩

/-- No tracked file has a hidden name. -/
theorem Taken.contains_hidden (taken : Taken host config {} snapshot) (named : host.tree.Named)
    (role : FileRole) {outer : List String} {name : String} (areNames : AreNames (outer ++ [name]))
    (isHidden : isHiddenName name = true) :
    (snapshot.tracked role).paths.contains (Location.path (outer ++ [name])) = false := by
  rw [Bool.eq_false_iff, ne_eq, taken.contains_iff named role areNames]
  intro inside
  obtain ⟨output, areOutput, output_eq⟩ := exists_outputDirectory host config
  obtain ⟨pair, member, same⟩ := List.mem_map.1 inside
  obtain ⟨rest, isTracked⟩ := taken.isTracked named areOutput output_eq member
  rw [isTracked.path] at same
  have located := Location.path_inj isTracked.areNames areNames (congrArg Path.components same)
  exact isTracked.areVisible.not_isHidden isTracked.ne_nil output ⟨outer, name, located, isHidden⟩

/-- Trying candidates finds the first of the places that they lead to. -/
theorem probe_leads (directory : Path) (candidates : List String) (known : PathSet) :
    (Specifier.probe directory candidates known).map
        (fun candidate => (directory.join (.ofText candidate)).normalize) =
      (candidates.map fun candidate => (directory.join (.ofText candidate)).normalize).find?
        known.contains := by
  rw [Specifier.probe, List.find?_map]
  rfl

/-- The candidates of a reference are tried at the places that it can mean. -/
theorem Taken.probe_candidates (taken : Taken host config {} snapshot) (named : host.tree.Named)
    (role : FileRole) {source target : List String} (areSource : AreNames source)
    (areTarget : AreNames target)
    (unicode : (Location.path source).HasUnicodeReference (Location.path target)) :
    (Specifier.probe (Location.path source)
        (Specifier.candidates ((Location.path source).relative (Location.path target))
          (Location.path target) (snapshot.ending role)) (snapshot.tracked role).paths).map
        (fun candidate => ((Location.path source).join (.ofText candidate)).normalize) =
      (places (Location.path source) (Location.path target) (snapshot.ending role)).find?
        (snapshot.tracked role).paths.contains := by
  have isEnding := isEnding_ending taken.layout_eq role
  generalize snapshot.ending role = ending at isEnding ⊢
  obtain ⟨lead, down, reference, enters, candidates⟩ := Path.exists_reference areSource areTarget
  have shown := reference.ofText_shownWay
  rw [unicode.map_seen areSource areTarget enters] at shown
  have above := reference.eq_nil_iff enters
  have straight := Path.normalize_join_target reference areSource areTarget
  have index := Path.normalize_join_index reference areSource areTarget isEnding
  rw [← Location.join_path areTarget (isEnding.append (by decide) (by decide))] at index
  rw [← Location.isAbove_path areTarget areSource] at above
  rw [probe_leads, candidates, List.map_cons, List.map_cons, List.map_singleton]
  simp only [Path.ofText, Name.ofText_append, shown, isEnding.plain.ofText,
    show Name.ofText "/index" = "/index" by decide]
  rw [straight, index, places]
  -- Where the target lies above, an ending is put behind `..`, which names a hidden file that no
  -- listing has.
  by_cases climbs : down = []
  · rw [if_pos (above.1 climbs)]
    subst climbs
    obtain ⟨outer, name, isHidden, areNames, leads⟩ :=
      Path.normalize_join_up reference areSource isEnding
    have passed := taken.contains_hidden named role areNames isHidden
    rw [leads, List.find?_cons, List.find?_cons_of_neg (by simp [passed]), ← List.find?_cons]
  · rw [if_neg fun isAbove => climbs (above.2 isAbove),
      Path.normalize_join_down reference areSource areTarget isEnding climbs]

/-- A local specifier is reported unresolved when it is not resolved. -/
theorem relinkSpecifier_unresolved_iff (layout_eq : snapshot.layout = {}) (role : FileRole)
    (file : Path) {specifier : String} (isLocal : (Specifier.classify {} specifier).isLocal = true)
    (open_ : Text.endsWith specifier ".js" = false) :
    snapshot.relinkSpecifier role file specifier = .reported .unresolved ↔
      snapshot.resolve? role file specifier = none := by
  unfold relinkSpecifier relinkLocal
  rw [layout_eq, if_pos isLocal, if_neg (by rw [open_]; decide)]
  cases snapshot.resolve? role file specifier with
  | none => simp
  | some resolution =>
    dsimp only
    split <;> simp

/-- A local specifier that has no ending is reported unresolved exactly when no tracked file lies
at one of the places that it can mean, and it is resolved to the first of them where one lies, if a
reference to what it refers to shows every name as it is. -/
theorem relinkSpecifier_complete (taken : take host config {} = .ok snapshot)
    (named : host.tree.Named) {tracked : FileRole} {file : Path} {text : String}
    (member : (file, text) ∈ (snapshot.tracked tracked).files) :
    ∃ directory, file.parent? = some directory ∧ ∀ role specifier,
      (Specifier.classify {} specifier).isLocal = true ->
      Text.endsWith specifier ".js" = false ->
      ∃ target, Refers snapshot directory specifier target ∧
        (directory.HasUnicodeReference target ->
          (snapshot.relinkSpecifier role file specifier = .reported .unresolved ↔
            ∀ place ∈ places directory target (snapshot.ending role),
              place ∉ (snapshot.tracked role).files.map Prod.fst) ∧
          (snapshot.resolve? role file specifier).map
              (fun resolution => (directory.join (.ofText resolution.candidate)).normalize) =
            (places directory target (snapshot.ending role)).find?
              (· ∈ (snapshot.tracked role).files.map Prod.fst)) := by
  replace taken := take_eq_ok_iff.1 taken
  obtain ⟨output, areOutput, output_eq⟩ := exists_outputDirectory host config
  obtain ⟨rest, isTracked⟩ := taken.isTracked named areOutput output_eq member
  obtain ⟨source, name, -, areSource, parent⟩ := isTracked.exists_directory
  refine ⟨_, parent, fun role specifier isLocal open_ => ?_⟩
  have refers := @refers_targetOf snapshot taken.layout_eq (Location.path source) specifier
    (by rw [taken.layout_eq]; exact isLocal)
  obtain ⟨target, areTarget, target_eq⟩ := refers.exists_location taken
  refine ⟨_, refers, fun unicode => ?_⟩
  rw [target_eq] at unicode ⊢
  -- The probe goes through the same places in the same order.
  have resolved : (snapshot.resolve? role file specifier).map
      (fun resolution =>
        ((Location.path source).join (.ofText resolution.candidate)).normalize) =
        (places (Location.path source) (Location.path target) (snapshot.ending role)).find?
          (· ∈ (snapshot.tracked role).files.map Prod.fst) := by
    have found := taken.probe_candidates named role areSource areTarget unicode
    rw [resolve?, parent]
    dsimp only
    rw [target_eq, Option.map_map, Function.comp_def]
    dsimp only
    rw [found]
    refine List.find?_congr fun place inside => ?_
    obtain ⟨names, areNames, rfl⟩ := exists_location_of_mem_places
      (isEnding_ending taken.layout_eq role) areTarget inside
    rw [Bool.eq_iff_iff, taken.contains_iff named role areNames, decide_eq_true_iff]
  refine ⟨?_, resolved⟩
  rw [relinkSpecifier_unresolved_iff taken.layout_eq role file isLocal open_,
    ← Option.map_eq_none_iff, resolved, List.find?_eq_none]
  simp

/-! ## A module above its directory -/

/-- A package in which a module lies beside a directory of the same name. -/
def climbingPackage : Host where
  tree := ⟨[(["p"], .directory),
    (["p", "package.json"], .file "\x7b\"main\":\"dist/index.js\"\x7d".toByteArray false),
    (["p", "dist"], .directory),
    (["p", "dist", "lib"], .directory),
    (["p", "dist", "lib", "deep"], .directory),
    (["p", "dist", "lib", "deep", "x.js"], .file "".toByteArray false),
    (["p", "dist", "lib.js"], .file "".toByteArray false)]⟩
  directory := ["p"]

/-- What a pass knows of the package. -/
def climbingSnapshot : Snapshot where
  root := ⟨"/p/dist"⟩
  layout := {}
  manifest := { entry := some "dist/index.js" }
  files := [⟨"/p/dist/lib/deep/x.js"⟩, ⟨"/p/dist/lib.js"⟩]
  scripts := .ofFiles [(⟨"/p/dist/lib/deep/x.js"⟩, ""), (⟨"/p/dist/lib.js"⟩, "")]
  declarations := .ofFiles []

theorem climbingPackage_visibleChildren :
    climbingPackage.tree.visibleChildren ["p", "dist"] = ["lib", "lib.js"] ∧
      climbingPackage.tree.visibleChildren ["p", "dist", "lib"] = ["deep"] ∧
      climbingPackage.tree.visibleChildren ["p", "dist", "lib", "deep"] = ["x.js"] := by
  refine ⟨?_, ?_, ?_⟩
  · exact Tree.visibleChildren_of_sorted (by decide) (by decide) (by decide)
  · exact Tree.visibleChildren_of_sorted (by decide) (by decide) (by decide)
  · exact Tree.visibleChildren_of_sorted (by decide) (by decide) (by decide)

theorem climbingPackage_visibleBelow :
    climbingPackage.tree.visibleBelow (61 + 1 + 1 + 1) ⟨"/p/dist"⟩ ["p", "dist"] =
      climbingSnapshot.files := by
  obtain ⟨outer, inner, innermost⟩ := climbingPackage_visibleChildren
  have deep : climbingPackage.tree.visibleBelow (61 + 1) ⟨"/p/dist/lib/deep"⟩
      ["p", "dist", "lib", "deep"] = [⟨"/p/dist/lib/deep/x.js"⟩] := by
    rw [Tree.visibleBelow, innermost]
    decide
  have lib : climbingPackage.tree.visibleBelow (61 + 1 + 1) ⟨"/p/dist/lib"⟩
      ["p", "dist", "lib"] = [⟨"/p/dist/lib/deep/x.js"⟩] := by
    rw [Tree.visibleBelow, inner, List.flatMap_singleton, if_pos (by decide),
      show (⟨"/p/dist/lib"⟩ : Path).join ⟨"deep"⟩ = ⟨"/p/dist/lib/deep"⟩ by decide]
    exact deep
  rw [Tree.visibleBelow, outer, List.flatMap_cons, List.flatMap_singleton,
    if_pos (by decide), if_neg (by decide),
    show (⟨"/p/dist"⟩ : Path).join ⟨"lib"⟩ = ⟨"/p/dist/lib"⟩ by decide]
  refine (congrArg (· ++ _) lib).trans ?_
  decide

theorem climbingPackage_take : take climbingPackage sampleConfig {} = .ok climbingSnapshot := by
  have found : climbingPackage.tree.status ["p"] ⟨"/p/dist"⟩ = .ok (["p", "dist"], .directory) := by
    decide
  have free : climbingPackage.tree.LinkFree ["p", "dist"] :=
    Tree.linkFree_of_entries (by simp [climbingPackage]) _
  have listed : climbingPackage.visibleFiles ⟨"/p/dist"⟩ = .ok climbingSnapshot.files := by
    refine (free.list found).trans ?_
    rw [show climbingPackage.tree.listingDepth = 61 + 1 + 1 + 1 by decide,
      climbingPackage_visibleBelow]
  have manifest : climbingPackage.readText ⟨"/p/package.json"⟩ =
      .ok "\x7b\"main\":\"dist/index.js\"\x7d" :=
    @readText_of_status _ _ ["p", "package.json"] _ false (by decide)
  have deep : climbingPackage.readText ⟨"/p/dist/lib/deep/x.js"⟩ = .ok "" :=
    @readText_of_status _ _ ["p", "dist", "lib", "deep", "x.js"] _ false (by decide)
  have lib : climbingPackage.readText ⟨"/p/dist/lib.js"⟩ = .ok "" :=
    @readText_of_status _ _ ["p", "dist", "lib.js"] _ false (by decide)
  refine take_of_visibleFiles rfl rfl found manifest (by decide) rfl (by decide)
    listed fun role => ?_
  cases role with
  | script =>
    rw [show climbingSnapshot.files.filter _ = _ from
      (by decide : _ = [⟨"/p/dist/lib/deep/x.js"⟩, ⟨"/p/dist/lib.js"⟩])]
    exact .cons ⟨rfl, deep⟩ (.cons ⟨rfl, lib⟩ .nil)
  | declaration =>
    rw [show climbingSnapshot.files.filter _ = _ from (by decide : _ = [])]
    exact .nil

/-- A script two directories below a module's directory cannot refer to the module: the reference
is reported unresolved, although the module is tracked. -/
theorem relinkSpecifier_climb :
    ∃ host config snapshot, take host config {} = .ok snapshot ∧ host.tree.Named ∧
      ∃ file text directory specifier target, (file, text) ∈ snapshot.scripts.files ∧
        file.parent? = some directory ∧ Refers snapshot directory specifier target ∧
        Text.endsWith specifier ".js" = false ∧
        ⟨target.text ++ ".js"⟩ ∈ snapshot.scripts.files.map Prod.fst ∧
        snapshot.relinkSpecifier .script file specifier = .reported .unresolved := by
  refine ⟨climbingPackage, sampleConfig, climbingSnapshot, climbingPackage_take,
    by decide, ⟨"/p/dist/lib/deep/x.js"⟩, "", ⟨"/p/dist/lib/deep"⟩, "../../lib", _,
    by decide, by decide, .relative (by decide), by decide,
    by decide, by decide⟩

/-- In the small package, one script refers to the other one without an ending, and a reference to
a file that is not there is unresolved. -/
theorem relinkSpecifier_complete_samplePackage :
    take samplePackage sampleConfig {} = .ok sampleSnapshot ∧
      ∃ directory target, Refers sampleSnapshot directory "./b" target ∧
        (sampleSnapshot.relinkSpecifier .script ⟨"/p/dist/index.js"⟩ "./b" =
            .reported .unresolved ↔
          ∀ place ∈ places directory target ".js",
            place ∉ sampleSnapshot.scripts.files.map Prod.fst) ∧
        (sampleSnapshot.resolve? .script ⟨"/p/dist/index.js"⟩ "./b").map
            (fun resolution => (directory.join (.ofText resolution.candidate)).normalize) =
          (places directory target ".js").find?
            (· ∈ sampleSnapshot.scripts.files.map Prod.fst) := by
  obtain ⟨directory, parent, complete⟩ := @relinkSpecifier_complete samplePackage sampleConfig
    sampleSnapshot samplePackage_take samplePackage_named .script ⟨"/p/dist/index.js"⟩
    "import './b';" (by decide)
  obtain rfl : directory = ⟨"/p/dist"⟩ := Option.some.inj (parent.symm.trans (by decide))
  obtain ⟨target, refers, outcome⟩ := complete .script "./b" (by decide) (by decide)
  obtain rfl : _ = target := refers.targetOf_eq rfl
  exact ⟨samplePackage_take, _, _, refers, outcome ⟨by decide, by decide⟩⟩

end Snapshot
end Relink
