import Relink.Proofs.Resolution

/-!
# Where aliased specifiers lead

An aliased specifier is read from the directory of the entry module. For an entry that names
something below the package, that directory is the package or lies below it, and so does whatever
an aliased specifier refers to. An entry that names the package itself is taken for the name of a
module in the directory above, and every alias is read from there.
-/

namespace Relink

theorem exists_names_of_parts {text : String} (descends : .parent ∉ parts text) :
    ∃ names, AreNames names ∧ parts text = names.map .name := by
  have named : ∀ component ∈ parts text, ∃ name, IsName name ∧ .name name = component := by
    intro component member
    rcases of_mem_parts member with rfl | ⟨name, rfl, isName⟩
    · exact absurd member descends
    · exact ⟨name, isName, rfl⟩
  generalize parts text = components at named
  induction components with
  | nil => exact ⟨[], .nil, rfl⟩
  | cons component components ih =>
    obtain ⟨name, isName, rfl⟩ := named component List.mem_cons_self
    obtain ⟨names, areNames, rfl⟩ := ih fun other member =>
      named other (List.mem_cons_of_mem _ member)
    exact ⟨name :: names, (AreNames.singleton isName).append areNames, rfl⟩

/-- A slash after a point means nothing. -/
theorem parts_point (rest : String) :
    parts (Name.ofText ("." ++ ("/" ++ rest))) = parts (Name.ofText rest) := by
  rw [← String.append_assoc, Name.ofText_append, show Name.ofText ("." ++ "/") = "." ++ "/" by decide,
    Path.parts_append]
  rfl

namespace Location

variable {names base : List String}

theorem startsWith_path (areNames : AreNames names) (areBase : AreNames base) :
    (path names).startsWith (path base) = true ↔ base <+: names := by
  rw [Path.startsWith, components_path areNames, components_path areBase,
    List.isPrefixOf_iff_prefix, List.prefix_cons_inj]
  exact List.prefix_map_iff_of_injective fun _ _ => Component.name.inj

theorem parent?_eq_none_iff (areNames : AreNames names) :
    (path names).parent? = none ↔ names = [] := by
  rcases List.eq_nil_or_concat names with rfl | ⟨outer, last, rfl⟩
  · exact iff_of_true rfl rfl
  · rw [List.concat_eq_append] at areNames ⊢
    rw [parent?_path areNames]
    simp

theorem fileName?_eq (areNames : AreNames names) : (path names).fileName? = names.getLast? := by
  rcases List.eq_nil_or_concat names with rfl | ⟨outer, last, rfl⟩
  · rfl
  · rw [List.concat_eq_append] at areNames ⊢
    rw [fileName?_path areNames, List.getLast?_concat]

end Location

/-- What leads down from the directory that holds an entry leads below the directory that the entry
is read from, unless the entry is that directory itself. Then only the name of the directory leads
back into it. -/
theorem prefix_dropLast_append (names later more : List String) :
    names <+: (names ++ later).dropLast ++ more ↔
      later ≠ [] ∨ names = [] ∨ ∃ name, names.getLast? = some name ∧ more.head? = some name := by
  by_cases filled : later = []
  · subst filled
    rcases List.eq_nil_or_concat names with rfl | ⟨outer, last, rfl⟩
    · simp
    · rw [List.concat_eq_append, List.append_nil, List.dropLast_concat, List.prefix_append_right_inj,
        List.getLast?_concat]
      have first : [last] <+: more ↔ more.head? = some last := by
        rw [List.head?_eq_some_iff]
        exact exists_congr fun _ => eq_comm
      simp [first]
  · rw [List.dropLast_append_of_ne_nil filled, List.append_assoc]
    exact iff_of_true (List.prefix_append ..) (.inl filled)

namespace Snapshot

/-- The root that an entry below a directory gives: the directory that holds the entry, or, if the
entry is the directory itself, the one above. -/
theorem rootOf_path {names later : List String} {entry : String} (areNames : AreNames names)
    (areLater : AreNames later) (isRelative : Path.IsRelative (Name.ofText entry))
    (below : parts (Name.ofText entry) = later.map .name) :
    rootOf (Location.path names) entry = Location.path (names ++ later).dropLast := by
  rw [rootOf, Path.ofText, Path.normalize_join areNames isRelative, below, Path.follow_names]
  rcases List.eq_nil_or_concat (names ++ later) with empty | ⟨outer, last, shape⟩
  · rw [empty, (List.append_eq_nil_iff.1 empty).1]
    rfl
  · have areBoth := areNames.append areLater
    rw [shape, List.concat_eq_append] at areBoth
    rw [shape, List.concat_eq_append, Location.parent?_path areBoth, List.dropLast_concat]
    rfl

/-- What an aliased specifier refers to, read from the root. -/
theorem targetOf_aliased {snapshot : Snapshot} {root later : List String}
    (layout_eq : snapshot.layout = {}) (areRoot : AreNames root)
    (rooted : snapshot.root = Location.path root) (directory : Path) {rest : String}
    (below : parts (Name.ofText rest) = later.map .name) :
    Specifier.classify snapshot.layout ("~/" ++ rest) = .aliased ∧
      snapshot.targetOf directory ("~/" ++ rest) = Location.path (root ++ later) := by
  have written : ("~/" ++ rest).toList = '~' :: '/' :: rest.toList := String.toList_append
  have aliased : Specifier.classify {} ("~/" ++ rest) = .aliased := by
    simp [Specifier.classify, Text.startsWith, written]
  have after : Text.after? ("~/" ++ rest) "~" = some ("/" ++ rest) := by
    rw [Text.after?, Text.startsWith, written]
    simp
  refine ⟨layout_eq ▸ aliased, ?_⟩
  rw [targetOf, layout_eq, aliased]
  dsimp only
  rw [after, Option.getD_some, rooted, Path.ofText, Path.normalize_join areRoot, parts_point, below,
    Path.follow_names]
  exact Path.isRelative_ofText (by simp [Text.startsWith])

variable {host : Host} {config : Config} {snapshot : Snapshot}

/-- The root of a package whose entry leads nowhere up is the package's directory or lies below it,
exactly if the entry names something or the directory is the top of the tree. What an aliased
specifier that leads nowhere up refers to lies there as well then, and otherwise only if the
specifier begins with the directory's own name. -/
theorem aliased_startsWith_iff (taken : take host config {} = .ok snapshot) {entry : String}
    (entered : snapshot.manifest.entry = some entry)
    (isRelative : Path.IsRelative (Name.ofText entry))
    (descends : .parent ∉ parts (Name.ofText entry)) :
    let directory := host.absolutize config.directory
    (snapshot.root.startsWith directory = true ↔
        parts (Name.ofText entry) ≠ [] ∨ directory.parent? = none) ∧
      ∀ (base : Path) (rest : String), .parent ∉ parts (Name.ofText rest) ->
        Specifier.classify snapshot.layout ("~/" ++ rest) = .aliased ∧
          ((snapshot.targetOf base ("~/" ++ rest)).startsWith directory = true ↔
            parts (Name.ofText entry) ≠ [] ∨ directory.parent? = none ∨
              ∃ name, directory.fileName? = some name ∧
                (parts (Name.ofText rest)).head? = some (.name name)) := by
  intro directory
  have taken := take_eq_ok_iff.1 taken
  obtain ⟨names, areNames, shape⟩ := exists_absolutize host config.directory
  obtain ⟨later, areLater, below⟩ := exists_names_of_parts descends
  have rooted : snapshot.root = Location.path (names ++ later).dropLast := by
    obtain ⟨entry', entered', rooted⟩ := taken.entry
    obtain rfl := Option.some.inj (entered.symm.trans entered')
    rw [rooted, shape, rootOf_path areNames areLater isRelative below]
  have areRoot : AreNames (names ++ later).dropLast := fun name member =>
    areNames.append areLater name (List.dropLast_subset _ member)
  -- The root is the directory of the entry: one name shorter than where the entry leads.
  have stays {more : List String} (areMore : AreNames more) :
      (Location.path ((names ++ later).dropLast ++ more)).startsWith directory = true ↔
        parts (Name.ofText entry) ≠ [] ∨ directory.parent? = none ∨
          ∃ name, directory.fileName? = some name ∧ more.head? = some name := by
    have filled : parts (Name.ofText entry) ≠ [] ↔ later ≠ [] := by simp [below]
    rw [show directory = _ from shape, Location.startsWith_path (areRoot.append areMore) areNames,
      Location.parent?_eq_none_iff areNames, Location.fileName?_eq areNames, filled]
    exact prefix_dropLast_append names later more
  refine ⟨?_, fun base rest descends => ?_⟩
  · have here := stays .nil
    rw [List.append_nil] at here
    rw [rooted, here]
    simp
  · obtain ⟨more, areMore, below⟩ := exists_names_of_parts descends
    obtain ⟨aliased, target⟩ := targetOf_aliased taken.layout_eq areRoot rooted base below
    refine ⟨aliased, ?_⟩
    rw [target, stays areMore, below, List.head?_map]
    simp

/-- The entry of the small package names a module below its directory. -/
theorem aliased_startsWith_iff_samplePackage :
    take samplePackage sampleConfig {} = .ok sampleSnapshot ∧
      samplePackage.absolutize sampleConfig.directory = ⟨"/p"⟩ ∧
      Path.IsRelative (Name.ofText "dist/index.js") ∧
      .parent ∉ parts (Name.ofText "dist/index.js") ∧ .parent ∉ parts (Name.ofText "b") ∧
      sampleSnapshot.root.startsWith ⟨"/p"⟩ = true ∧
      (sampleSnapshot.targetOf ⟨"/p/dist"⟩ ("~/" ++ "b")).startsWith ⟨"/p"⟩ = true := by
  have directory : samplePackage.absolutize sampleConfig.directory = ⟨"/p"⟩ := by decide
  have isRelative : Path.IsRelative (Name.ofText "dist/index.js") := rfl
  have descends : .parent ∉ parts (Name.ofText "dist/index.js") := by decide
  have below : .parent ∉ parts (Name.ofText "b") := by decide
  obtain ⟨rooted, aliased⟩ := aliased_startsWith_iff samplePackage_take rfl isRelative descends
  rw [directory] at rooted aliased
  exact ⟨samplePackage_take, directory, isRelative, descends, below, rooted.2 (.inl (by decide)),
    (aliased ⟨"/p/dist"⟩ "b" below).2.2 (.inl (by decide))⟩

/-! ## A package that is its own entry -/

/-- A package whose entry is its directory. -/
def selfPackage : Host where
  tree := ⟨[(["p"], .directory),
    (["p", "package.json"], .file "\x7b\"main\":\".\"\x7d".toByteArray false),
    (["p", "dist"], .directory),
    (["p", "dist", "b.d.ts"], .file "".toByteArray false),
    (["p", "dist", "b.js"], .file "".toByteArray false),
    (["p", "dist", "x.js"], .file "import '~/dist/b';".toByteArray false)]⟩
  directory := ["p"]

/-- What a pass knows of the package. -/
def selfSnapshot : Snapshot where
  root := ⟨"/"⟩
  layout := {}
  manifest := { entry := some "." }
  files := [⟨"/p/dist/b.d.ts"⟩, ⟨"/p/dist/b.js"⟩, ⟨"/p/dist/x.js"⟩]
  scripts := .ofFiles [(⟨"/p/dist/b.js"⟩, ""), (⟨"/p/dist/x.js"⟩, "import '~/dist/b';")]
  declarations := .ofFiles [(⟨"/p/dist/b.d.ts"⟩, "")]

theorem selfPackage_take : take selfPackage sampleConfig {} = .ok selfSnapshot := by
  have found : selfPackage.tree.status ["p"] ⟨"/p/dist"⟩ = .ok (["p", "dist"], .directory) := by
    decide
  have children : selfPackage.tree.children ["p", "dist"] = ["b.d.ts", "b.js", "x.js"] := by
    rw [Tree.children, show selfPackage.tree.entries.filterMap _ = _ from
      (by decide : _ = ["b.d.ts", "b.js", "x.js"])]
    exact List.mergeSort_of_pairwise (by decide)
  have manifest : selfPackage.readText ⟨"/p/package.json"⟩ = .ok "\x7b\"main\":\".\"\x7d" :=
    @readText_of_status _ _ ["p", "package.json"] _ false (by decide)
  have declaration : selfPackage.readText ⟨"/p/dist/b.d.ts"⟩ = .ok "" :=
    @readText_of_status _ _ ["p", "dist", "b.d.ts"] _ false (by decide)
  have first : selfPackage.readText ⟨"/p/dist/b.js"⟩ = .ok "" :=
    @readText_of_status _ _ ["p", "dist", "b.js"] _ false (by decide)
  have second : selfPackage.readText ⟨"/p/dist/x.js"⟩ = .ok "import '~/dist/b';" :=
    @readText_of_status _ _ ["p", "dist", "x.js"] _ false (by decide)
  refine take_of_visibleFiles rfl rfl found manifest (by decide) rfl (by decide)
    (visibleFiles_of_children rfl found children (by decide : _ = 48 + 1)
      (by decide)) fun role => ?_
  cases role with
  | script =>
    rw [show selfSnapshot.files.filter _ = _ from
      (by decide : _ = [⟨"/p/dist/b.js"⟩, ⟨"/p/dist/x.js"⟩])]
    exact .cons ⟨rfl, first⟩ (.cons ⟨rfl, second⟩ .nil)
  | declaration =>
    rw [show selfSnapshot.files.filter _ = _ from (by decide : _ = [⟨"/p/dist/b.d.ts"⟩])]
    exact .cons ⟨rfl, declaration⟩ .nil

/-- The aliases of a package that is its own entry are read from the directory above: they lead out
of the package, and are unresolved. -/
theorem aliased_leaves :
    take selfPackage sampleConfig {} = .ok selfSnapshot ∧
      selfSnapshot.manifest.entry = some "." ∧ Path.IsRelative (Name.ofText ".") ∧
      .parent ∉ parts (Name.ofText ".") ∧
      selfPackage.absolutize sampleConfig.directory = ⟨"/p"⟩ ∧
      selfSnapshot.root = ⟨"/"⟩ ∧ selfSnapshot.root.startsWith ⟨"/p"⟩ = false ∧
      .parent ∉ parts (Name.ofText "dist/b") ∧
      (selfSnapshot.targetOf ⟨"/p/dist"⟩ "~/dist/b").startsWith ⟨"/p"⟩ = false ∧
      selfSnapshot.relinkSpecifier .script ⟨"/p/dist/x.js"⟩ "~/dist/b" = .reported .unresolved :=
  ⟨selfPackage_take, rfl, rfl, by decide, by decide, rfl, by decide, by decide,
    by decide, by decide⟩

end Snapshot
end Relink
