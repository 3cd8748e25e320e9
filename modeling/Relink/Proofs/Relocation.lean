import Relink.Proofs.Resolution

/-!
# Replacements in a package that is moved

A replacement goes up no further than the directory of the package, so that it leads to the same
file wherever the package is put. There is one exception. A directory is referred to through its
parent, by its own name, so that a reference of the package's directory to itself leaves the
package. It is tied to the name of the directory.
-/

namespace Relink

namespace Path

/-- Whether components can be followed one by one from a place inside a directory without leaving
the directory. The place is told by the names that lead to it from there. -/
def Stays : List String -> List Component -> Prop
  | _, [] => True
  | inner, step :: rest => (step = .parent -> inner ≠ []) ∧ Stays (follow inner step) rest

instance : (inner : List String) -> (steps : List Component) -> Decidable (Stays inner steps)
  | _, [] => isTrue trivial
  | inner, step :: rest =>
    have := instDecidableStays (follow inner step) rest
    inferInstanceAs (Decidable ((step = .parent -> inner ≠ []) ∧ Stays (follow inner step) rest))

theorem stays_cons_iff {inner : List String} {step : Component} {rest : List Component} :
    Stays inner (step :: rest) ↔ (step = .parent -> inner ≠ []) ∧ Stays (follow inner step) rest :=
  Iff.rfl

/-- What stays in a directory leads to the same place in it, wherever the directory is. -/
theorem Stays.foldl_follow {inner : List String} {steps : List Component}
    (stays : Stays inner steps) (base : List String) :
    steps.foldl follow (base ++ inner) = base ++ steps.foldl follow inner := by
  induction steps generalizing inner with
  | nil => rfl
  | cons step rest ih =>
    obtain ⟨climbs, later⟩ := stays
    rw [List.foldl_cons, List.foldl_cons, ← ih later]
    congr 1
    cases step with
    | parent => exact List.dropLast_append_of_ne_nil (climbs rfl)
    | name name => exact List.append_assoc ..
    | root => rfl
    | current => rfl

/-- Names lead further inside. -/
theorem stays_names (inner names : List String) : Stays inner (names.map .name) := by
  induction names generalizing inner with
  | nil => trivial
  | cons name names ih => exact ⟨fun up => (by cases up), ih _⟩

/-- As many `..` stay inside as there are names to leave. -/
theorem stays_parents_iff {inner : List String} {count : Nat} {names : List String} :
    Stays inner (List.replicate count .parent ++ names.map .name) ↔ count ≤ inner.length := by
  induction count generalizing inner with
  | zero =>
    rw [List.replicate_zero, List.nil_append]
    exact iff_of_true (stays_names inner names) (Nat.zero_le _)
  | succ count ih =>
    rw [List.replicate_succ, List.cons_append, stays_cons_iff, follow, ih, List.length_dropLast,
      ← List.length_pos_iff]
    constructor
    · rintro ⟨climbs, further⟩
      have := climbs rfl
      omega
    · intro enough
      exact ⟨fun _ => by omega, by omega⟩

/-- A reference between two places in a directory stays in it exactly if it enters no more names
than lead to the target from there. -/
theorem stays_reference_iff {base inner goal lead down later : List String}
    (reference : Reference (base ++ inner) (base ++ goal) lead down)
    (areTarget : AreNames (base ++ goal)) (areLater : AreNames later) :
    Stays inner (parts (way (lead ++ down ++ later))) ↔ down.length ≤ goal.length := by
  rcases parts_reference reference areTarget areLater with
    ⟨common, climbed, source_eq, target_eq, shape⟩ | ⟨source_eq, target_eq, rfl, shape⟩
  · have before := congrArg List.length source_eq
    have after := congrArg List.length target_eq
    rw [List.length_append, List.length_append] at before after
    rw [shape, stays_parents_iff]
    omega
  · obtain ⟨rfl, rfl⟩ := List.append_eq_nil_iff.1 source_eq
    obtain ⟨-, rfl⟩ := List.append_eq_nil_iff.1 target_eq
    rw [shape, stays_cons_iff]
    simp

/-- What stays in a directory leads to the corresponding place in every copy of it. -/
theorem Stays.normalize_join {base inner reached : List String} {text : String}
    (stays : Stays inner (parts text)) (isRelative : IsRelative text)
    (areSource : AreNames (base ++ inner)) (areReached : AreNames (base ++ reached))
    (leads : ((Location.path (base ++ inner)).join ⟨text⟩).normalize =
      Location.path (base ++ reached)) {copy : List String} (areCopy : AreNames copy) :
    ((Location.path (copy ++ inner)).join ⟨text⟩).normalize = Location.path (copy ++ reached) := by
  have isPart : ∀ component ∈ parts text,
      component = .parent ∨ ∃ name, component = .name name ∧ IsName name :=
    fun _ member => of_mem_parts member
  rw [Path.normalize_join areSource isRelative] at leads
  have same := Location.path_inj (areNames_follow areSource isPart) areReached
    (congrArg Path.components leads)
  rw [stays.foldl_follow, List.append_right_inj] at same
  rw [Path.normalize_join (areCopy.append areSource.right) isRelative, stays.foldl_follow, same]

end Path

/-- A reference enters more names than lead to the target only from a directory to itself. -/
theorem Enters.length_le_iff {base inner goal down : List String}
    (enters : Enters (base ++ inner) (base ++ goal) down) :
    down.length ≤ goal.length ↔ inner ≠ [] ∨ goal ≠ [] := by
  by_cases same : base ++ goal = base ++ inner
  · rw [enters.itself same, List.length_singleton]
    rw [List.append_right_inj] at same
    rw [same, or_self, ← List.length_pos_iff]
    exact Iff.rfl
  · have shorter := (enters.later same base goal (List.prefix_append ..) rfl).length_le
    refine iff_of_true shorter ?_
    by_contra none_
    push Not at none_
    exact same (by rw [none_.1, none_.2])

/-- A name that a reference ends in is one of the target's, unless the target is the root. -/
theorem Reference.last_ne_empty {source target lead down : List String} {last : String}
    (reference : Reference source target lead (down ++ [last])) (areTarget : AreNames target)
    (filled : target ≠ []) : last ≠ "" := by
  generalize shape : down ++ [last] = names at reference
  cases reference with
  | below _ => exact (areTarget last (by simp [← shape])).ne_empty
  | above _ => exact (areTarget last (by simp [← shape])).ne_empty
  | top => exact absurd rfl filled

namespace Snapshot

variable {snapshot : Snapshot} {role : FileRole} {specifier candidate : String}
  {base inner goal meant lead down file : List String}

/-- The candidate that names a file is read as a reference, perhaps one that goes on to an index. It
enters as many names as the reference to the target does. -/
theorem Resolves.exists_way (layout_eq : snapshot.layout = {})
    (resolves : Resolves snapshot role specifier candidate (base ++ inner) meant (base ++ goal) lead
      down (base ++ file)) :
    ∃ goal' down' later, Reference (base ++ inner) (base ++ goal') lead down' ∧
      Name.ofText candidate = way (lead ++ down' ++ later) ∧ AreNames (base ++ goal') ∧
      AreNames later ∧ goal'.length = goal.length ∧ down'.length = down.length := by
  have isEnding := isEnding_ending layout_eq role
  have shown := resolves.reference.ofText_shownWay
  -- The reference itself, its last name with the ending, or an index in it.
  rcases resolves.cases with ⟨rfl, -⟩ | ⟨rfl, goesDown, outer, last, target_eq, found_eq⟩ | ⟨rfl, -⟩
  · exact ⟨goal, _, [], resolves.seen, by rw [List.append_nil, shown], resolves.areTarget, .nil,
      rfl, List.length_map _⟩
  · obtain ⟨before, final, rfl⟩ := (List.eq_nil_or_concat down).resolve_left goesDown
    have seen := resolves.seen
    rw [List.concat_eq_append, List.map_append, List.map_singleton] at seen shown
    have filled := seen.last_ne_empty resolves.areTarget (by simp [target_eq])
    obtain ⟨outer', target_eq', exchanged⟩ :=
      Path.exchange_last (Name.seen final ++ snapshot.ending role) seen filled
    obtain ⟨rfl, rfl⟩ := List.append_singleton_inj.1 (target_eq'.symm.trans target_eq)
    rw [← found_eq] at exchanged
    refine ⟨file, _, [], exchanged, ?_, resolves.areFound, .nil, ?_, ?_⟩
    · rw [Name.ofText_append, List.concat_eq_append, shown, isEnding.plain.ofText, List.append_nil,
        ← List.append_assoc, ← List.append_assoc, way, way, Text.intercalate_append]
    · have size := congrArg List.length target_eq
      have size' := congrArg List.length found_eq
      rw [List.length_append, List.length_append, List.length_singleton] at size size'
      omega
    · simp
  · have areIndex : AreNames ["index" ++ snapshot.ending role] :=
      .singleton (isEnding.append (by decide) (by decide))
    refine ⟨goal, _, _, resolves.seen, ?_, resolves.areTarget, areIndex, rfl, List.length_map _⟩
    rw [Path.way_index resolves.seen, Name.ofText_append, Name.ofText_append, shown,
      isEnding.plain.ofText]
    rfl

/-- What a replacement leads to: a script is led to the file itself, a declaration to what the
specifier referred to. -/
def reached (role : FileRole) (target found : List String) : List String :=
  match role with
  | .script => found
  | .declaration => target

/-- What a replacement comes to, read part by part from its directory. -/
theorem Resolves.stays_iff (layout_eq : snapshot.layout = {})
    (resolves : Resolves snapshot role specifier candidate (base ++ inner) meant (base ++ goal) lead
      down (base ++ file)) :
    let next := replacement role ⟨candidate, shownWay lead down⟩
    Path.IsRelative (Name.ofText next) ∧
      (Path.Stays inner (parts (Name.ofText next)) ↔ down.length ≤ goal.length) := by
  cases role with
  | script =>
    obtain ⟨goal', down', later, reference, written, areGoal, areLater, size, size'⟩ :=
      resolves.exists_way layout_eq
    dsimp only [replacement]
    rw [← size, ← size', written]
    exact ⟨Path.isRelative_reference reference later,
      Path.stays_reference_iff reference areGoal areLater⟩
  | declaration =>
    have isRelative := Path.isRelative_reference resolves.seen []
    have stays := Path.stays_reference_iff resolves.seen resolves.areTarget .nil
    rw [List.append_nil, ← resolves.reference.ofText_shownWay] at isRelative stays
    rw [List.length_map] at stays
    exact ⟨isRelative, stays⟩

theorem Resolves.normalize_join_replacement {source target found : List String}
    (resolves : Resolves snapshot role specifier candidate source meant target lead down found) :
    ((Location.path source).join (.ofText (replacement role ⟨candidate, shownWay lead down⟩))).normalize =
      Location.path (reached role target found) := by
  cases role with
  | script => exact resolves.leads
  | declaration => exact resolves.leads_bare

/-- Where a reference enters no more names than lead to its target from a directory, it leads to
the corresponding place in every copy of the directory. -/
theorem Resolves.relocates (layout_eq : snapshot.layout = {})
    (resolves : Resolves snapshot role specifier candidate (base ++ inner) meant (base ++ goal) lead
      down (base ++ file)) (enters : down.length ≤ goal.length) {copy : List String}
    (areCopy : AreNames copy) :
    ((Location.path (copy ++ inner)).join
        (.ofText (replacement role ⟨candidate, shownWay lead down⟩))).normalize =
      Location.path (copy ++ reached role goal file) := by
  obtain ⟨isRelative, stays⟩ := resolves.stays_iff layout_eq
  have leads := resolves.normalize_join_replacement
  have same : reached role (base ++ goal) (base ++ file) = base ++ reached role goal file := by
    cases role <;> rfl
  rw [same] at leads
  refine (stays.2 enters).normalize_join isRelative resolves.areSource ?_ leads areCopy
  cases role with
  | script => exact resolves.areFound
  | declaration => exact resolves.areTarget

/-! ## The directory of a package -/

variable {host : Host} {config : Config}

/-- How a file completes what a replacement leads to: it is that itself, or that with an ending,
or its index. -/
inductive Completes (ending : String) : List String -> List String -> Prop
  | itself (names : List String) : Completes ending names names
  | ending (outer : List String) (last : String) :
      Completes ending (outer ++ [last]) (outer ++ [last ++ ending])
  | index (names : List String) : Completes ending names (names ++ ["index" ++ ending])

/-- What a specifier refers to lies in every directory that the file which completes it lies in. -/
theorem Resolves.exists_goal {package source target found inside : List String}
    (resolves : Resolves snapshot role specifier candidate source meant target lead down found)
    (found_eq : found = package ++ inside) (filled : inside ≠ []) :
    ∃ goal, target = package ++ goal ∧ Completes (snapshot.ending role) goal inside := by
  obtain ⟨outer, last, rfl⟩ := (List.eq_nil_or_concat inside).resolve_left filled
  rw [List.concat_eq_append, ← List.append_assoc] at found_eq
  rw [List.concat_eq_append]
  rcases resolves.cases with ⟨-, same⟩ | ⟨-, -, outer', last', rfl, same⟩ | ⟨-, same⟩
  · exact ⟨_, by rw [← same, found_eq, List.append_assoc], .itself _⟩
  · obtain ⟨rfl, rfl⟩ := List.append_singleton_inj.1 (found_eq.symm.trans same)
    exact ⟨outer ++ [last'], List.append_assoc .., .ending outer last'⟩
  · obtain ⟨rfl, rfl⟩ := List.append_singleton_inj.1 (found_eq.symm.trans same)
    exact ⟨outer, rfl, .index outer⟩

/-- A reference enters more names than lead to what is read only from a directory to itself. -/
theorem Resolves.length_le_iff {package found : List String}
    (resolves : Resolves snapshot role specifier candidate (package ++ inner) meant (package ++ goal)
      lead down found)
    (taken : Taken host config {} snapshot)
    (unicode : (Location.path (package ++ inner)).HasUnicodeWay snapshot.root) :
    down.length ≤ goal.length ↔ inner ≠ [] ∨ goal ≠ [] := by
  rcases resolves.target_cases taken fun _ => unicode with
    rfl | ⟨outer, last, source_eq, target_eq, -, itself⟩
  · exact resolves.enters.length_le_iff
  · -- What is read lies beside the directory: outside of the package, if the directory is that.
    rw [resolves.enters.itself itself, List.length_singleton, ← Nat.succ_le_iff.symm,
      List.length_pos_iff]
    refine (or_iff_right_of_imp fun filled none_ => ?_).symm
    have above := congrArg List.length source_eq
    have beside := congrArg List.length target_eq
    rw [none_] at beside
    rw [← List.length_pos_iff] at filled
    simp only [List.length_append, List.length_singleton, List.length_nil] at above beside
    omega

/-- A replacement stays in every directory that the output lies in, and leads to the corresponding
file in every copy of it. The only exception is the reference of the directory to itself: it stays
right where the copy bears the same name. The directory is the package's, or the ways from tracked
files to the root are Unicode. -/
theorem relinkSpecifier_relocates (taken : take host config {} = .ok snapshot)
    (named : host.tree.Named) {package below : List String}
    (areOutput : AreNames (package ++ below))
    (output_eq : outputDirectory host config = Location.path (package ++ below))
    (rooted : host.absolutize config.directory = Location.path package ∨ snapshot.HasUnicodeWays)
    {tracked role : FileRole} {path : Path} {text specifier next : String}
    (member : (path, text) ∈ (snapshot.tracked tracked).files)
    (replaced : snapshot.relinkSpecifier role path specifier = .replaced next) :
    ∃ inner goal file, path.parent? = some (Location.path (package ++ inner)) ∧
      (∃ target, Refers snapshot (Location.path (package ++ inner)) specifier target ∧
        ((Location.path (package ++ inner)).HasUnicodeReference target ->
          target = Location.path (package ++ goal))) ∧
      Location.path (package ++ file) ∈ (snapshot.tracked role).files.map Prod.fst ∧
      Completes (snapshot.ending role) goal file ∧
      (Path.Stays inner (parts (Name.ofText next)) ↔ inner ≠ [] ∨ goal ≠ []) ∧
      ∀ copy, AreNames copy ->
        inner ≠ [] ∨ goal ≠ [] ∨ copy.getLast? = package.getLast? ->
        ((Location.path (copy ++ inner)).join (.ofText next)).normalize =
          Location.path (copy ++ reached role goal file) := by
  replace taken := take_eq_ok_iff.1 taken
  obtain ⟨candidate, source, meant, target, lead, down, found, resolves, parent, rfl⟩ :=
    exists_resolves taken named member replaced
  obtain ⟨inner, source_eq⟩ : ∃ inner, source = package ++ inner := by
    obtain ⟨rest, isTracked⟩ := taken.isTracked named areOutput output_eq member
    obtain ⟨outer, name, rfl⟩ := (List.eq_nil_or_concat rest).resolve_left isTracked.ne_nil
    have areNames := isTracked.areNames
    have path_eq : path = _ := isTracked.path
    rw [path_eq, List.concat_eq_append, ← List.append_assoc] at parent
    rw [List.concat_eq_append, ← List.append_assoc] at areNames
    have same := Option.some.inj (parent.symm.trans (Location.parent?_path areNames))
    refine ⟨below ++ outer, ?_⟩
    rw [← List.append_assoc]
    exact Location.path_inj resolves.areSource areNames.left (congrArg Path.components same)
  obtain ⟨file, found_eq, filled⟩ : ∃ file, found = package ++ file ∧ file ≠ [] := by
    obtain ⟨⟨known, content⟩, inside, known_eq⟩ := List.mem_map.1 resolves.known
    obtain ⟨rest, isKnown⟩ := taken.isTracked named areOutput output_eq inside
    refine ⟨below ++ rest, ?_, by simp [isKnown.ne_nil]⟩
    rw [← List.append_assoc]
    refine Location.path_inj resolves.areFound isKnown.areNames (congrArg Path.components ?_)
    exact known_eq.symm.trans isKnown.path
  obtain ⟨goal, rfl, completes⟩ := resolves.exists_goal found_eq filled
  subst source_eq
  subst found_eq
  have unicode : (Location.path (package ++ inner)).HasUnicodeWay snapshot.root :=
    rooted.elim (taken.hasUnicodeWay resolves.areSource) fun ways => ways _ _ member _ parent
  have enters := resolves.length_le_iff taken unicode
  obtain ⟨-, stays⟩ := resolves.stays_iff taken.layout_eq
  refine ⟨inner, goal, file, parent, ⟨_, resolves.refers, fun shown => ?_⟩, resolves.known, completes,
    stays.trans enters, fun copy areCopy apart => ?_⟩
  · rw [resolves.target_eq shown]
  by_cases within : inner ≠ [] ∨ goal ≠ []
  · exact resolves.relocates taken.layout_eq (enters.2 within) areCopy
  · push Not at within
    obtain ⟨rfl, rfl⟩ := within
    -- The directory refers to itself, through its parent: what is kept is its name.
    have alike : copy.getLast? = package.getLast? := by simpa using apart
    rcases List.eq_nil_or_concat package with rfl | ⟨outer, name, rfl⟩
    · obtain rfl := List.getLast?_eq_none_iff.1 alike
      have leads := resolves.normalize_join_replacement
      cases role <;> exact leads
    · rw [List.concat_eq_append, List.getLast?_concat] at alike
      obtain ⟨outer', rfl⟩ := List.getLast?_eq_some_iff.1 alike
      have short : down.length ≤ [name].length := by
        rcases resolves.target_cases taken fun _ => unicode with
          rfl | ⟨outer', last, source_eq, target_eq, other, itself⟩
        · rw [resolves.enters.itself rfl]
          exact le_refl 1
        · rw [resolves.enters.itself itself]
          exact le_refl 1
      rw [List.concat_eq_append, List.append_nil, List.append_assoc] at resolves
      have leads := resolves.relocates taken.layout_eq short areCopy.left
      rw [List.append_nil, List.append_assoc]
      cases role <;> exact leads

/-- In the small package, the declaration refers to the directory that it lies in, by its name. -/
theorem relinkSpecifier_relocates_samplePackage :
    sampleSnapshot.relinkSpecifier .declaration ⟨"/p/dist/index.d.ts"⟩ "." =
        .replaced "../dist" ∧
      ∃ inner goal file, Location.path (["p"] ++ file) ∈
          sampleSnapshot.declarations.files.map Prod.fst ∧
        (⟨"/p/dist/index.d.ts"⟩ : Path).parent? = some (Location.path (["p"] ++ inner)) ∧
        (Path.Stays inner (parts (Name.ofText "../dist")) ↔ inner ≠ [] ∨ goal ≠ []) ∧
        ((Location.path (["p"] ++ inner)).join (.ofText "../dist")).normalize =
          Location.path (["p"] ++ goal) := by
  have replaced := relinkSpecifier_sampleDeclaration
  have output_eq : outputDirectory samplePackage sampleConfig =
      Location.path (["p"] ++ ["dist"]) := by decide
  have directory_eq : samplePackage.absolutize sampleConfig.directory = Location.path ["p"] := by
    decide
  have member : (⟨"/p/dist/index.d.ts"⟩, "export * from '.';") ∈
      (sampleSnapshot.tracked .declaration).files := by decide
  obtain ⟨inner, goal, file, parent, -, known, -, stays, leads⟩ :=
    relinkSpecifier_relocates samplePackage_take samplePackage_named (by decide) output_eq
      (.inl directory_eq) member replaced
  exact ⟨replaced, inner, goal, file, known, parent, stays,
    leads ["p"] (by decide) (.inr (.inr rfl))⟩

/-! ## A package that refers to itself -/

/-- A package whose output lies beside its manifest, with a script that refers to the directory. -/
def flatPackage : Host where
  tree := ⟨[(["p"], .directory),
    (["p", "index.js"], .file "".toByteArray false),
    (["p", "package.json"], .file "\x7b\"main\":\"index.js\"\x7d".toByteArray false),
    (["p", "x.d.ts"], .file "".toByteArray false),
    (["p", "x.js"], .file "import '.';".toByteArray false)]⟩
  directory := ["p"]

/-- The working directory as a package that is its own output. -/
def flatConfig : Config where
  directory := ⟨"."⟩
  output := ⟨"."⟩

/-- What a pass knows of the package. -/
def flatSnapshot : Snapshot where
  root := ⟨"/p"⟩
  layout := {}
  manifest := { entry := some "index.js" }
  files := [⟨"/p/index.js"⟩, ⟨"/p/package.json"⟩, ⟨"/p/x.d.ts"⟩, ⟨"/p/x.js"⟩]
  scripts := .ofFiles [(⟨"/p/index.js"⟩, ""), (⟨"/p/x.js"⟩, "import '.';")]
  declarations := .ofFiles [(⟨"/p/x.d.ts"⟩, "")]

theorem flatPackage_files : listOutput flatPackage ⟨"/p"⟩ = .ok flatSnapshot.files := by
  have found : flatPackage.tree.status ["p"] ⟨"/p"⟩ = .ok (["p"], .directory) := by decide
  have children : flatPackage.tree.children ["p"] =
      ["index.js", "package.json", "x.d.ts", "x.js"] := by
    rw [Tree.children, show flatPackage.tree.entries.filterMap _ = _ from
      (by decide : _ = ["index.js", "package.json", "x.d.ts", "x.js"])]
    exact List.mergeSort_of_pairwise (by decide)
  rw [listOutput, Host.visibleFiles, Tree.list, show flatPackage.directory = ["p"] from rfl, found]
  dsimp only
  rw [show flatPackage.tree.listingDepth = 35 + 1 by decide, Tree.listBelow_succ, children]
  decide

theorem flatPackage_take : take flatPackage flatConfig {} = .ok flatSnapshot := by
  have output : outputDirectory flatPackage flatConfig = ⟨"/p"⟩ := by decide
  have manifest : flatPackage.readText (flatPackage.absolutize flatConfig.manifestPath) =
      .ok "\x7b\"main\":\"index.js\"\x7d" :=
    @readText_of_status _ _ ["p", "package.json"] _ false (by decide)
  have index : flatPackage.readText ⟨"/p/index.js"⟩ = .ok "" :=
    @readText_of_status _ _ ["p", "index.js"] _ false (by decide)
  have declaration : flatPackage.readText ⟨"/p/x.d.ts"⟩ = .ok "" :=
    @readText_of_status _ _ ["p", "x.d.ts"] _ false (by decide)
  have script : flatPackage.readText ⟨"/p/x.js"⟩ = .ok "import '.';" :=
    @readText_of_status _ _ ["p", "x.js"] _ false (by decide)
  rw [take_eq_ok_iff]
  constructor
  case isDirectory => decide
  case manifest => exact readManifest_eq_ok_iff.2 ⟨_, manifest, by decide⟩
  case entry => exact ⟨"index.js", rfl, by decide⟩
  case layout_eq => rfl
  case files =>
    rw [output]
    exact flatPackage_files
  case tracked =>
    intro role
    rw [readFiles_eq_ok_iff]
    cases role with
    | script =>
      rw [show flatSnapshot.files.filter _ = _ from
        (by decide : _ = [⟨"/p/index.js"⟩, ⟨"/p/x.js"⟩])]
      exact .cons ⟨rfl, index⟩ (.cons ⟨rfl, script⟩ .nil)
    | declaration =>
      rw [show flatSnapshot.files.filter _ = _ from (by decide : _ = [⟨"/p/x.d.ts"⟩])]
      exact .cons ⟨rfl, declaration⟩ .nil

/-- A replacement can leave the directory of the package, and then a copy of the package under
another name does not hold what the replacement leads to. -/
theorem relinkSpecifier_tied :
    ¬∀ (host : Host) (config : Config) (snapshot : Snapshot) (package below inner : List String)
        (tracked role : FileRole) (path : Path) (text specifier next : String),
      take host config {} = .ok snapshot -> host.tree.Named -> AreNames (package ++ below) ->
      host.absolutize config.directory = Location.path package ->
      outputDirectory host config = Location.path (package ++ below) ->
      (path, text) ∈ (snapshot.tracked tracked).files ->
      path.parent? = some (Location.path (package ++ inner)) ->
      snapshot.relinkSpecifier role path specifier = .replaced next ->
      Path.Stays inner (parts (Name.ofText next)) ∧ ∀ copy, AreNames copy -> ∃ file,
        ((Location.path (copy ++ inner)).join (.ofText next)).normalize =
          Location.path (copy ++ file) := by
  intro all
  have stays := all flatPackage flatConfig flatSnapshot ["p"] [] [] .script .script ⟨"/p/x.js"⟩
    "import '.';" "." "../p/index.js" flatPackage_take (by decide) (by decide)
    (by decide) (by decide) (by decide) (by decide)
    (by decide)
  have leaves : ¬Path.Stays [] (parts (Name.ofText "../p/index.js")) := by decide
  exact leaves stays.1

end Snapshot
end Relink
