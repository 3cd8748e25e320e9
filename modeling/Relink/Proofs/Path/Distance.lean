import Relink.Proofs.Path.Reference

/-!
# The shortest way

A step from a location, up or down, changes the way from there to a target by at most one step.
So no path that is read from a directory and leads to the target takes fewer steps than the
relative path does. The relative path leads there, unless a name on the way down is not Unicode:
the text that is shown for it is read as another name.
-/

namespace Relink.Path

/-- An absolute path that is written as its normal path is, up to spelling. -/
structure IsNormal (path : Path) : Prop where
  isAbsolute : path.isAbsolute = true
  same : path.normalize.same path = true

/-- How many steps a path takes. A `.` is none. -/
def steps (path : Path) : Nat :=
  path.components.countP (· != .current)

/-! ## One step and many -/

/-- One step further on, the way is at most one step longer, or one step shorter. -/
theorem length_relativeParts_concat (source target : List Component) (step : Component) :
    (relativeParts id source target).length ≤
        (relativeParts id (source ++ [step]) target).length + 1 ∧
      (relativeParts id (source ++ [step]) target).length ≤
        (relativeParts id source target).length + 1 := by
  induction source generalizing target with
  | nil =>
    cases target with
    | nil => simp [relativeParts]
    | cons goal target =>
      simp only [List.nil_append, relativeParts]
      split
      · simp
        omega
      · simp
  | cons first source ih =>
    cases target with
    | nil => simp [relativeParts]
    | cons goal target =>
      simp only [List.cons_append, relativeParts]
      split
      · exact ih target
      · simp
        omega

theorem relativeParts_self (components : List Component) :
    relativeParts id components components = [] := by
  induction components with
  | nil => rfl
  | cons component components ih => rw [relativeParts, if_pos rfl, ih]

/-- The way to a target, in steps. -/
def distance (source target : List String) : Nat :=
  (relativeParts id (source.map .name) (target.map .name)).length

theorem distance_self (names : List String) : distance names names = 0 := by
  rw [distance, relativeParts_self, List.length_nil]

/-- A step comes nearer to the target by at most one. -/
theorem distance_le_follow (names target : List String) (component : Component) :
    distance names target ≤ distance (follow names component) target + 1 := by
  have concat (names : List String) (name : String) :=
    length_relativeParts_concat (names.map .name) (target.map .name) (.name name)
  cases component with
  | root => exact Nat.le_succ _
  | current => exact Nat.le_succ _
  | name name =>
    rw [follow, distance, distance, List.map_append]
    exact (concat names name).1
  | parent =>
    rcases List.eq_nil_or_concat names with rfl | ⟨outer, last, rfl⟩
    · exact Nat.le_succ _
    · rw [List.concat_eq_append, follow, List.dropLast_concat, distance, distance, List.map_append]
      exact (concat outer last).2

/-- Who goes to the target takes at least as many steps as there are to it. -/
theorem distance_le_of_foldl {names target : List String} {components : List Component}
    (leads : components.foldl follow names = target) :
    distance names target ≤ components.length := by
  induction components generalizing names with
  | nil =>
    rw [← leads, List.foldl_nil, distance_self]
    exact Nat.zero_le _
  | cons component components ih =>
    have step := distance_le_follow names target component
    have later := ih leads
    rw [List.length_cons]
    omega

/-! ## What a relative path is made of -/

/-- The steps of a path that is read from another one are its parts. -/
theorem steps_of_isRelative {text : String} (isRelative : IsRelative text) :
    steps ⟨text⟩ = (parts text).length := by
  have solid : ∀ component ∈ parts text, (component != .current) = true := by
    intro component member
    rcases of_mem_parts member with rfl | ⟨name, rfl, -⟩ <;> rfl
  have begins : (front ⟨text⟩).countP (· != .current) = 0 := by
    rw [front, isRelative, if_neg (by decide)]
    split <;> rfl
  rw [steps, components, List.countP_append, begins, Nat.zero_add]
  exact List.countP_eq_length.2 solid

theorem exists_names_of_isNormal {path : Path} (isNormal : path.IsNormal) :
    ∃ names, AreNames names ∧ path.components = (Location.path names).components := by
  obtain ⟨names, areNames, shape⟩ := exists_location_of_isAbsolute isNormal.isAbsolute
  have same := isNormal.same
  rw [shape, Path.same, decide_eq_true_iff] at same
  exact ⟨names, areNames, same.symm⟩

/-- What is read from a normal path leads on from there. -/
theorem normalize_join_same {path : Path} {names : List String} {text : String}
    (isNormal : path.IsNormal) (areNames : AreNames names)
    (written : path.components = (Location.path names).components) (isRelative : IsRelative text) :
    (path.join ⟨text⟩).normalize = Location.path ((parts text).foldl follow names) := by
  have parts_eq : parts path.text = names.map .name := by
    rw [components_of_isAbsolute isNormal.isAbsolute, Location.components_path areNames] at written
    exact (List.cons.inj written).2
  rw [normalize_join_of_isAbsolute isNormal.isAbsolute isRelative, parts_eq, follow_names,
    List.nil_append]

/-- What the relative path from one location to another is read as: the steps of the way, up to what
both share, and then down by the names that are seen. -/
theorem exists_parts_relative {source target : List String} (areSource : AreNames source)
    (areTarget : AreNames target) :
    ∃ common climbed down, source = common ++ climbed ∧ target = common ++ down ∧
      relativeParts id (source.map .name) (target.map .name) =
        List.replicate climbed.length ".." ++ down ∧
      parts (Name.ofText ((Location.path source).relative (Location.path target))) =
        List.replicate climbed.length .parent ++ (down.map Name.seen).map .name := by
  obtain ⟨common, climbed, down, rfl, rfl, -, shape, relative⟩ :=
    exists_relative areSource areTarget
  refine ⟨common, climbed, down, rfl, rfl, by rw [shape, List.map_id], ?_⟩
  have areSeen : AreNames (down.map Name.seen) := areTarget.right.seen
  have names (step : String) (member : step ∈ down.map Name.seen) : '/' ∉ step.toList :=
    (areSeen step member).noSlash
  rw [relative]
  by_cases climbs : climbed = []
  · subst climbs
    rw [if_pos rfl]
    by_cases filled : down = []
    · subst filled
      decide
    · rw [if_neg filled, (@Reference.below common _ filled).ofText_shownWay, way,
        List.singleton_append, parts_intercalate (by simp)
          (List.forall_mem_cons.2 ⟨by decide, names⟩), List.filterMap_cons,
        filterMap_ofSegment?_names areSeen]
      rfl
  · have noSlash : ∀ step ∈ List.replicate climbed.length ".." ++ down.map Name.seen,
        '/' ∉ step.toList :=
      List.forall_mem_append.2 ⟨fun _ member => noSlash_parents member, names⟩
    rw [if_neg climbs, (@Reference.above common _ _ climbs).ofText_shownWay, way,
      parts_intercalate (by simp [climbs]) noSlash, List.filterMap_append, filterMap_parents,
      filterMap_ofSegment?_names areSeen]

/-- A relative path is `..`, or it begins with `./` or `../`. -/
theorem relative_begins {source target : List String} (areSource : AreNames source)
    (areTarget : AreNames target) :
    let reference := (Location.path source).relative (Location.path target)
    reference = ".." ∨ Text.startsWith reference "./" = true ∨
      Text.startsWith reference "../" = true := by
  obtain ⟨common, climbed, down, rfl, rfl, -, -, relative⟩ := exists_relative areSource areTarget
  rw [relative]
  by_cases climbs : climbed = []
  · rw [if_pos climbs]
    refine .inr (.inl ?_)
    by_cases filled : down = []
    · rw [if_pos filled]
      decide
    · obtain ⟨name, down, rfl⟩ := List.exists_cons_of_ne_nil filled
      rw [if_neg filled, shownWay, List.map_cons, List.singleton_append, way_cons_cons]
      exact List.isPrefixOf_iff_prefix.2 ⟨_, String.toList_append.symm⟩
  · obtain ⟨step, climbed, rfl⟩ := List.exists_cons_of_ne_nil climbs
    have upward := way_upward (List.replicate climbed.length ".." ++ down.map Name.shown)
    rw [Bool.or_eq_true, decide_eq_true_iff] at upward
    rw [if_neg climbs]
    exact upward.imp id .inr

/-- What begins as a relative path does is read as one. -/
theorem isRelative_of_begins {text : String}
    (begins : text = ".." ∨ Text.startsWith text "./" = true ∨
      Text.startsWith text "../" = true) : IsRelative (Name.ofText text) := by
  have point : text.toList.head? = some '.' := by
    have first {lead : List Char} (starts : '.' :: lead <+: text.toList) :
        text.toList.head? = some '.' := by
      obtain ⟨rest, written⟩ := starts
      rw [← written]
      rfl
    rcases begins with rfl | starts | starts
    · rfl
    · exact first (List.isPrefixOf_iff_prefix.1 starts)
    · exact first (List.isPrefixOf_iff_prefix.1 starts)
  rw [IsRelative, isAbsolute, Name.head?_ofText, point]
  rfl

/-- The relative path from a directory to a target leads there exactly if the names that it enters
are Unicode. It cannot be mistaken for the name of a package, and takes no more steps than any path
that leads there from the directory. -/
theorem relative_shortest {source target : Path} (isSource : source.IsNormal)
    (isTarget : target.IsNormal) :
    let reference := source.relative target
    ((source.join (.ofText reference)).normalize.same target = true ↔
        source.HasUnicodeWay target) ∧
      (reference = ".." ∨ Text.startsWith reference "./" = true ∨
        Text.startsWith reference "../" = true) ∧
      ∀ text, IsRelative text -> (source.join ⟨text⟩).normalize.same target = true ->
        steps (.ofText reference) ≤ steps ⟨text⟩ := by
  obtain ⟨here, areHere, hereWritten⟩ := exists_names_of_isNormal isSource
  obtain ⟨there, areThere, thereWritten⟩ := exists_names_of_isNormal isTarget
  -- Where a relative text leads is told by its parts, followed from `here`.
  have leads {text : String} (isRelative : IsRelative text) :
      (source.join ⟨text⟩).normalize.same target = true ↔
        (parts text).foldl follow here = there := by
    have areLed := areNames_follow areHere fun _ => @of_mem_parts text _
    rw [normalize_join_same isSource areHere hereWritten isRelative, Path.same,
      decide_eq_true_iff, thereWritten]
    exact ⟨Location.path_inj areLed areThere, fun same => by rw [same]⟩
  have reference_eq : source.relative target =
      (Location.path here).relative (Location.path there) := by
    rw [relative, relative, hereWritten, thereWritten]
  have way_eq : relativeParts id source.components target.components =
      relativeParts id (here.map .name) (there.map .name) := by
    rw [hereWritten, thereWritten, Location.components_path areHere,
      Location.components_path areThere, relativeParts, if_pos rfl]
  dsimp only
  rw [HasUnicodeWay, reference_eq, way_eq]
  have begins := relative_begins areHere areThere
  have isRelative := isRelative_of_begins begins
  obtain ⟨common, climbed, down, rfl, rfl, way_eq, written⟩ := exists_parts_relative areHere areThere
  refine ⟨?_, begins, fun text isRelative' arrives => ?_⟩
  · -- Names are seen as they are exactly if they are Unicode.
    rw [Path.ofText, leads isRelative, written, List.foldl_append, follow_parents, follow_names,
      List.append_right_inj, way_eq, List.forall_mem_append, Name.map_seen_eq_iff]
    refine (and_iff_right fun part member => ?_).symm
    rw [List.eq_of_mem_replicate member]
    decide
  · calc steps (.ofText ((Location.path (common ++ climbed)).relative
          (Location.path (common ++ down))))
        = climbed.length + down.length := by
          rw [Path.ofText, steps_of_isRelative isRelative, written, List.length_append,
            List.length_replicate, List.length_map, List.length_map]
      _ = distance (common ++ climbed) (common ++ down) := by
          rw [distance, way_eq, List.length_append, List.length_replicate]
      _ ≤ (parts text).length := distance_le_of_foldl ((leads isRelative').1 arrives)
      _ = steps ⟨text⟩ := (steps_of_isRelative isRelative').symm

/-- From a directory to one with a hidden name beside it one climbs one step. The way over the root
takes more. -/
theorem relative_shortest_hidden :
    (⟨"/p/dist"⟩ : Path).IsNormal ∧ (⟨"/p/..b"⟩ : Path).IsNormal ∧
      (⟨"/p/dist"⟩ : Path).relative ⟨"/p/..b"⟩ = "../..b" ∧
      ((⟨"/p/dist"⟩ : Path).join (.ofText "../..b")).normalize.same ⟨"/p/..b"⟩ = true ∧
      steps (.ofText "../..b") ≤ steps ⟨"../../p/..b"⟩ := by
  have isSource : (⟨"/p/dist"⟩ : Path).IsNormal := ⟨by decide, by decide⟩
  have isTarget : (⟨"/p/..b"⟩ : Path).IsNormal := ⟨by decide, by decide⟩
  have reference : (⟨"/p/dist"⟩ : Path).relative ⟨"/p/..b"⟩ = "../..b" := by decide
  obtain ⟨leads, -, shortest⟩ := relative_shortest isSource isTarget
  rw [reference] at leads shortest
  exact ⟨isSource, isTarget, reference, leads.2 (by decide), shortest _ rfl (by decide)⟩

/-- To a directory whose name is a stray byte the relative path does not lead. -/
theorem relative_stray :
    let name := Name.ofBytes [0xFF]
    Name.bytes name = [0xFF] ∧ (⟨"/a"⟩ : Path).IsNormal ∧ (⟨"/a/" ++ name⟩ : Path).IsNormal ∧
      (⟨"/a"⟩ : Path).relative ⟨"/a/" ++ name⟩ = "./\uFFFD" ∧
      ((⟨"/a"⟩ : Path).join (.ofText "./\uFFFD")).normalize.same ⟨"/a/" ++ name⟩ = false :=
  ⟨by decide, ⟨by decide, by decide⟩, ⟨by decide, by decide⟩, by decide, by decide⟩

end Relink.Path
