import Relink.Proofs.Path.Spelling
import Relink.Proofs.Tree.Descent

/-!
# Paths that lead down

Names are joined to a path one by one. However the path is written, what comes of it has the
components of the path and then the names, so the names can be read back from it.
-/

namespace Relink

/-- The path that names lead down to. -/
def Path.below (root : Path) (names : List String) : Path :=
  names.foldl (fun path name => path.join ⟨name⟩) root

namespace Path

variable {root : Path} {name : String} {names : List String}

theorem below_cons (root : Path) (name : String) (names : List String) :
    root.below (name :: names) = (root.join ⟨name⟩).below names :=
  rfl

theorem below_concat (root : Path) (names : List String) (name : String) :
    root.below (names ++ [name]) = (root.below names).join ⟨name⟩ := by
  rw [below, List.foldl_append]
  rfl

/-- A name without a slash is relative. -/
theorem isRelative_of_noSlash (noSlash : '/' ∉ name.toList) : IsRelative name := by
  rw [IsRelative, isAbsolute, beq_eq_false_iff_ne]
  exact fun first => noSlash (List.mem_of_head? first)

/-- A path that a name is joined to: what it is written as, and what the joined path is. Only a
slash that the path ends in makes a difference. -/
theorem join_cases (root : Path) (noSlash : '/' ∉ name.toList) :
    (root.text = "" ∧ root.join ⟨name⟩ = ⟨name⟩) ∨
      ∃ front, (root.text = front ∨ root.text = front ++ "/") ∧ root.text ≠ "" ∧
        root.join ⟨name⟩ = ⟨front ++ "/" ++ name⟩ := by
  have relative : Path.isAbsolute ⟨name⟩ = false := isRelative_of_noSlash noSlash
  rw [join, relative, if_neg (by decide)]
  cases ends : root.text.toList.getLast? with
  | none =>
    have empty : root.text = "" := by
      rwa [List.getLast?_eq_none_iff, String.toList_eq_nil_iff] at ends
    exact .inl ⟨empty, by simp [empty]⟩
  | some last =>
    have filled : root.text ≠ "" := by
      intro empty
      rw [empty] at ends
      cases ends
    obtain ⟨front, shape⟩ := List.getLast?_eq_some_iff.1 ends
    by_cases slash : last = '/'
    · have written : root.text = String.ofList front ++ "/" := by
        rw [← String.toList_inj, shape, slash, String.toList_append, String.toList_ofList]
        rfl
      exact .inr ⟨String.ofList front, .inr written, filled, by simp [slash, written]⟩
    · exact .inr ⟨root.text, .inl rfl, filled, by simp [slash]⟩

/-- A slash parts the segments of a path into those before and those after it. -/
theorem segments_append_slash (front later : String) :
    segments ⟨front ++ "/" ++ later⟩ = segments ⟨front⟩ ++ segments ⟨later⟩ := by
  have written : (front ++ "/" ++ later).toList = front.toList ++ '/' :: later.toList := by
    rw [String.toList_append, String.toList_append, List.append_assoc]
    rfl
  rw [segments, written, Text.splitAt_append]
  rfl

/-- The segments of a path that a name is joined to. One that is empty gives way to the name. -/
theorem exists_segments_join (root : Path) (noSlash : '/' ∉ name.toList) :
    ∃ front, (root.segments = front ∨ root.segments = front ++ [[]]) ∧
      (root.join ⟨name⟩).segments = front ++ [name.toList] := by
  have alone : segments ⟨name⟩ = [name.toList] := Text.splitAt_of_not_mem noSlash
  rcases join_cases root noSlash with ⟨empty, joined⟩ | ⟨front, written, -, joined⟩
  · refine ⟨[], .inr ?_, by rw [joined, alone]; rfl⟩
    rw [segments, empty]
    rfl
  · refine ⟨segments ⟨front⟩, ?_, by rw [joined, segments_append_slash, alone]⟩
    rcases written with written | written
    · exact .inl (by rw [segments, written, segments])
    · have slashed := segments_append_slash front ""
      rw [String.append_empty, ← written] at slashed
      exact .inr slashed

/-- A name below a path leaves it absolute or not. -/
theorem isAbsolute_join_name (root : Path) (isName : IsName name) :
    (root.join ⟨name⟩).isAbsolute = root.isAbsolute :=
  isAbsolute_join_relative root (isRelative_of_noSlash isName.noSlash)

/-- Joining what stands between two slashes adds the component that it is. -/
theorem components_join_segment (root : Path) {text : String} {component : Component}
    (found : Component.ofSegment? text.toList = some component) (noSlash : '/' ∉ text.toList) :
    (root.join ⟨text⟩).components = root.components ++ [component] := by
  obtain ⟨front, before, joined⟩ := exists_segments_join root noSlash
  have added : [text.toList].filterMap Component.ofSegment? = [component] := by
    rw [List.filterMap_cons, found]
    rfl
  have begins : (root.join ⟨text⟩).front = root.front := by
    have other : text.toList ≠ ['.'] := by
      intro same
      rw [same] at found
      cases found
    rw [Path.front, Path.front, isAbsolute_join_relative root (isRelative_of_noSlash noSlash),
      joined]
    cases front with
    | nil =>
      rcases before with before | before
      · exact (Text.splitAt_ne_nil _ _ before).elim
      · simp [before, other]
    | cons first front => rcases before with before | before <;> simp [before]
  rw [components, components, begins, joined, List.filterMap_append, added, List.append_assoc]
  congr 1
  rcases before with before | before
  · rw [before]
  · rw [before, List.filterMap_append]
    exact congrArg (· ++ _) (List.append_nil _).symm

/-- Joining a name adds a component. -/
theorem components_join (root : Path) (isName : IsName name) :
    (root.join ⟨name⟩).components = root.components ++ [.name name] :=
  components_join_segment root (Component.ofSegment?_name isName) isName.noSlash

/-- Below a path, names are further components. -/
theorem components_below (areNames : AreNames names) :
    (root.below names).components = root.components ++ names.map .name := by
  induction names using List.reverseRecOn with
  | nil => exact (List.append_nil _).symm
  | append_singleton names name ih =>
    rw [below_concat, components_join _ (areNames name (by simp)), ih areNames.left,
      List.map_append, List.append_assoc]
    rfl

/-- The names that lead down to a path can be read back from it. -/
theorem below_inj {names' : List String} (areNames : AreNames names) (areNames' : AreNames names')
    (same : root.below names = root.below names') : names = names' := by
  have components := congrArg Path.components same
  rw [components_below areNames, components_below areNames', List.append_cancel_left_eq]
    at components
  exact List.map_inj_right (fun _ _ => Component.name.inj) |>.1 components

/-- What is below a path starts with it. -/
theorem startsWith_below (areNames : AreNames names) :
    (root.below names).startsWith root = true := by
  rw [startsWith, components_below areNames, List.isPrefixOf_iff_prefix]
  exact List.prefix_append ..

/-- The last name below a path is the file name. -/
theorem fileName?_below (areNames : AreNames (names ++ [name])) :
    (root.below (names ++ [name])).fileName? = some name := by
  rw [fileName?, components_below areNames, List.map_append, ← List.append_assoc,
    List.map_singleton, List.getLast?_concat]

/-- The legs of a path that a name is joined to. -/
theorem exists_legs_join (root : Path) (isName : IsName name) :
    ∃ front, (root.legs = front ∨ root.legs = front ++ [.stay]) ∧
      (root.join ⟨name⟩).legs = front ++ [.down name] := by
  obtain ⟨front, before, joined⟩ := exists_segments_join root isName.noSlash
  refine ⟨front.map Leg.ofSegment, before.imp ?_ ?_, ?_⟩
  · intro before
    rw [legs, before]
  · intro before
    rw [legs, before, List.map_append]
    rfl
  · rw [legs, joined, List.map_append, List.map_singleton, Leg.ofSegment_name isName]

/-- The way of a path that leads down goes on from the way of the path that it leads down from,
unless that ends in a slash. -/
theorem exists_legs_below (root : Path) (filled : names ≠ []) (areNames : AreNames names) :
    ∃ front, (root.legs = front ∨ root.legs = front ++ [.stay]) ∧
      (root.below names).legs = front ++ names.map .down := by
  induction names using List.reverseRecOn with
  | nil => exact absurd rfl filled
  | append_singleton names name ih =>
    have isName := areNames name (by simp)
    obtain ⟨front, before, joined⟩ := exists_legs_join (root.below names) isName
    rw [below_concat, joined]
    by_cases first : names = []
    · subst first
      exact ⟨front, before, rfl⟩
    · obtain ⟨begins, root_, below_⟩ := ih first areNames.left
      refine ⟨begins, root_, ?_⟩
      have same : (root.below names).legs = front := by
        refine before.resolve_right fun slashed => ?_
        obtain ⟨outer, last, rfl⟩ := (List.eq_nil_or_concat names).resolve_left first
        rw [below_, List.concat_eq_append, List.map_append, ← List.append_assoc] at slashed
        cases (List.append_inj' slashed rfl).2
      rw [← same, below_, List.map_append, List.append_assoc]
      rfl

/-- Names below a path leave it absolute or not. -/
theorem isAbsolute_below (root : Path) (areNames : AreNames names) :
    (root.below names).isAbsolute = root.isAbsolute := by
  induction names using List.reverseRecOn with
  | nil => rfl
  | append_singleton names name ih =>
    rw [below_concat, isAbsolute_join_name _ (areNames name (by simp)), ih areNames.left]

/-- An absolute path that ends with a name is normalized to a location with this name last. -/
theorem normalize_of_parts {path : Path} {before : List Component}
    (absolute : path.isAbsolute = true) (ends : parts path.text = before ++ [.name name]) :
    ∃ names, AreNames (names ++ [name]) ∧ path.normalize = Location.path (names ++ [name]) := by
  have areNames := areNames_follow .nil fun _ member => @of_mem_parts path.text _ member
  rw [normalize_of_isAbsolute absolute]
  rw [ends, List.foldl_append] at areNames ⊢
  exact ⟨before.foldl follow [], areNames, rfl⟩

/-- A path that a name is joined to ends in the name when it is made absolute. -/
theorem exists_absolutize_join {base : Path} (absolute : base.isAbsolute = true)
    (directory : Path) (isName : IsName name) :
    ∃ names, AreNames (names ++ [name]) ∧
      base.absolutize (directory.join ⟨name⟩) = Location.path (names ++ [name]) := by
  have alone : parts name = [.name name] := by
    rw [parts, Text.splitAt_of_not_mem isName.noSlash, List.filterMap_cons,
      Component.ofSegment?_name isName]
    rfl
  have joined := parts_join directory (isRelative_of_noSlash isName.noSlash)
  rw [alone] at joined
  rw [absolutize]
  split
  · rename_i starts
    exact normalize_of_parts starts joined
  · rename_i starts
    have read := @parts_join base (directory.join ⟨name⟩).text (Bool.eq_false_iff.2 starts)
    rw [joined, ← List.append_assoc] at read
    exact normalize_of_parts (isAbsolute_join absolute) read

end Path

/-- Below a location, the paths that names lead down to are those of locations. -/
theorem Location.below_path {names later : List String} (areNames : AreNames (names ++ later)) :
    (path names).below later = path (names ++ later) := by
  induction later using List.reverseRecOn with
  | nil => rw [List.append_nil]; rfl
  | append_singleton later name ih =>
    rw [← List.append_assoc] at areNames ⊢
    rw [Path.below_concat, ih areNames.left, join_path areNames.left (areNames name (by simp))]

end Relink
