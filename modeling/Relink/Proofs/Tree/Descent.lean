import Relink.Proofs.Path.Spelling
import Relink.Tree.Walk

/-!
# Ways through a tree

A way is followed in two parts as it is followed in one: what the first part comes to decides
what becomes of the second. In particular no way leads on from a file.
-/

namespace Relink

/-- The location of every entry is made of names. -/
def Tree.Named (tree : Tree) : Prop :=
  ∀ place ∈ tree.entries, AreNames place.1

instance (tree : Tree) : Decidable tree.Named :=
  inferInstanceAs (Decidable (∀ place ∈ tree.entries, AreNames place.1))

/-- The legs of a location's path go down by its names, after one that stays. -/
theorem Leg.ofSegment_name {name : String} (isName : IsName name) :
    Leg.ofSegment name.toList = .down name := by
  unfold Leg.ofSegment
  split
  · rename_i empty
    exact absurd (String.toList_inj.1 empty) isName.ne_empty
  · rename_i current
    exact absurd (String.toList_inj.1 current) isName.ne_current
  · rename_i parent
    exact absurd (String.toList_inj.1 parent) isName.ne_parent
  · rw [String.ofList_toList]

theorem map_ofSegment_names {names : List String} (areNames : AreNames names) :
    (names.map String.toList).map Leg.ofSegment = names.map .down := by
  rw [List.map_map]
  exact List.map_congr_left fun name member => Leg.ofSegment_name (areNames name member)

namespace Tree

variable {tree : Tree}

theorem descend_path (followLast : Bool) (directory : Location) {names : List String}
    (areNames : AreNames names) :
    tree.descend followLast directory (Location.path names).legs =
      tree.descend followLast directory (names.map .down) := by
  by_cases filled : names = []
  · subst filled
    rfl
  · rw [Path.legs, Location.segments_path filled areNames, List.map_cons,
      map_ofSegment_names areNames]
    rfl

/-- A way in two parts. -/
theorem descend_append (followLast : Bool) (directory : Location) (legs : List Leg)
    {more : List Leg} (filled : more ≠ []) :
    tree.descend followLast directory (legs ++ more) =
      match tree.descend true directory legs with
      | .arrived ⟨location, some .directory⟩ => tree.descend followLast location more
      | .arrived ⟨_, some _⟩ => .blocked .notDirectory
      | .arrived ⟨_, none⟩ => .blocked .notFound
      | .blocked cause => .blocked cause
      | .linked reached target rest => .linked reached target (rest ++ more) := by
  -- As `descend` recurses. A name at the end of the first part is none at the end of the whole.
  induction legs generalizing directory with
  | nil => rfl
  | cons leg legs ih =>
    have open_ : (legs ++ more).isEmpty = false := by simp [filled]
    cases leg with
    | stay => exact ih directory
    | up => exact ih directory.dropLast
    | down name =>
      rw [List.cons_append, descend, descend]
      by_cases long : nameLimit < Name.size name
      · rw [if_pos long, if_pos long]
      · rw [if_neg long, if_neg long]
        dsimp only
        cases found : tree.lookup (directory ++ [name]) with
        | none =>
          rw [open_]
          cases legs <;> rfl
        | some entry =>
          cases entry with
          | directory => exact ih _
          | file content executable =>
            dsimp only
            rw [open_]
            cases legs <;> rfl
          | link target =>
            dsimp only
            rw [open_, Bool.not_true, Bool.and_false]
            rfl

/-! ## Ways through links -/

section

variable {followLast : Bool} {links fewer : Nat} {directory location reached : Location}
  {legs more rest : List Leg} {target : Path} {place : Place}

/-- Ways that are descended alike lead to the same place. -/
theorem walk_congr {directory' : Location} {legs' : List Leg}
    (same : tree.descend followLast directory legs = tree.descend followLast directory' legs') :
    tree.walk followLast links directory legs = tree.walk followLast links directory' legs' := by
  cases links <;> rw [walk, walk, same]

/-- A way that is descended in one arrives whatever number of links is left. -/
theorem walk_arrived (way : tree.descend followLast directory legs = .arrived place) :
    tree.walk followLast links directory legs = .ok place := by
  unfold walk
  rw [way]

/-- A way through a link goes on with what the link says. -/
theorem walk_linked (way : tree.descend followLast directory legs = .linked reached target rest) :
    tree.walk followLast (fewer + 1) directory legs =
      tree.walk followLast fewer (if target.isAbsolute then [] else reached)
        (target.legs ++ rest) := by
  rw [walk, way]

/-- A way that arrives at a place, in one descent or, from link to link, in several. -/
inductive Trail (tree : Tree) (followLast : Bool) (place : Place) :
    Nat -> Location -> List Leg -> Prop
  | arrived {links : Nat} {directory : Location} {legs : List Leg}
      (way : tree.descend followLast directory legs = .arrived place) :
      Trail tree followLast place links directory legs
  | linked {fewer : Nat} {directory reached : Location} {legs rest : List Leg} {target : Path}
      (way : tree.descend followLast directory legs = .linked reached target rest)
      (onward : Trail tree followLast place fewer (if target.isAbsolute then [] else reached)
        (target.legs ++ rest)) :
      Trail tree followLast place (fewer + 1) directory legs

/-- Whatever a way arrives at is at the end of a trail. -/
theorem trail_of_walk (found : tree.walk followLast links directory legs = .ok place) :
    tree.Trail followLast place links directory legs := by
  induction links generalizing directory legs with
  | zero =>
    rw [walk] at found
    cases way : tree.descend followLast directory legs with
    | arrived reached =>
      rw [way] at found
      obtain rfl := Except.ok.inj found
      exact .arrived way
    | blocked cause => rw [way] at found; cases found
    | linked reached target rest => rw [way] at found; cases found
  | succ fewer ih =>
    rw [walk] at found
    cases way : tree.descend followLast directory legs with
    | arrived reached =>
      rw [way] at found
      obtain rfl := Except.ok.inj found
      exact .arrived way
    | blocked cause => rw [way] at found; cases found
    | linked reached target rest =>
      rw [way] at found
      exact .linked way (ih found)

/-- No way leads on from a file. -/
theorem walk_append_file {content : ByteArray} {executable : Bool} (filled : more ≠ [])
    (found : tree.walk true links directory legs =
      .ok ⟨location, some (.file content executable)⟩) :
    tree.walk followLast links directory (legs ++ more) = .error .notDirectory := by
  replace found := trail_of_walk found
  induction found with
  | @arrived links directory legs way =>
    have whole := @descend_append tree followLast directory legs _ filled
    rw [way] at whole
    unfold walk
    rw [whole]
  | @linked fewer directory reached legs rest target way _ ih =>
    have whole := @descend_append tree followLast directory legs _ filled
    rw [way] at whole
    rw [walk_linked whole, ← List.append_assoc, ih]

/-- A way that leads on from a directory is followed from there, perhaps through fewer links. -/
theorem exists_walk_append (followLast : Bool) (filled : more ≠ [])
    (found : tree.walk true links directory legs = .ok ⟨location, some .directory⟩) :
    ∃ fewer ≤ links, tree.walk followLast links directory (legs ++ more) =
      tree.walk followLast fewer location more := by
  replace found := trail_of_walk found
  induction found with
  | @arrived links directory legs way =>
    have whole := @descend_append tree followLast directory legs _ filled
    rw [way] at whole
    exact ⟨links, Nat.le_refl _, walk_congr whole⟩
  | @linked fewer directory reached legs rest target way _ ih =>
    have whole := @descend_append tree followLast directory legs _ filled
    rw [way] at whole
    obtain ⟨fewest, le, same⟩ := ih
    exact ⟨fewest, Nat.le_succ_of_le le, by rw [walk_linked whole, ← List.append_assoc, same]⟩

/-- A way that arrives somewhere goes through a directory wherever it goes on. -/
theorem exists_walk_of_append (filled : more ≠ [])
    (found : tree.walk followLast links directory (legs ++ more) = .ok place) :
    ∃ location, tree.walk true links directory legs = .ok ⟨location, some .directory⟩ := by
  replace found := trail_of_walk found
  generalize whole : legs ++ more = all at found
  induction found generalizing legs with
  | arrived way =>
    subst whole
    rw [descend_append followLast _ legs filled] at way
    split at way
    · rename_i location reaches
      exact ⟨location, walk_arrived reaches⟩
    all_goals cases way
  | linked way _ ih =>
    subst whole
    rw [descend_append followLast _ legs filled] at way
    split at way
    · rename_i location reaches
      exact ⟨location, walk_arrived reaches⟩
    · cases way
    · cases way
    · cases way
    · rename_i rest leads
      cases way
      obtain ⟨location, arrives⟩ := ih (List.append_assoc _ rest more)
      exact ⟨location, by rw [walk_linked leads, arrives]⟩

end

/-- Finding what the path of a location names. -/
theorem resolve_path (base : Location) (followLast : Bool) {names : List String}
    (areNames : AreNames names) :
    tree.resolve base followLast (Location.path names) =
      if pathLimit ≤ Name.size (Location.path names).text then .error .nameTooLong
      else tree.walk followLast linkLimit [] (names.map .down) := by
  have filled : (Location.path names).text.isEmpty = false := by
    rw [Bool.eq_false_iff, ne_eq, String.isEmpty_iff]
    intro empty
    have written := Location.toList_path names
    rw [empty] at written
    cases written
  rw [resolve, filled, if_neg (by decide), Location.path_isAbsolute, if_pos rfl]
  rw [walk_congr (descend_path followLast [] areNames)]

theorem status_eq_ok_iff {base location : Location} {path : Path} {entry : Entry} :
    tree.status base path = .ok (location, entry) ↔
      tree.resolve base true path = .ok ⟨location, some entry⟩ := by
  unfold status
  cases tree.resolve base true path with
  | error cause => simp
  | ok place =>
    obtain ⟨reached, found⟩ := place
    cases found <;> simp

/-- Nothing lies below a file, whatever links lead there. -/
theorem status_below_file {base location location' : Location} {names more : List String}
    {content : ByteArray} {executable : Bool} {entry : Entry} (areNames : AreNames (names ++ more))
    (filled : more ≠ [])
    (isFile : tree.status base (Location.path names) =
      .ok (location, .file content executable)) :
    tree.status base (Location.path (names ++ more)) ≠ .ok (location', entry) := by
  intro found
  rw [status_eq_ok_iff, resolve_path base true areNames.left] at isFile
  rw [status_eq_ok_iff, resolve_path base true areNames] at found
  split at isFile
  · cases isFile
  · split at found
    · cases found
    · rw [List.map_append, walk_append_file (by simpa using filled) isFile] at found
      cases found

/-! ## Entries of a directory -/

theorem split_path {names : List String} {name : String} (areNames : AreNames (names ++ [name])) :
    (Location.path (names ++ [name])).split = (.stay :: names.map .down, .name name false) := by
  have isName := areNames name (by simp)
  have filled : name.toList.isEmpty = false := by
    rw [List.isEmpty_eq_false_iff]
    exact fun empty => isName.ne_empty (String.toList_inj.1 empty)
  have segments := Location.segments_path (by simp) areNames
  have trimmed :
      ((Location.path (names ++ [name])).segments.reverse.dropWhile List.isEmpty).reverse =
        ([] :: names.map String.toList) ++ [name.toList] := by
    rw [segments, List.map_append, List.map_singleton, ← List.cons_append, List.reverse_append,
      List.reverse_singleton, List.singleton_append, List.dropWhile_cons_of_neg (by simp [filled]),
      List.reverse_cons, List.reverse_reverse]
  rw [Path.split, trimmed]
  rw [List.getLast?_concat, List.dropLast_concat]
  dsimp only
  rw [Leg.ofSegment_name isName, segments, List.map_cons, map_ofSegment_names areNames.left]
  simp [Leg.ofSegment]

/-- Whether an entry's name, or the path that leads to it, is longer than it may be. -/
def IsTooLong (outer : List String) (name : String) : Prop :=
  pathLimit ≤ Name.size (Location.path (outer ++ [name])).text ∨ nameLimit < Name.size name

instance (outer : List String) (name : String) : Decidable (IsTooLong outer name) :=
  inferInstanceAs (Decidable (_ ∨ _))

/-- A shorter name than one that is short enough is short enough. -/
theorem IsTooLong.mono {outer : List String} {name name' : String}
    (tooLong : IsTooLong outer name) (shorter : Name.size name ≤ Name.size name') :
    IsTooLong outer name' := by
  unfold IsTooLong at tooLong ⊢
  rw [Location.size_path_concat] at tooLong ⊢
  omega

/-- A way of one name ends at what bears the name, unless it goes on from a link. -/
theorem walk_down {followLast : Bool} {directory : Location} {name : String} (links : Nat)
    (direct : followLast = false ∨
      ∀ target, tree.lookup (directory ++ [name]) ≠ some (.link target)) :
    tree.walk followLast links directory [.down name] =
      if nameLimit < Name.size name then .error .nameTooLong
      else .ok ⟨directory ++ [name], tree.lookup (directory ++ [name])⟩ := by
  by_cases long : nameLimit < Name.size name
  · have way : tree.descend followLast directory [.down name] = .blocked .nameTooLong := by
      rw [descend, if_pos long]
    rw [if_pos long]
    cases links <;> rw [walk, way]
  · have way : tree.descend followLast directory [.down name] =
        .arrived ⟨directory ++ [name], tree.lookup (directory ++ [name])⟩ := by
      rw [descend, if_neg long]
      dsimp only
      cases found : tree.lookup (directory ++ [name]) with
      | none => rfl
      | some entry =>
        cases entry with
        | directory => rfl
        | file content executable => rfl
        | link target =>
          rcases direct with rfl | straight
          · rfl
          · exact absurd found (straight target)
    rw [if_neg long]
    cases links <;> rw [walk, way]

/-- Finding the entry of a directory by its name. -/
theorem resolve_entry {base directory : Location} {outer : List String} {name : String}
    {followLast : Bool} (areNames : AreNames (outer ++ [name]))
    (reached : tree.status base (Location.path outer) = .ok (directory, .directory))
    (direct : followLast = false ∨
      ∀ target, tree.lookup (directory ++ [name]) ≠ some (.link target)) :
    tree.resolve base followLast (Location.path (outer ++ [name])) =
      if IsTooLong outer name then .error .nameTooLong
      else .ok ⟨directory ++ [name], tree.lookup (directory ++ [name])⟩ := by
  rw [status_eq_ok_iff, resolve_path base true areNames.left] at reached
  rw [resolve_path base followLast areNames]
  by_cases tooLong : pathLimit ≤ Name.size (Location.path (outer ++ [name])).text
  · rw [if_pos tooLong, if_pos (show IsTooLong outer name from .inl tooLong)]
  · split at reached
    · cases reached
    obtain ⟨fewer, -, same⟩ := exists_walk_append followLast
      (by simp : [name].map Leg.down ≠ []) reached
    rw [if_neg tooLong, List.map_append, same, List.map_singleton, walk_down fewer direct]
    by_cases long : nameLimit < Name.size name
    · rw [if_pos long, if_pos (show IsTooLong outer name from .inr long)]
    · rw [if_neg long, if_neg (show ¬IsTooLong outer name from not_or.2 ⟨tooLong, long⟩)]

/-- What a path names lies in a directory, or a link does that leads there. -/
theorem exists_status_outer {base location : Location} {outer : List String} {name : String}
    {entry : Entry} (areNames : AreNames (outer ++ [name]))
    (found : tree.status base (Location.path (outer ++ [name])) = .ok (location, entry)) :
    ∃ directory, tree.status base (Location.path outer) = .ok (directory, .directory) := by
  rw [status_eq_ok_iff, resolve_path base true areNames] at found
  split at found
  · cases found
  · rename_i fits
    rw [List.map_append] at found
    obtain ⟨directory, arrives⟩ := exists_walk_of_append (by simp) found
    refine ⟨directory, ?_⟩
    have shorter : Name.size (Location.path outer).text ≤
        Name.size (Location.path (outer ++ [name])).text := by
      rw [Location.size_path_concat]
      by_cases top : outer = []
      · subst top
        exact Nat.le_add_right 1 _
      · rw [if_neg top]
        omega
    rw [status_eq_ok_iff, resolve_path base true areNames.left, if_neg (by omega), arrives]

/-- The directory that holds an entry is the one that its path leads through last. -/
theorem holder_entry {base directory : Location} {outer : List String} {name : String}
    (areNames : AreNames (outer ++ [name]))
    (reached : tree.status base (Location.path outer) = .ok (directory, .directory))
    (fits : ¬IsTooLong outer name) :
    tree.holder base (Location.path (outer ++ [name])) =
      .ok (directory, .name name false) := by
  have filled : (Location.path (outer ++ [name])).text.isEmpty = false := by
    rw [Bool.eq_false_iff, ne_eq, String.isEmpty_iff]
    intro empty
    have written := Location.toList_path (outer ++ [name])
    rw [empty] at written
    cases written
  have straight : tree.walk true linkLimit [] (.stay :: outer.map .down) =
      tree.walk true linkLimit [] (outer.map .down) := walk_congr rfl
  rw [status_eq_ok_iff, resolve_path base true areNames.left] at reached
  split at reached
  · cases reached
  · rw [holder, filled, if_neg (by decide), if_neg (not_or.1 fits).1, Location.path_isAbsolute,
      split_path areNames, if_pos rfl, straight, reached]

end Tree
end Relink
