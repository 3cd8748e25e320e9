import Relink.Proofs.Host.Temporary

/-!
# Folding a way before it is followed

A path can be folded as it is written, each `..` with the name before it, or followed as it is
written. The two lead to the same place if every `..` leaves a directory that its spelling names
without a link: then the directory above is the one that the folded path goes through.
-/

namespace Relink

/-- Where a leg leads by its spelling. There is nothing above the root. -/
def Leg.follow (names : List String) : Leg -> List String
  | .stay => names
  | .up => names.dropLast
  | .down name => names ++ [name]

/-- A path is folded by its legs as it is by its parts. -/
theorem Path.foldl_follow_legs (path : Path) (names : List String) :
    path.legs.foldl Leg.follow names = (parts path.text).foldl follow names := by
  rw [legs, parts, ← segments]
  induction path.segments generalizing names with
  | nil => rfl
  | cons segment segments ih =>
    rw [List.map_cons, List.foldl_cons, ih, List.filterMap_cons]
    cases goes : Leg.ofSegment segment with
    | down name =>
      rw [Component.ofSegment?_of_leg goes]
      rfl
    | stay =>
      have silent : Component.ofSegment? segment = none := by
        unfold Leg.ofSegment at goes
        split at goes
        · rfl
        · rfl
        · cases goes
        · cases goes
      rw [silent]
      rfl
    | up =>
      have parent : Component.ofSegment? segment = some .parent := by
        unfold Leg.ofSegment at goes
        split at goes
        · cases goes
        · cases goes
        · rfl
        · cases goes
      rw [parent]
      rfl

theorem Path.legs_ne_nil (path : Path) : path.legs ≠ [] := by
  rw [legs, ne_eq, List.map_eq_nil_iff]
  exact Text.splitAt_ne_nil '/' path.text.toList

namespace Tree

variable {tree : Tree}

/-- Two ways on from every directory that a first part leads to are two ways on from its
beginning. -/
theorem walk_append_congr {followLast : Bool} {links : Nat} {directory : Location}
    {legs more more' : List Leg} (filled : more ≠ []) (filled' : more' ≠ [])
    (same : ∀ location, tree.walk true links directory legs = .ok ⟨location, some .directory⟩ ->
      tree.descend followLast location more = tree.descend followLast location more') :
    tree.walk followLast links directory (legs ++ more) =
      tree.walk followLast links directory (legs ++ more') := by
  -- Up to the first link the two ways are parts of one descent each.
  have straight {links : Nat} {directory : Location} {legs : List Leg}
      (unlinked : ∀ reached target rest,
        tree.descend true directory legs ≠ .linked reached target rest)
      (same : ∀ location, tree.walk true links directory legs = .ok ⟨location, some .directory⟩ ->
        tree.descend followLast location more = tree.descend followLast location more') :
      tree.walk followLast links directory (legs ++ more) =
        tree.walk followLast links directory (legs ++ more') := by
    refine walk_congr ?_
    rw [descend_append followLast directory legs filled,
      descend_append followLast directory legs filled']
    cases way : tree.descend true directory legs with
    | arrived place =>
      obtain ⟨location, entry⟩ := place
      match entry with
      | some .directory => exact same location (by rw [walk, way])
      | some (.file _ _) | some (.link _) | none => rfl
    | blocked cause => rfl
    | linked reached target rest => exact absurd way (unlinked reached target rest)
  induction links generalizing directory legs with
  | zero =>
    cases way : tree.descend true directory legs with
    | arrived place => exact straight (by simp [way]) same
    | blocked cause => exact straight (by simp [way]) same
    | linked reached target rest =>
      rw [walk, walk, descend_append followLast directory legs filled,
        descend_append followLast directory legs filled', way]
  | succ fewer ih =>
    cases way : tree.descend true directory legs with
    | arrived place => exact straight (by simp [way]) same
    | blocked cause => exact straight (by simp [way]) same
    | linked reached target rest =>
      rw [walk, walk, descend_append followLast directory legs filled,
        descend_append followLast directory legs filled', way]
      dsimp only
      rw [← List.append_assoc, ← List.append_assoc]
      refine ih fun location arrives => same location ?_
      rw [walk, way]
      exact arrives

/-- To stay at the end asks for a directory. -/
theorem walk_stay_iff {links : Nat} {directory location : Location} {legs : List Leg} :
    tree.walk true links directory (legs ++ [.stay]) = .ok ⟨location, some .directory⟩ ↔
      tree.walk true links directory legs = .ok ⟨location, some .directory⟩ := by
  have stays (fewer : Nat) (reached : Location) :
      tree.walk true fewer reached [.stay] = .ok ⟨reached, some .directory⟩ := by
    cases fewer <;> rfl
  constructor
  · intro found
    obtain ⟨reached, arrives⟩ := exists_walk_of_append (by simp) found
    obtain ⟨fewer, -, same⟩ := exists_walk_append true (by simp : [Leg.stay] ≠ []) arrives
    rw [same, stays] at found
    rwa [← found]
  · intro found
    obtain ⟨fewer, -, same⟩ := exists_walk_append true (by simp : [Leg.stay] ≠ []) found
    rw [same, stays]

/-- Whether names lead to a directory from the root, and the last of them is not one of a link. -/
def IsPlainDirectory (tree : Tree) (names : List String) : Prop :=
  ∃ location, tree.walk false linkLimit [] (names.map .down) = .ok ⟨location, some .directory⟩

/-- Whether every `..` on a way leaves a directory that is named without a link, as the way is
written from `names` on. -/
def Climbs (tree : Tree) (names : List String) : List Leg -> Prop
  | [] => True
  | .up :: rest => tree.IsPlainDirectory names ∧ tree.Climbs names.dropLast rest
  | leg :: rest => tree.Climbs (leg.follow names) rest

/-- Names that end at an entry lead to the directory that holds it. -/
theorem exists_holder_of_walk {links : Nat} {directory location : Location} {outer : List Leg}
    {name : String} {entry : Option Entry}
    (found : tree.walk false links directory (outer ++ [.down name]) = .ok ⟨location, entry⟩) :
    ∃ holder, tree.walk true links directory outer = .ok ⟨holder, some .directory⟩ ∧
      ¬nameLimit < Name.size name ∧ location = holder ++ [name] ∧
      tree.lookup location = entry := by
  have last : [Leg.down name] ≠ [] := by simp
  obtain ⟨holder, arrives⟩ := exists_walk_of_append last found
  obtain ⟨fewer, -, same⟩ := exists_walk_append false last arrives
  rw [same, walk_down fewer (.inl rfl)] at found
  split at found
  · cases found
  · rename_i fits
    obtain ⟨rfl, there⟩ := Place.mk.inj (Except.ok.inj found)
    exact ⟨holder, arrives, fits, rfl, there⟩

theorem Climbs.left {names : List String} {legs more : List Leg}
    (climbs : tree.Climbs names (legs ++ more)) : tree.Climbs names legs := by
  induction legs generalizing names with
  | nil => trivial
  | cons leg legs ih =>
    cases leg with
    | stay => exact ih climbs
    | up => exact ⟨climbs.1, ih climbs.2⟩
    | down name => exact ih climbs

/-- To go into a plain directory and out again is to stay. -/
theorem IsPlainDirectory.walk_up {names : List String} (plain : tree.IsPlainDirectory names)
    (followLast : Bool) {more : List Leg} (filled : more ≠ []) :
    tree.walk followLast linkLimit [] (names.map .down ++ .up :: more) =
      tree.walk followLast linkLimit [] (names.dropLast.map .down ++ more) := by
  rcases List.eq_nil_or_concat names with rfl | ⟨outer, name, rfl⟩
  · exact walk_congr rfl
  · rw [List.concat_eq_append] at plain ⊢
    obtain ⟨place, found⟩ := plain
    rw [List.map_append, List.map_singleton] at found
    rw [List.dropLast_concat, List.map_append, List.map_singleton, List.append_assoc,
      List.singleton_append]
    obtain ⟨holder, held, fits, rfl, there⟩ := exists_holder_of_walk found
    refine walk_append_congr (by simp) filled fun location arrives => ?_
    obtain ⟨rfl, -⟩ := Place.mk.inj (walk_unique held arrives)
    rw [descend, if_neg fits]
    dsimp only
    rw [there]
    dsimp only
    rw [descend, List.dropLast_concat]

/-- A way that goes on can be folded up to there. -/
theorem Climbs.walk {names : List String} {legs : List Leg} (climbs : tree.Climbs names legs)
    (followLast : Bool) {more : List Leg} (filled : more ≠ []) :
    tree.walk followLast linkLimit [] (names.map .down ++ (legs ++ more)) =
      tree.walk followLast linkLimit [] ((legs.foldl Leg.follow names).map .down ++ more) := by
  induction legs generalizing names with
  | nil => rfl
  | cons leg legs ih =>
    have onward : legs ++ more ≠ [] := by simp [filled]
    cases leg with
    | stay =>
      refine Eq.trans (walk_append_congr (by simp) onward fun _ _ => rfl) ?_
      exact ih climbs
    | up =>
      rw [List.cons_append, climbs.1.walk_up followLast onward]
      exact ih climbs.2
    | down name =>
      have ih := @ih (names ++ [name]) climbs
      rw [List.map_append, List.map_singleton, List.append_assoc] at ih
      exact ih

/-- A way leads to a directory exactly if it does when it is folded. -/
theorem Climbs.walk_directory_iff {names : List String} {legs : List Leg} {location : Location}
    (climbs : tree.Climbs names legs) :
    tree.walk true linkLimit [] (names.map .down ++ legs) = .ok ⟨location, some .directory⟩ ↔
      tree.walk true linkLimit [] ((legs.foldl Leg.follow names).map .down) =
        .ok ⟨location, some .directory⟩ := by
  rw [← walk_stay_iff, List.append_assoc, climbs.walk true (by simp), walk_stay_iff]

/-! ## Links at the end of a way -/

theorem descend_false_cases (tree : Tree) (directory : Location) (legs : List Leg) :
    tree.descend false directory legs = tree.descend true directory legs ∨
      ∃ reached name target, tree.descend false directory legs =
          .arrived ⟨reached ++ [name], some (.link target)⟩ ∧
        tree.descend true directory legs = .linked reached target [] := by
  induction legs generalizing directory with
  | nil => exact .inl rfl
  | cons leg legs ih =>
    cases leg with
    | stay => exact ih directory
    | up => exact ih directory.dropLast
    | down name =>
      rw [descend, descend]
      by_cases long : nameLimit < Name.size name
      · rw [if_pos long, if_pos long]
        exact .inl rfl
      · rw [if_neg long, if_neg long]
        dsimp only
        cases found : tree.lookup (directory ++ [name]) with
        | none => exact .inl rfl
        | some entry =>
          cases entry with
          | directory => exact ih _
          | file content executable => exact .inl rfl
          | link target =>
            cases legs with
            | nil => exact .inr ⟨directory, name, target, rfl, rfl⟩
            | cons next legs => exact .inl rfl

variable {links : Nat} {directory location : Location} {legs : List Leg}

/-- A way to a directory leads there, or to a link that leads there. -/
theorem walk_false_of_directory
    (found : tree.walk true links directory legs = .ok ⟨location, some .directory⟩) :
    tree.walk false links directory legs = .ok ⟨location, some .directory⟩ ∨
      ∃ place target, tree.walk false links directory legs = .ok ⟨place, some (.link target)⟩ := by
  replace found := trail_of_walk found
  induction found with
  | @arrived links directory legs way =>
    rcases tree.descend_false_cases directory legs with same | ⟨reached, name, target, ends, -⟩
    · exact .inl (walk_arrived (same.trans way))
    · exact .inr ⟨_, target, walk_arrived ends⟩
  | @linked fewer directory reached legs rest target way _ ih =>
    rcases tree.descend_false_cases directory legs with same | ⟨reached, name, target, ends, -⟩
    · rw [walk_linked (same.trans way)]
      exact ih
    · exact .inr ⟨_, target, walk_arrived ends⟩

/-- A way to a directory that is not a link leads there when links are followed. -/
theorem walk_true_of_directory
    (found : tree.walk false links directory legs = .ok ⟨location, some .directory⟩) :
    tree.walk true links directory legs = .ok ⟨location, some .directory⟩ := by
  replace found := trail_of_walk found
  induction found with
  | @arrived links directory legs way =>
    rcases tree.descend_false_cases directory legs with same | ⟨reached, name, target, ends, -⟩
    · exact walk_arrived (same.symm.trans way)
    · rw [ends] at way
      cases way
  | @linked fewer directory reached legs rest target way _ ih =>
    rcases tree.descend_false_cases directory legs with same | ⟨reached, name, target, ends, -⟩
    · rw [walk_linked (same.symm.trans way)]
      exact ih
    · rw [ends] at way
      cases way

/-- Only a way that ends in a name leads to a link. -/
theorem exists_down_of_link {target : Path}
    (found : tree.walk false links directory legs = .ok ⟨location, some (.link target)⟩) :
    ∃ front name, legs = front ++ [.down name] := by
  have turned {fewer : Nat} {reached reached' : Location} {last : Leg}
      (goes : tree.descend false reached [last] = .arrived ⟨reached', some .directory⟩) :
      tree.walk false fewer reached [last] ≠ .ok ⟨location, some (.link target)⟩ := by
    cases fewer <;> rw [walk, goes] <;> simp
  rcases List.eq_nil_or_concat legs with rfl | ⟨front, last, rfl⟩
  · unfold walk at found
    cases found
  · rw [List.concat_eq_append] at found ⊢
    obtain ⟨reached, arrives⟩ := exists_walk_of_append (by simp) found
    obtain ⟨fewer, -, same⟩ := exists_walk_append false (by simp : [last] ≠ []) arrives
    rw [same] at found
    cases last with
    | stay => exact absurd found (turned rfl)
    | up => exact absurd found (turned rfl)
    | down name => exact ⟨front, name, rfl⟩

/-- Once what names end at is gone, they lead to nothing. -/
theorem walk_of_gone {tree' : Tree} {outer : List Leg} {name : String} {entry : Option Entry}
    {entry' : Entry} {place : Location} (ground : tree'.IsGroundOf tree)
    (found : tree.walk false links directory (outer ++ [.down name]) = .ok ⟨location, entry⟩)
    (gone : tree'.lookup location = none) :
    tree'.walk true links directory (outer ++ [.down name]) ≠ .ok ⟨place, some entry'⟩ := by
  intro found'
  have last : [Leg.down name] ≠ [] := by simp
  obtain ⟨holder, held, -, rfl, -⟩ := exists_holder_of_walk found
  obtain ⟨holder', held'⟩ := exists_walk_of_append last found'
  obtain ⟨rfl, -⟩ := Place.mk.inj (walk_unique held (ground.walk held'))
  obtain ⟨fewer, -, same⟩ := exists_walk_append true last held'
  rw [same] at found'
  obtain ⟨-, there, here⟩ := exists_entry_of_walk found'
  rw [gone] at here
  cases here

end Tree
end Relink
