import Relink.Proofs.Tree.Descent

/-!
# What a way looks at

On its way a path looks up one location after the other, and what it names depends on them alone:
in any two trees that hold the same there, the way leads to the same place. A directory that it
leads to is one of them, or lies above one, or above where the way began.
-/

namespace Relink.Tree

variable {tree tree' : Tree}

/-- The locations that a way looks up before a link changes it. -/
def stopsBefore (tree : Tree) (directory : Location) : List Leg -> List Location
  | [] => []
  | .stay :: rest => tree.stopsBefore directory rest
  | .up :: rest => tree.stopsBefore directory.dropLast rest
  | .down name :: rest =>
    if nameLimit < Name.size name then []
    else
      let location := directory ++ [name]
      location ::
        if tree.lookup location = some .directory then tree.stopsBefore location rest else []

/-- The locations that a way looks up, through at most `links` links. -/
def stops (tree : Tree) (followLast : Bool) (links : Nat) (directory : Location)
    (legs : List Leg) : List Location :=
  tree.stopsBefore directory legs ++
    match tree.descend followLast directory legs with
    | .arrived _ | .blocked _ => []
    | .linked reached target rest =>
      match links with
      | 0 => []
      | fewer + 1 =>
        tree.stops followLast fewer (if target.isAbsolute then [] else reached) (target.legs ++ rest)

/-- The locations that are looked up to find what a path names. -/
def stopsOf (tree : Tree) (base : Location) (followLast : Bool) (path : Path) : List Location :=
  tree.stops followLast linkLimit (if path.isAbsolute then [] else base) path.legs

theorem descend_congr (followLast : Bool) {directory : Location} {legs : List Leg}
    (same : ∀ stop ∈ tree.stopsBefore directory legs, tree'.lookup stop = tree.lookup stop) :
    tree'.descend followLast directory legs = tree.descend followLast directory legs := by
  induction legs generalizing directory with
  | nil => rfl
  | cons leg legs ih =>
    cases leg with
    | stay => exact ih same
    | up => exact ih same
    | down name =>
      rw [stopsBefore] at same
      rw [descend, descend]
      by_cases long : nameLimit < Name.size name
      · rw [if_pos long, if_pos long]
      · rw [if_neg long] at same
        obtain ⟨here, later⟩ := List.forall_mem_cons.1 same
        rw [if_neg long, if_neg long]
        dsimp only
        rw [here]
        cases found : tree.lookup (directory ++ [name]) with
        | none => rfl
        | some entry =>
          cases entry with
          | directory => exact ih (by rwa [if_pos found] at later)
          | file content executable => rfl
          | link target => rfl

/-- A way leads to the same place in a tree that holds the same wherever the way looks. -/
theorem walk_of_stops {followLast : Bool} {links : Nat} {directory : Location} {legs : List Leg}
    (same : ∀ stop ∈ tree.stops followLast links directory legs,
      tree'.lookup stop = tree.lookup stop) :
    tree'.walk followLast links directory legs = tree.walk followLast links directory legs := by
  induction links generalizing directory legs with
  | zero =>
    rw [stops] at same
    rw [walk, walk, descend_congr followLast (List.forall_mem_append.1 same).1]
  | succ fewer ih =>
    rw [stops] at same
    obtain ⟨before, after⟩ := List.forall_mem_append.1 same
    rw [walk, walk, descend_congr followLast before]
    cases way : tree.descend followLast directory legs with
    | arrived place => rfl
    | blocked cause => rfl
    | linked reached target rest =>
      rw [way] at after
      exact ih after

/-- A path names the same in a tree that holds the same wherever its way looks. -/
theorem resolve_of_stops {base : Location} {followLast : Bool} {path : Path}
    (same : ∀ stop ∈ tree.stopsOf base followLast path, tree'.lookup stop = tree.lookup stop) :
    tree'.resolve base followLast path = tree.resolve base followLast path := by
  unfold resolve
  rw [walk_of_stops same]

/-! ## Directories that a way leads to -/

/-- The directory that a way leads to, or that it leads to before a link. -/
def Descent.ground? : Descent -> Option Location
  | .arrived ⟨location, some .directory⟩ => some location
  | .linked directory _ _ => some directory
  | _ => none

variable {holds : Location -> Prop}

/-- What holds of the directory where a way begins, of those that it looks up, and of those above
them, holds of the directory that it leads to. -/
theorem ground_of_descend {directory ground : Location} {legs : List Leg} (begins : holds directory)
    (up : ∀ location, holds location -> holds location.dropLast)
    (down : ∀ stop ∈ tree.stopsBefore directory legs, tree.lookup stop = some .directory ->
      holds stop)
    (leads : Descent.ground? (tree.descend true directory legs) = some ground) : holds ground := by
  induction legs generalizing directory with
  | nil =>
    obtain rfl := Option.some.inj leads
    exact begins
  | cons leg legs ih =>
    cases leg with
    | stay => exact ih begins down leads
    | up => exact ih (up directory begins) down leads
    | down name =>
      rw [stopsBefore] at down
      rw [descend] at leads
      split at leads
      · cases leads
      · rename_i fits
        rw [if_neg fits] at down
        obtain ⟨here, later⟩ := List.forall_mem_cons.1 down
        dsimp only at leads
        split at leads
        · split at leads <;> cases leads
        · rename_i there
          exact ih (here there) (by rwa [if_pos there] at later) leads
        · split at leads <;> cases leads
        · rw [Bool.not_true, Bool.and_false, if_neg (by decide)] at leads
          obtain rfl := Option.some.inj leads
          exact begins

/-- What holds of the root as well holds of the directory that a way through links leads to. -/
theorem ground_of_walk {links : Nat} {directory location : Location} {legs : List Leg}
    (root : holds []) (begins : holds directory)
    (up : ∀ location, holds location -> holds location.dropLast)
    (down : ∀ stop ∈ tree.stops true links directory legs, tree.lookup stop = some .directory ->
      holds stop)
    (leads : tree.walk true links directory legs = .ok ⟨location, some .directory⟩) :
    holds location := by
  -- Every link is followed from the root or from where the walk was, and both are good ground.
  replace leads := trail_of_walk leads
  induction leads with
  | arrived way =>
    unfold stops at down
    exact ground_of_descend begins up (List.forall_mem_append.1 down).1 (by rw [way]; rfl)
  | linked way _ ih =>
    rw [stops, way] at down
    obtain ⟨before, after⟩ := List.forall_mem_append.1 down
    refine ih ?_ after
    split
    · exact root
    · exact ground_of_descend begins up before (by rw [way]; rfl)

end Relink.Tree
