import Relink.Proofs.Tree.Descent

/-!
# Trees in which only files change

When a tree changes in its files only, every way that led to a directory still does, through the
same links. Where no link lies below a directory, a way from there goes by its names alone.
-/

namespace Relink.Tree

variable {tree tree' : Tree}

/-! ## What lies where -/

/-- The locations of a tree's entries. -/
def locations (tree : Tree) : List Location :=
  tree.entries.map Prod.fst

theorem mem_locations {location : Location} :
    location ∈ tree.locations ↔ ∃ place ∈ tree.entries, place.1 = location :=
  List.mem_map

/-- A location of the tree holds something. -/
theorem lookup_isSome_of_mem {location : Location} (member : location ∈ tree.locations) :
    (tree.lookup location).isSome = true := by
  obtain ⟨⟨known, entry⟩, inside, rfl⟩ := mem_locations.1 member
  rw [lookup]
  split
  · rfl
  · rw [List.lookup_isSome_iff]
    exact ⟨_, inside, by simp⟩

/-- What is found at a location is an entry of the tree. -/
theorem mem_entries_of_lookup {location : Location} {entry : Entry} (filled : location ≠ [])
    (found : tree.lookup location = some entry) : (location, entry) ∈ tree.entries := by
  rw [lookup, if_neg filled] at found
  obtain ⟨before, after, shape, -⟩ := List.lookup_eq_some_iff.1 found
  rw [shape]
  simp

/-- What holds something is a location of the tree, unless it is the root. -/
theorem mem_of_lookup {location : Location} {entry : Entry} (filled : location ≠ [])
    (found : tree.lookup location = some entry) : location ∈ tree.locations :=
  mem_locations.2 ⟨(location, entry), mem_entries_of_lookup filled found, rfl⟩

/-- Erasing takes one location out. -/
theorem locations_erase (location : Location) :
    (tree.erase location).locations = tree.locations.filter (· != location) := by
  rw [locations, erase, locations, List.filter_map]
  rfl

/-- What is kept is found, where what lies there is kept or not by its location. -/
theorem lookup_filter (keeps : Location -> Bool) (other : Location)
    (entries : List (Location × Entry)) :
    (entries.filter fun place => keeps place.1).lookup other =
      if keeps other then entries.lookup other else none := by
  induction entries with
  | nil => simp
  | cons first rest ih =>
    obtain ⟨known, entry⟩ := first
    by_cases here : other = known
    · subst here
      by_cases kept : keeps other = true
      · rw [List.filter_cons_of_pos (by exact kept), List.lookup_cons, List.lookup_cons, beq_self_eq_true,
          if_pos kept]
      · rw [List.filter_cons_of_neg (by exact kept), ih, if_neg kept, if_neg kept]
    · by_cases kept : keeps known = true
      · rw [List.filter_cons_of_pos (by exact kept), List.lookup_cons, List.lookup_cons,
          beq_false_of_ne here]
        exact ih
      · rw [List.filter_cons_of_neg (by exact kept), List.lookup_cons, beq_false_of_ne here]
        exact ih

/-- Erasing leaves what is at the other locations. -/
theorem lookup_erase {location : Location} (other : Location) (filled : location ≠ []) :
    (tree.erase location).lookup other =
      if other = location then none else tree.lookup other := by
  by_cases top : other = []
  · subst top
    rw [if_neg (Ne.symm filled), lookup, if_pos rfl, lookup, if_pos rfl]
  · rw [lookup, if_neg top, lookup, if_neg top]
    refine (lookup_filter (· != location) other tree.entries).trans ?_
    by_cases here : other = location <;> simp [here]

theorem map_setEntry (location : Location) (entry : Entry) (entries : List (Location × Entry)) :
    (setEntry location entry entries).map Prod.fst =
      if location ∈ entries.map Prod.fst then entries.map Prod.fst
      else entries.map Prod.fst ++ [location] := by
  induction entries with
  | nil => simp [setEntry]
  | cons first rest ih =>
    obtain ⟨known, old⟩ := first
    rw [setEntry]
    by_cases here : known = location
    · subst here
      simp
    · rw [if_neg here, List.map_cons, ih]
      by_cases later : location ∈ rest.map Prod.fst
      · simp [later]
      · simp only [if_neg later, List.map_cons, List.mem_cons, Ne.symm here, false_or]
        rfl

/-- Setting an entry leaves the order, and puts a location that is new last. -/
theorem locations_set (location : Location) (entry : Entry) :
    (tree.set location entry).locations =
      if location ∈ tree.locations then tree.locations else tree.locations ++ [location] :=
  map_setEntry location entry tree.entries

/-- The entry that is set last is the one that stays. -/
theorem setEntry_setEntry (location : Location) (entry entry' : Entry)
    (entries : List (Location × Entry)) :
    setEntry location entry' (setEntry location entry entries) =
      setEntry location entry' entries := by
  induction entries with
  | nil => simp [setEntry]
  | cons first rest ih =>
    obtain ⟨known, old⟩ := first
    by_cases here : known = location
    · simp [setEntry, here]
    · simp [setEntry, here, ih]

/-- Of two entries that are put at a location, the later one stays. -/
theorem set_set (location : Location) (entry entry' : Entry) :
    (tree.set location entry).set location entry' = tree.set location entry' := by
  rw [set, set, set, setEntry_setEntry]

/-- Setting an entry leaves the entries of the other locations. -/
theorem filter_setEntry (location : Location) (entry : Entry)
    (entries : List (Location × Entry)) :
    (setEntry location entry entries).filter (fun (known, _) => known != location) =
      entries.filter fun (known, _) => known != location := by
  induction entries with
  | nil => simp [setEntry]
  | cons first rest ih =>
    obtain ⟨known, old⟩ := first
    by_cases here : known = location
    · simp [setEntry, here]
    · simp [setEntry, here, ih]

/-- What was put at a location is gone when the location is erased. -/
theorem erase_set (location : Location) (entry : Entry) :
    (tree.set location entry).erase location = tree.erase location := by
  rw [erase, erase, set, filter_setEntry]

/-- A tree in which nothing lies at a location is not changed by erasing it. -/
theorem erase_of_lookup {location : Location} (nothing : tree.lookup location = none) :
    tree.erase location = tree := by
  have absent : ∀ place ∈ tree.entries, (place.1 != location) = true := by
    intro place member
    rw [bne_iff_ne]
    rintro rfl
    have there := lookup_isSome_of_mem (mem_locations.2 ⟨place, member, rfl⟩)
    rw [nothing] at there
    cases there
  exact congrArg Tree.mk (List.filter_eq_self.2 absent)

/-! ## Ways in a tree that keeps its directories and links -/

/-- Every directory and link of a tree is where it was, and where a file was nothing else is. -/
structure Keeps (tree tree' : Tree) : Prop where
  stays : ∀ {location : Location} {entry : Entry}, tree.lookup location = some entry ->
    entry.isFile = false -> tree'.lookup location = some entry
  files : ∀ {location : Location} {entry : Entry}, tree.lookup location = some entry ->
    entry.isFile = true ->
      tree'.lookup location = none ∨ ∃ entry', tree'.lookup location = some entry' ∧
        entry'.isFile = true

/-- A way that led to an entry or to a link. -/
inductive Reaches : Descent -> Prop
  | arrived (location : Location) (entry : Entry) : Reaches (.arrived ⟨location, some entry⟩)
  | linked (directory : Location) (target : Path) (rest : List Leg) :
      Reaches (.linked directory target rest)

/-- What was reached, as it is in another tree: a file may have changed. -/
def within (tree' : Tree) : Place -> Place
  | ⟨location, some (.file _ _)⟩ => ⟨location, tree'.lookup location⟩
  | place => place

/-- Trees that agree on what is reached are descended alike. -/
theorem Keeps.descend (keeps : Keeps tree tree') {followLast : Bool} {directory : Location}
    {legs : List Leg} (reaches : Reaches (tree.descend followLast directory legs)) :
    tree'.descend followLast directory legs =
      match tree.descend followLast directory legs with
      | .arrived place => .arrived (tree'.within place)
      | other => other := by
  -- Directories and links are the same in both trees, so the descents part at a last file only.
  induction legs generalizing directory with
  | nil => rfl
  | cons leg legs ih =>
    cases leg with
    | stay => exact ih reaches
    | up => exact ih reaches
    | down name =>
      rw [Tree.descend] at reaches ⊢
      rw [Tree.descend]
      by_cases long : nameLimit < Name.size name
      · rw [if_pos long] at reaches
        cases reaches
      · rw [if_neg long] at reaches ⊢
        rw [if_neg long]
        dsimp only at reaches ⊢
        cases found : tree.lookup (directory ++ [name]) with
        | none =>
          rw [found] at reaches
          cases legs <;> cases reaches
        | some entry =>
          rw [found] at reaches
          cases entry with
          | directory =>
            rw [keeps.stays found rfl]
            exact ih reaches
          | file content executable =>
            dsimp only at reaches ⊢
            cases legs with
            | cons leg legs => cases reaches
            | nil =>
              rcases keeps.files found rfl with none_ | ⟨entry, found', isFile⟩
              · rw [none_]
                simp [within, none_]
              · cases entry with
                | directory => cases isFile
                | link target => cases isFile
                | file content' executable' =>
                  rw [found']
                  simp [within, found']
          | link target =>
            rw [keeps.stays found rfl]
            dsimp only
            split <;> rfl

/-- A way that led to an entry leads to the same location. -/
theorem Keeps.walk (keeps : Keeps tree tree') {followLast : Bool} {links : Nat}
    {directory location : Location} {legs : List Leg} {entry : Entry}
    (found : tree.walk followLast links directory legs = .ok ⟨location, some entry⟩) :
    tree'.walk followLast links directory legs =
      .ok (tree'.within ⟨location, some entry⟩) := by
  replace found := trail_of_walk found
  induction found with
  | @arrived links directory legs way =>
    have reaches : Reaches (tree.descend followLast directory legs) :=
      way ▸ .arrived location entry
    have same := keeps.descend reaches
    rw [way] at same
    exact walk_arrived same
  | @linked fewer directory reached legs rest target way _ ih =>
    have reaches : Reaches (tree.descend followLast directory legs) := way ▸ .linked ..
    have same := keeps.descend reaches
    rw [way] at same
    rw [walk_linked same, ih]

/-- What a path names in a tree that keeps its directories and links. -/
theorem Keeps.status (keeps : Keeps tree tree') {base location : Location} {path : Path}
    {entry : Entry} (found : tree.status base path = .ok (location, entry)) :
    tree'.resolve base true path = .ok (tree'.within ⟨location, some entry⟩) := by
  rw [status_eq_ok_iff] at found
  unfold resolve at found ⊢
  split at found
  · cases found
  · rename_i filled
    split at found
    · cases found
    · rename_i short
      rw [if_neg filled, if_neg short]
      exact keeps.walk found

/-! ## Directories below which no link lies -/

/-- Whether no link lies below a location. -/
def LinkFree (tree : Tree) (base : Location) : Prop :=
  ∀ names target, names ≠ [] -> tree.lookup (base ++ names) ≠ some (.link target)

/-- No link lies anywhere in a tree whose entries are directories and files. -/
theorem linkFree_of_entries (none_ : ∀ place ∈ tree.entries, ∀ target, place.2 ≠ .link target)
    (base : Location) : tree.LinkFree base := by
  intro names target filled found
  exact none_ _ (mem_entries_of_lookup (by simp [filled]) found) target rfl

/-- No link lies below a location if every entry there is a directory or a file. -/
theorem linkFree_of_entriesBelow {base : Location}
    (solid : ∀ place ∈ tree.entries, isBelow base place.1 = true ->
      (place.2.isDirectory || place.2.isFile) = true) : tree.LinkFree base := by
  intro names target filled found
  have isBelow_eq : isBelow base (base ++ names) = true := by
    simp [isBelow, filled]
  have impossible := solid _ (mem_entries_of_lookup (by simp [filled]) found) isBelow_eq
  cases impossible

/-- What is below a location without links has none. -/
theorem LinkFree.below {base : Location} (free : tree.LinkFree base) (inner : Location) :
    tree.LinkFree (base ++ inner) := by
  intro names target filled
  rw [List.append_assoc]
  exact free (inner ++ names) target (by simp [filled])

/-- A way down from a directory without links is not turned aside. -/
theorem LinkFree.descend {base : Location} (free : tree.LinkFree base) (followLast : Bool)
    (inner names : List String) :
    (∃ cause, tree.descend followLast (base ++ inner) (names.map .down) = .blocked cause) ∨
      tree.descend followLast (base ++ inner) (names.map .down) =
        .arrived ⟨base ++ inner ++ names,
          if names = [] then some .directory else tree.lookup (base ++ inner ++ names)⟩ := by
  -- The descent stays below `base`, where it meets no link.
  induction names generalizing inner with
  | nil =>
    right
    rw [List.append_nil]
    rfl
  | cons name names ih =>
    rw [List.map_cons, Tree.descend]
    by_cases long : nameLimit < Name.size name
    · rw [if_pos long]
      exact .inl ⟨_, rfl⟩
    · rw [if_neg long]
      dsimp only
      cases found : tree.lookup (base ++ inner ++ [name]) with
      | none =>
        rw [List.append_assoc] at found
        cases names with
        | nil => exact .inr (by simp [found])
        | cons next names => exact .inl ⟨_, rfl⟩
      | some entry =>
        rw [List.append_assoc] at found
        cases entry with
        | directory =>
          have later := ih (inner ++ [name])
          rw [← List.append_assoc] at later
          dsimp only
          rcases later with blocked | arrived
          · exact .inl blocked
          · refine .inr ?_
            rw [arrived]
            cases names with
            | nil => simp [found]
            | cons next names => simp
        | file content executable =>
          cases names with
          | nil => exact .inr (by simp [found])
          | cons next names => exact .inl ⟨_, rfl⟩
        | link target =>
          exact absurd found (free (inner ++ [name]) target (by simp))

/-- What the path of a location below such a directory names. -/
theorem LinkFree.resolve {base out : Location} {outer inner : List String}
    (free : tree.LinkFree out) (areNames : AreNames (outer ++ inner)) (filled : inner ≠ [])
    (reached : tree.status base (Location.path outer) = .ok (out, .directory))
    (followLast : Bool) :
    (∃ cause, tree.resolve base followLast (Location.path (outer ++ inner)) = .error cause) ∨
      tree.resolve base followLast (Location.path (outer ++ inner)) =
        .ok ⟨out ++ inner, tree.lookup (out ++ inner)⟩ := by
  rw [status_eq_ok_iff, resolve_path base true areNames.left] at reached
  split at reached
  · cases reached
  · rw [resolve_path base followLast areNames]
    split
    · exact .inl ⟨_, rfl⟩
    · obtain ⟨fewer, -, same⟩ := exists_walk_append followLast
          (by simpa using filled : inner.map Leg.down ≠ []) reached
      rw [List.map_append, same]
      have way := free.descend followLast [] inner
      rw [List.append_nil, if_neg filled] at way
      rcases way with ⟨cause, blocked⟩ | arrived
      · refine .inl ⟨cause, ?_⟩
        cases fewer <;> rw [walk, blocked]
      · refine .inr ?_
        cases fewer <;> rw [walk, arrived]

end Relink.Tree
