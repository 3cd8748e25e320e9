import Mathlib.Data.List.TakeWhile
import Relink.Proofs.Host.Writing
import Relink.Proofs.Path.Below
import Relink.Proofs.Tree.Putting

/-!
# Where temporary files lie

The path of a temporary file ends in its name, whatever the path of the target is, so that the
file lies in the directory that the way before the name leads to. That directory stays the same
in every tree that keeps the directories and links of another one.
-/

namespace Relink

/-! ## The way of a temporary path -/

/-- A segment that leads down is a name. -/
theorem Component.ofSegment?_of_leg {segment : List Char} {name : String}
    (goes : Leg.ofSegment segment = .down name) : ofSegment? segment = some (.name name) := by
  unfold Leg.ofSegment at goes
  split at goes
  · cases goes
  · cases goes
  · cases goes
  · rename_i empty current parent
    obtain rfl := Leg.down.inj goes
    unfold ofSegment?
    split
    · exact absurd rfl empty
    · exact absurd rfl current
    · exact absurd rfl parent
    · rfl

/-- A text that is longer than `..` leads down. -/
theorem Leg.ofSegment_long {segment : List Char} (long : 2 < segment.length) :
    Leg.ofSegment segment = .down (String.ofList segment) := by
  unfold Leg.ofSegment
  split
  · exact absurd long (by decide)
  · exact absurd long (by decide)
  · exact absurd long (by decide)
  · rfl

namespace Path

/-- The name that a path ends in is one. -/
theorem isName_of_fileName? {path : Path} {name : String} (named : path.fileName? = some name) :
    IsName name := by
  have last : path.components.getLast? = some (.name name) := by
    unfold fileName? at named
    split at named
    · rename_i text found
      rw [found, Option.some.inj named]
    · cases named
  have member := List.mem_of_getLast? last
  rw [components, List.mem_append] at member
  rcases member with atFront | after
  · unfold front at atFront
    split at atFront
    · simp at atFront
    · split at atFront <;> simp at atFront
  · rcases of_mem_parts after with impossible | ⟨name', same, isName⟩
    · cases impossible
    · obtain rfl := Component.name.inj same
      exact isName

/-- The name that the split of a path ends in is the file name of the path. -/
theorem fileName?_of_split {path : Path} {legs : List Leg} {name : String} {slashed : Bool}
    (split : path.split = (legs, .name name slashed)) : path.fileName? = some name := by
  unfold Path.split at split
  dsimp only at split
  generalize trimmed_eq : (path.segments.reverse.dropWhile List.isEmpty).reverse = trimmed at split
  -- The segments that are trimmed mean nothing, so that the last one left is the last component.
  have blank : path.segments.filterMap Component.ofSegment? =
      trimmed.filterMap Component.ofSegment? := by
    have whole := @List.takeWhile_append_dropWhile _ List.isEmpty path.segments.reverse
    have segments_eq : path.segments =
        trimmed ++ (path.segments.reverse.takeWhile List.isEmpty).reverse := by
      rw [← trimmed_eq, ← List.reverse_append, whole, List.reverse_reverse]
    have none_ : ((path.segments.reverse.takeWhile List.isEmpty).reverse).filterMap
        Component.ofSegment? = [] := by
      rw [List.filterMap_eq_nil_iff]
      intro segment member
      have empty := List.mem_takeWhile_imp (List.mem_reverse.1 member)
      rw [List.isEmpty_iff.1 empty]
      rfl
    conv_lhs => rw [segments_eq]
    rw [List.filterMap_append, none_, List.append_nil]
  rcases List.eq_nil_or_concat trimmed with rfl | ⟨outer, last, rfl⟩
  · cases split
  · rw [List.concat_eq_append] at split blank
    rw [List.getLast?_concat] at split
    have isName : Component.ofSegment? last = some (.name name) := by
      have tail := (Prod.mk.inj split).2
      split at tail
      · cases tail
      · cases tail
      · rename_i text goes
        obtain ⟨rfl, -⟩ := Tail.name.inj tail
        exact Component.ofSegment?_of_leg goes
    rw [fileName?, components, blank, List.filterMap_append, List.filterMap_cons, isName]
    simp

/-- The way of a path that ends in a name. What follows the name asks for a directory only, and
nothing does where no slash follows. -/
theorem exists_legs_of_split {path : Path} {front : List Leg} {name : String} {slashed : Bool}
    (split : path.split = (front, .name name slashed)) :
    ∃ count, path.legs = front ++ .down name :: List.replicate count .stay ∧
      (slashed = false -> count = 0) := by
  unfold Path.split at split
  dsimp only at split
  generalize trimmed_eq : (path.segments.reverse.dropWhile List.isEmpty).reverse = trimmed at split
  generalize blanks_eq : (path.segments.reverse.takeWhile List.isEmpty).reverse = blanks
  have segments_eq : path.segments = trimmed ++ blanks := by
    rw [← trimmed_eq, ← blanks_eq, ← List.reverse_append, List.takeWhile_append_dropWhile,
      List.reverse_reverse]
  -- Slashes at the end leave empty segments, which stay where they are.
  have stays : blanks.map Leg.ofSegment = List.replicate blanks.length .stay := by
    rw [List.eq_replicate_iff, List.length_map]
    refine ⟨rfl, fun leg member => ?_⟩
    obtain ⟨segment, inside, rfl⟩ := List.mem_map.1 member
    rw [← blanks_eq, List.mem_reverse] at inside
    rw [List.isEmpty_iff.1 (List.mem_takeWhile_imp inside)]
    rfl
  refine ⟨blanks.length, ?_⟩
  rw [Path.legs, segments_eq, List.map_append, stays]
  rcases List.eq_nil_or_concat trimmed with rfl | ⟨outer, last, rfl⟩
  · cases split
  · rw [List.concat_eq_append] at split segments_eq ⊢
    rw [List.getLast?_concat, List.dropLast_concat] at split
    obtain ⟨rfl, tail⟩ := Prod.mk.inj split
    have goes : Leg.ofSegment last = .down name ∧
        ((outer ++ [last]).length != path.segments.length) = slashed := by
      split at tail
      · cases tail
      · cases tail
      · rename_i goes
        obtain ⟨rfl, slash⟩ := Tail.name.inj tail
        exact ⟨goes, slash⟩
    refine ⟨?_, fun unslashed => ?_⟩
    · rw [List.map_append, List.map_singleton, goes.1, List.append_assoc, List.singleton_append]
    · have same := goes.2.trans unslashed
      rw [bne_eq_false_iff_eq, segments_eq] at same
      simpa using same

end Path

namespace Host

theorem isName_getD_fileName? (target : Path) : IsName (target.fileName?.getD "file") := by
  cases named : target.fileName? with
  | none => exact ⟨by decide, by decide, by decide, by decide⟩
  | some name => exact Path.isName_of_fileName? named

/-- The way of a temporary path ends in the temporary name. -/
theorem exists_legs_temporaryPath (target : Path) (processId ticket : Nat) :
    ∃ front, (temporaryPath target processId ticket).legs =
      front ++ [.down (temporaryName (target.fileName?.getD "file") processId ticket)] := by
  have noSlash := (isName_getD_fileName? target).noSlash
  have long := temporaryName_long (target.fileName?.getD "file") processId ticket
  obtain ⟨outer, -, segments⟩ := Path.exists_segments_join (target.parent?.getD ⟨"."⟩)
    (noSlash_temporaryName noSlash processId ticket)
  refine ⟨outer.map Leg.ofSegment, ?_⟩
  rw [Path.legs, temporaryPath, segments, List.map_append, List.map_singleton,
    Leg.ofSegment_long long, String.ofList_toList]

end Host

/-! ## Trees that keep the ground of another one -/

namespace Tree

variable {tree tree' : Tree}

/-- Whether every directory and link of a tree is one of another tree. Its files may differ. -/
def IsGroundOf (tree tree' : Tree) : Prop :=
  ∀ {location : Location} {entry : Entry}, tree.lookup location = some entry ->
    entry.isFile = false -> tree'.lookup location = some entry

/-- A way that leads to a directory, or up to a link. -/
inductive GoesOn : Descent -> Prop
  | arrived (location : Location) : GoesOn (.arrived ⟨location, some .directory⟩)
  | linked (directory : Location) (target : Path) (rest : List Leg) :
      GoesOn (.linked directory target rest)

theorem IsGroundOf.descend (ground : tree.IsGroundOf tree') {directory : Location}
    {legs : List Leg} (goesOn : GoesOn (tree.descend true directory legs)) :
    tree'.descend true directory legs = tree.descend true directory legs := by
  induction legs generalizing directory with
  | nil => rfl
  | cons leg legs ih =>
    cases leg with
    | stay => exact ih goesOn
    | up => exact ih goesOn
    | down name =>
      rw [Tree.descend] at goesOn ⊢
      rw [Tree.descend]
      by_cases long : nameLimit < Name.size name
      · rw [if_pos long] at goesOn
        cases goesOn
      · rw [if_neg long] at goesOn ⊢
        rw [if_neg long]
        dsimp only at goesOn ⊢
        cases found : tree.lookup (directory ++ [name]) with
        | none =>
          rw [found] at goesOn
          cases legs <;> cases goesOn
        | some entry =>
          rw [found] at goesOn
          cases entry with
          | directory =>
            rw [ground found rfl]
            exact ih goesOn
          | file content executable => cases legs <;> cases goesOn
          | link target => rw [ground found rfl]

/-- A way to a directory leads to the same directory. -/
theorem IsGroundOf.walk (ground : tree.IsGroundOf tree') {links : Nat}
    {directory location : Location} {legs : List Leg}
    (found : tree.walk true links directory legs = .ok ⟨location, some .directory⟩) :
    tree'.walk true links directory legs = .ok ⟨location, some .directory⟩ := by
  replace found := trail_of_walk found
  induction found with
  | @arrived links directory legs way =>
    have goesOn : GoesOn (tree.descend true directory legs) := way ▸ .arrived location
    have same := ground.descend goesOn
    rw [way] at same
    exact walk_arrived same
  | @linked fewer directory reached legs rest target way _ ih =>
    have goesOn : GoesOn (tree.descend true directory legs) := way ▸ .linked ..
    have same := ground.descend goesOn
    rw [way] at same
    rw [walk_linked same, ih]

/-- What holds a path holds it still. -/
theorem IsGroundOf.holder (ground : tree.IsGroundOf tree') {base directory : Location}
    {path : Path} {tail : Tail} (found : tree.holder base path = .ok (directory, tail)) :
    tree'.holder base path = .ok (directory, tail) := by
  unfold Tree.holder at found ⊢
  split at found
  · cases found
  · rename_i filled
    split at found
    · cases found
    · rename_i short
      rw [if_neg filled, if_neg short]
      split at found
      · cases found
      · rename_i arrives
        rw [ground.walk arrives]
        exact found
      · cases found
      · cases found

/-! ## Paths into a directory -/

/-- Whether a path leads to a directory and then, by a name, to an entry of it. -/
structure LeadsInto (tree : Tree) (base : Location) (path : Path) (directory : Location)
    (name : String) : Prop where
  filled : path.text.isEmpty = false
  short : Name.size path.text < pathLimit
  fits : Name.size name ≤ nameLimit
  way : ∃ front, path.legs = front ++ [.down name] ∧
    tree.walk true linkLimit (if path.isAbsolute then [] else base) front =
      .ok ⟨directory, some .directory⟩

variable {base directory : Location} {path : Path} {name : String} {followLast : Bool}

/-- A path that ends in a name and is found leads into a directory by the name. -/
theorem exists_leadsInto {front : List Leg} {place : Place}
    (legs : path.legs = front ++ [.down name])
    (found : tree.resolve base followLast path = .ok place) :
    ∃ directory, tree.LeadsInto base path directory name := by
  unfold resolve at found
  split at found
  · cases found
  · rename_i filled
    split at found
    · cases found
    · rename_i short
      rw [legs] at found
      obtain ⟨directory, arrives⟩ := exists_walk_of_append (by simp) found
      obtain ⟨fewer, -, same⟩ := exists_walk_append followLast
        (by simp : [Leg.down name] ≠ []) arrives
      refine ⟨directory, by simpa using filled, by omega, ?_, front, legs, arrives⟩
      by_contra long
      have blocked : tree.descend followLast directory [.down name] = .blocked .nameTooLong := by
        rw [descend, if_pos (by omega)]
      rw [same] at found
      unfold Tree.walk at found
      rw [blocked] at found
      cases found

/-- A path that no slash ends leads into the directory that holds what it names. -/
theorem leadsInto_of_holder (held : tree.holder base path = .ok (directory, .name name false))
    (fits : Name.size name ≤ nameLimit) : tree.LeadsInto base path directory name := by
  unfold holder at held
  split at held
  · cases held
  · rename_i filled
    split at held
    · cases held
    · rename_i short
      split at held
      · cases held
      · rename_i arrives
        obtain ⟨rfl, tail⟩ := Prod.mk.inj (Except.ok.inj held)
        obtain ⟨count, legs, unslashed⟩ := Path.exists_legs_of_split (Prod.ext rfl tail)
        rw [unslashed rfl] at legs
        exact ⟨by simpa using filled, by omega, fits, _, legs, arrives⟩
      · cases held
      · cases held

/-- What a path that leads into a directory names. -/
theorem LeadsInto.resolve (leads : tree.LeadsInto base path directory name)
    (direct : followLast = false ∨
      ∀ target, tree.lookup (directory ++ [name]) ≠ some (.link target)) :
    tree.resolve base followLast path =
      .ok ⟨directory ++ [name], tree.lookup (directory ++ [name])⟩ := by
  obtain ⟨front, legs, arrives⟩ := leads.way
  obtain ⟨fewer, -, same⟩ := exists_walk_append followLast (by simp : [Leg.down name] ≠ []) arrives
  have short := leads.short
  have fits := leads.fits
  rw [Tree.resolve, leads.filled, if_neg (by decide), if_neg (by omega), legs, same,
    walk_down fewer direct, if_neg (by omega)]

/-- A path leads into one directory only. -/
theorem LeadsInto.unique {directory' : Location} {name' : String}
    (leads : tree.LeadsInto base path directory name)
    (leads' : tree.LeadsInto base path directory' name') :
    directory = directory' ∧ name = name' := by
  obtain ⟨front, legs, arrives⟩ := leads.way
  obtain ⟨front', legs', arrives'⟩ := leads'.way
  obtain ⟨rfl, last⟩ := List.append_inj' (legs.symm.trans legs') rfl
  refine ⟨(Place.mk.inj (walk_unique arrives arrives')).1, ?_⟩
  exact Leg.down.inj (List.cons.inj last).1

/-- A path leads into the same directory of a tree that keeps the ground. -/
theorem LeadsInto.of_ground (leads : tree.LeadsInto base path directory name)
    (ground : tree.IsGroundOf tree') : tree'.LeadsInto base path directory name := by
  obtain ⟨front, legs, arrives⟩ := leads.way
  exact ⟨leads.filled, leads.short, leads.fits, front, legs, ground.walk arrives⟩

/-- Whether a location is the one that a path gives a name in: the entry of that name in the
directory that holds the path. -/
def IsNamedBy (tree : Tree) (base : Location) (path : Path) (location : Location) : Prop :=
  ∃ directory name slashed, tree.holder base path = .ok (directory, .name name slashed) ∧
    location = directory ++ [name]

theorem IsNamedBy.of_ground {location : Location} (isNamed : tree.IsNamedBy base path location)
    (ground : tree.IsGroundOf tree') : tree'.IsNamedBy base path location := by
  obtain ⟨directory, name, slashed, held, rfl⟩ := isNamed
  exact ⟨directory, name, slashed, ground.holder held, rfl⟩

theorem IsNamedBy.unique {location location' : Location}
    (isNamed : tree.IsNamedBy base path location)
    (isNamed' : tree.IsNamedBy base path location') : location = location' := by
  obtain ⟨directory, name, slashed, held, rfl⟩ := isNamed
  obtain ⟨directory', name', slashed', held', rfl⟩ := isNamed'
  have same := Except.ok.inj (held.symm.trans held')
  obtain ⟨rfl, tails⟩ := Prod.mk.inj same
  rw [(Tail.name.inj tails).1]

theorem IsNamedBy.ne_nil {location : Location} (isNamed : tree.IsNamedBy base path location) :
    location ≠ [] := by
  obtain ⟨directory, name, slashed, -, rfl⟩ := isNamed
  simp

/-- The name that a path gives is its file name. -/
theorem IsNamedBy.fileName? {outer : Location} {last : String}
    (isNamed : tree.IsNamedBy base path (outer ++ [last])) : path.fileName? = some last := by
  obtain ⟨directory, name, slashed, held, shape⟩ := isNamed
  obtain rfl : last = name := (List.append_singleton_inj.1 shape).2
  have split : path.split = (path.split.1, .name last slashed) := by
    unfold Tree.holder at held
    split at held
    · cases held
    · split at held
      · cases held
      · split at held
        · cases held
        · exact Prod.ext rfl (Prod.mk.inj (Except.ok.inj held)).2
        · cases held
        · cases held
  exact Path.fileName?_of_split split

/-- A path with a visible name names no hidden location. -/
theorem IsNamedBy.not_isHidden {location : Location} (isNamed : tree.IsNamedBy base path location)
    (visible : ∀ name, path.fileName? = some name -> isHiddenName name = false) :
    ¬IsHidden location := by
  rintro ⟨outer, last, rfl, isHidden⟩
  rw [visible last isNamed.fileName?] at isHidden
  cases isHidden

/-! ## Calls on a temporary file -/

variable {location : Location} {changes : List Change}

/-- A file that is opened under a name that no entry bears is made, empty. -/
theorem createFile_inversion {front : List Leg} (legs : path.legs = front ++ [.down name])
    (free : ∀ directory, tree.LeadsInto base path directory name ->
      tree.lookup (directory ++ [name]) = none)
    (made : tree.createFile base path = .ok (tree', location, changes)) :
    ∃ directory, tree.LeadsInto base path directory name ∧ location = directory ++ [name] ∧
      tree' = tree.set location (.file ByteArray.empty false) := by
  have reached : ∃ place, tree.resolve base true path = .ok place := by
    cases found : tree.resolve base true path with
    | error cause => rw [createFile, found] at made; cases made
    | ok place => exact ⟨place, rfl⟩
  obtain ⟨place, found⟩ := reached
  obtain ⟨directory, leads⟩ := exists_leadsInto legs found
  have none_ := free directory leads
  rw [createFile, leads.resolve (.inr (by simp [none_])), none_] at made
  dsimp only at made
  split at made
  · obtain ⟨rfl, rest⟩ := Prod.mk.inj (Except.ok.inj made)
    obtain ⟨rfl, -⟩ := Prod.mk.inj rest
    exact ⟨directory, leads, rfl, rfl⟩
  · cases made

/-- Appending to a file changes that file only. -/
theorem lookup_append {content : ByteArray} {executable : Bool} (proper : location ≠ [])
    (found : tree.lookup location = some (.file content executable)) (bytes : ByteArray)
    (other : Location) :
    (tree.append location bytes).1.lookup other =
      if other = location then some (.file (content ++ bytes) executable)
      else tree.lookup other := by
  rw [append, found]
  dsimp only
  by_cases empty : bytes.isEmpty = true
  · have same : bytes = ByteArray.empty := by simpa [ByteArray.isEmpty] using empty
    rw [if_pos empty, same, ByteArray.append_empty]
    split
    · rename_i here
      rw [here, found]
    · rfl
  · rw [if_neg empty]
    exact lookup_set _ _ proper

/-- A file that is moved takes the place of what was there, which was no directory. -/
theorem moveEntry_file {origin goal : Location} {content : ByteArray} {executable : Bool}
    (apart : origin ≠ goal)
    (moved : tree.moveEntry origin (.file content executable) goal = .ok (tree', changes)) :
    tree.lookup goal ≠ some .directory ∧
      tree' = (tree.erase origin).set goal (.file content executable) := by
  unfold moveEntry at moved
  dsimp only [Entry.isDirectory] at moved
  rw [if_neg apart] at moved
  split at moved
  · cases moved
  · split at moved
    · cases moved
    · cases there : tree.lookup goal with
      | none =>
        rw [there] at moved
        exact ⟨by simp, (Prod.mk.inj (Except.ok.inj moved)).1.symm⟩
      | some entry =>
        rw [there] at moved
        cases entry with
        | directory => cases moved
        | file content' executable' =>
          exact ⟨by simp, (Prod.mk.inj (Except.ok.inj moved)).1.symm⟩
        | link target => exact ⟨by simp, (Prod.mk.inj (Except.ok.inj moved)).1.symm⟩

/-- A file that is given another name is moved to the entry that the name stands for, in the
directory that the way before the name leads to. -/
theorem rename_inversion {target : Path} {content : ByteArray} {executable : Bool}
    {front : List Leg} (legs : path.legs = front ++ [.down name])
    (found : ∀ directory, tree.LeadsInto base path directory name ->
      tree.lookup (directory ++ [name]) = some (.file content executable))
    (renamed : tree.rename base path target = .ok (tree', changes)) :
    ∃ directory outer last, tree.LeadsInto base path directory name ∧
      tree.LeadsInto base target outer last ∧ tree.IsNamedBy base target (outer ++ [last]) ∧
      tree.moveEntry (directory ++ [name]) (.file content executable) (outer ++ [last]) =
        .ok (tree', changes) := by
  unfold rename at renamed
  split at renamed
  · cases renamed
  · cases renamed
  · rename_i _ _ slashed outer last slashed' _ held
    have reached : ∃ place, tree.resolve base false path = .ok place := by
      cases resolved : tree.resolve base false path with
      | error cause => rw [resolved] at renamed; cases renamed
      | ok place => exact ⟨place, rfl⟩
    obtain ⟨place, resolved⟩ := reached
    obtain ⟨directory, leads⟩ := exists_leadsInto legs resolved
    rw [leads.resolve (.inl rfl), found directory leads] at renamed
    dsimp only at renamed
    split at renamed
    · cases renamed
    · rename_i fits
      split at renamed
      · cases renamed
      · rename_i plain
        have unslashed : slashed' = false := by
          cases slashed' with
          | false => rfl
          | true => exact absurd (by simp [Entry.isDirectory]) plain
        exact ⟨directory, outer, last, leads, leadsInto_of_holder (unslashed ▸ held) (by omega),
          ⟨outer, last, slashed', held, rfl⟩, renamed⟩
  · cases renamed

/-- A path under which an entry is removed leads into a directory. -/
theorem exists_leadsInto_of_removeFile {front : List Leg} (legs : path.legs = front ++ [.down name])
    (removed : tree.removeFile base path = .ok (tree', changes)) :
    ∃ directory, tree.LeadsInto base path directory name := by
  cases found : tree.resolve base false path with
  | error cause => rw [Tree.removeFile, found] at removed; cases removed
  | ok place => exact exists_leadsInto legs found

/-- A file is removed under its name. -/
theorem LeadsInto.removeFile {content : ByteArray} {executable : Bool}
    (leads : tree.LeadsInto base path directory name)
    (found : tree.lookup (directory ++ [name]) = some (.file content executable)) :
    ∃ changes, tree.removeFile base path = .ok (tree.erase (directory ++ [name]), changes) := by
  rw [Tree.removeFile, leads.resolve (.inl rfl), found]
  exact ⟨_, rfl⟩

end Tree
end Relink
