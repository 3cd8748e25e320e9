import Relink.Proofs.Tree.Keeping

/-!
# Trees in which files are put

A file may be put where another file is, or where a link is that leads to a file. Every way that
led to a directory still does then, and a way that led to a file leads there, or to a file that
was put on the way.
-/

namespace Relink.Tree

variable {tree tree' : Tree} {directory location place : Location} {legs : List Leg}

/-! ## Ways and the links they may take -/

/-- A way that arrives somewhere arrives there too when it may take more links. -/
theorem walk_mono {followLast : Bool} {links more : Nat} {reached : Place}
    (found : tree.walk followLast links directory legs = .ok reached) (le : links ≤ more) :
    tree.walk followLast more directory legs = .ok reached := by
  replace found := trail_of_walk found
  induction found generalizing more with
  | arrived way => exact walk_arrived way
  | linked way _ ih =>
    obtain ⟨more, rfl⟩ : ∃ other, more = other + 1 := ⟨more - 1, by omega⟩
    rw [walk_linked way]
    exact ih (Nat.le_of_succ_le_succ le)

/-- A way arrives at one place only. -/
theorem walk_unique {followLast : Bool} {links links' : Nat} {reached reached' : Place}
    (found : tree.walk followLast links directory legs = .ok reached)
    (found' : tree.walk followLast links' directory legs = .ok reached') :
    reached = reached' := by
  have both := walk_mono found (Nat.le_max_left links links')
  rw [walk_mono found' (Nat.le_max_right links links')] at both
  exact (Except.ok.inj both).symm

/-- A way goes by directories to its end, or up to a name that is not one of a directory. -/
theorem descend_cases (tree : Tree) (directory : Location) (legs : List Leg) :
    (∃ location, tree.descend true directory legs = .arrived ⟨location, some .directory⟩) ∨
      ∃ before holder name rest, legs = before ++ .down name :: rest ∧
        tree.descend true directory before = .arrived ⟨holder, some .directory⟩ ∧
        (nameLimit < Name.size name ∨
          tree.lookup (holder ++ [name]) ≠ some .directory) := by
  induction legs generalizing directory with
  | nil => exact .inl ⟨directory, rfl⟩
  | cons leg legs ih =>
    have further {next : Location} {leg : Leg}
        (step : ∀ legs, tree.descend true directory (leg :: legs) = tree.descend true next legs) :
        (∃ location, tree.descend true directory (leg :: legs) =
            .arrived ⟨location, some .directory⟩) ∨
          ∃ before holder name rest, leg :: legs = before ++ .down name :: rest ∧
            tree.descend true directory before = .arrived ⟨holder, some .directory⟩ ∧
            (nameLimit < Name.size name ∨
              tree.lookup (holder ++ [name]) ≠ some .directory) := by
      rcases ih next with ⟨location, way⟩ | ⟨before, holder, name, rest, rfl, way, stop⟩
      · exact .inl ⟨location, (step legs).trans way⟩
      · exact .inr ⟨leg :: before, holder, name, rest, rfl, (step before).trans way, stop⟩
    cases leg with
    | stay => exact further fun _ => rfl
    | up => exact further fun _ => rfl
    | down name =>
      by_cases long : nameLimit < Name.size name
      · exact .inr ⟨[], directory, name, legs, rfl, rfl, .inl long⟩
      · by_cases there : tree.lookup (directory ++ [name]) = some .directory
        · refine @further (directory ++ [name]) _ fun legs => ?_
          rw [descend, if_neg long]
          dsimp only
          rw [there]
        · exact .inr ⟨[], directory, name, legs, rfl, rfl, .inr there⟩

/-- A way by directories may be left out. -/
theorem walk_of_descend {holder : Location} {before more : List Leg}
    (way : tree.descend true directory before = .arrived ⟨holder, some .directory⟩)
    (filled : more ≠ []) (links : Nat) :
    tree.walk true links directory (before ++ more) = tree.walk true links holder more := by
  have same : tree.descend true directory (before ++ more) = tree.descend true holder more := by
    rw [descend_append true directory before filled, way]
  cases links <;> rw [walk, walk, same]

/-- A way that goes to a file ends there. -/
theorem walk_file {name : String} {content : ByteArray} {executable : Bool}
    (fits : ¬nameLimit < Name.size name)
    (found : tree.lookup (directory ++ [name]) = some (.file content executable)) (links : Nat)
    (rest : List Leg) :
    tree.walk true links directory (.down name :: rest) =
      if rest.isEmpty then .ok ⟨directory ++ [name], some (.file content executable)⟩
      else .error .notDirectory := by
  have way : tree.descend true directory (.down name :: rest) =
      if rest.isEmpty then .arrived ⟨directory ++ [name], some (.file content executable)⟩
      else .blocked .notDirectory := by
    rw [descend, if_neg fits]
    dsimp only
    rw [found]
  unfold walk
  rw [way]
  cases rest <;> rfl

/-- A way that goes to a link goes on from where the link leads. -/
theorem walk_link {name : String} {target : Path} (fits : ¬nameLimit < Name.size name)
    (found : tree.lookup (directory ++ [name]) = some (.link target)) (links : Nat)
    (rest : List Leg) :
    tree.walk true links directory (.down name :: rest) =
      match links with
      | 0 => .error .tooManyLinks
      | fewer + 1 =>
        tree.walk true fewer (if target.isAbsolute then [] else directory)
          (target.legs ++ rest) := by
  have way : tree.descend true directory (.down name :: rest) =
      .linked directory target rest := by
    rw [descend, if_neg fits]
    dsimp only
    rw [found]
    dsimp only
    rw [Bool.not_true, Bool.and_false, if_neg (by decide)]
  cases links <;> rw [walk, way]

/-- A way that arrives at an entry goes to one by a name that is short enough. -/
theorem exists_entry_of_walk {links : Nat} {name : String} {rest : List Leg} {entry : Entry}
    (found : tree.walk true links directory (.down name :: rest) = .ok ⟨place, some entry⟩) :
    ¬nameLimit < Name.size name ∧ ∃ entry, tree.lookup (directory ++ [name]) = some entry := by
  by_cases long : nameLimit < Name.size name
  · have way : tree.descend true directory (.down name :: rest) = .blocked .nameTooLong := by
      rw [descend, if_pos long]
    unfold walk at found
    rw [way] at found
    cases found
  · refine ⟨long, ?_⟩
    cases there : tree.lookup (directory ++ [name]) with
    | some entry => exact ⟨entry, rfl⟩
    | none =>
      have way : tree.descend true directory (.down name :: rest) =
          if rest.isEmpty then .arrived ⟨directory ++ [name], none⟩ else .blocked .notFound := by
        rw [descend, if_neg long]
        dsimp only
        rw [there]
      unfold walk at found
      rw [way] at found
      cases rest <;> cases found

/-! ## What an entry stands for -/

/-- Whether an entry is a file that lies at `place`, or a link that leads to one. -/
def StandsFor (tree : Tree) (location place : Location) : Prop :=
  ∃ holder name links content executable, location = holder ++ [name] ∧
    tree.walk true links holder [.down name] = .ok ⟨place, some (.file content executable)⟩

theorem StandsFor.exists_name (standsFor : tree.StandsFor location place) :
    ∃ holder name, location = holder ++ [name] := by
  obtain ⟨holder, name, -, -, -, shape, -⟩ := standsFor
  exact ⟨holder, name, shape⟩

/-- What lies where an entry stands for a file. -/
theorem StandsFor.cases {holder : Location} {name : String}
    (standsFor : tree.StandsFor (holder ++ [name]) place) :
    (holder ++ [name] = place ∧ ∃ content executable,
        tree.lookup (holder ++ [name]) = some (.file content executable)) ∨
      ∃ target links content executable,
        tree.lookup (holder ++ [name]) = some (.link target) ∧
        tree.walk true links (if target.isAbsolute then [] else holder) target.legs =
          .ok ⟨place, some (.file content executable)⟩ := by
  obtain ⟨holder', name', links, content, executable, same, found⟩ := standsFor
  obtain ⟨rfl, names⟩ := List.append_inj' same rfl
  obtain rfl := (List.cons.inj names).1
  obtain ⟨fits, entry, there⟩ := exists_entry_of_walk found
  cases entry with
  | directory =>
    have way : tree.descend true holder [.down name] =
        .arrived ⟨holder ++ [name], some .directory⟩ := by
      rw [descend, if_neg fits]
      dsimp only
      rw [there]
      rfl
    unfold walk at found
    rw [way] at found
    cases found
  | file old executable' =>
    rw [walk_file fits there, if_pos List.isEmpty_nil] at found
    exact .inl ⟨(Place.mk.inj (Except.ok.inj found)).1, old, executable', there⟩
  | link target =>
    rw [walk_link fits there] at found
    cases links with
    | zero => cases found
    | succ fewer =>
      dsimp only at found
      rw [List.append_nil] at found
      exact .inr ⟨target, fewer, content, executable, there, found⟩

/-- An entry stands for one file only. -/
theorem StandsFor.unique {place' : Location} (standsFor : tree.StandsFor location place)
    (standsFor' : tree.StandsFor location place') : place = place' := by
  obtain ⟨holder, name, links, content, executable, rfl, found⟩ := standsFor
  obtain ⟨holder', name', links', content', executable', same, found'⟩ := standsFor'
  obtain ⟨rfl, names⟩ := List.append_inj' same rfl
  obtain rfl := (List.cons.inj names).1
  exact (Place.mk.inj (walk_unique found found')).1

/-- The last entry on the way of a path that names a file stands for the file. -/
theorem standsFor_of_status {base : Location} {outer : List String} {name : String}
    {content : ByteArray} {executable : Bool} (areNames : AreNames (outer ++ [name]))
    (reached : tree.status base (Location.path outer) = .ok (directory, .directory))
    (found : tree.status base (Location.path (outer ++ [name])) =
      .ok (place, .file content executable)) : tree.StandsFor (directory ++ [name]) place := by
  rw [status_eq_ok_iff, resolve_path base true areNames.left] at reached
  rw [status_eq_ok_iff, resolve_path base true areNames] at found
  split at reached
  · cases reached
  · split at found
    · cases found
    · obtain ⟨fewer, -, same⟩ := exists_walk_append true
          (by simp : [name].map Leg.down ≠ []) reached
      rw [List.map_append, same] at found
      exact ⟨directory, name, fewer, content, executable, rfl, found⟩

/-! ## Putting files -/

/-- What may become of what lies at a location. A file may be put where an entry stands for one,
which is then said to be put for that one, and a file may go away. -/
inductive Becomes (tree : Tree) (isPut : Location -> ByteArray -> Prop)
    (isGone : Location -> Prop) (location : Location) : Option Entry -> Prop
  | same : Becomes tree isPut isGone location (tree.lookup location)
  | put {place : Location} {content : ByteArray} {executable : Bool}
      (standsFor : tree.StandsFor location place) (new : isPut place content) :
      Becomes tree isPut isGone location (some (.file content executable))
  | gone {content : ByteArray} {executable : Bool}
      (was : tree.lookup location = some (.file content executable)) (allowed : isGone location) :
      Becomes tree isPut isGone location none

/-- A tree after files were put and files went away. -/
def Puts (isPut : Location -> ByteArray -> Prop) (isGone : Location -> Prop)
    (tree tree' : Tree) : Prop :=
  ∀ location, tree.Becomes isPut isGone location (tree'.lookup location)

variable {isPut : Location -> ByteArray -> Prop} {isGone : Location -> Prop}

theorem Puts.mono {isPut' : Location -> ByteArray -> Prop} (puts : Puts isPut isGone tree tree')
    (news : ∀ place content, isPut place content -> isPut' place content) :
    Puts isPut' isGone tree tree' := by
  intro location
  have becomes := puts location
  generalize tree'.lookup location = entry at becomes ⊢
  cases becomes with
  | same => exact .same
  | put standsFor new => exact .put standsFor (news _ _ new)
  | gone was allowed => exact .gone was allowed

theorem Puts.lookup_directory (puts : Puts isPut isGone tree tree')
    (found : tree.lookup location = some .directory) :
    tree'.lookup location = some .directory := by
  have becomes := puts location
  generalize tree'.lookup location = entry at becomes ⊢
  cases becomes with
  | same => exact found
  | gone was _ => rw [was] at found; cases found
  | put standsFor _ =>
    obtain ⟨holder, name, shape⟩ := standsFor.exists_name
    rw [shape] at standsFor found
    rcases standsFor.cases with ⟨-, _, _, was⟩ | ⟨_, _, _, _, was, -⟩
    · rw [was] at found
      cases found
    · rw [was] at found
      cases found

/-- A way by directories goes by the same directories still. -/
theorem Puts.descend_directory (puts : Puts isPut isGone tree tree')
    (way : tree.descend true directory legs = .arrived ⟨location, some .directory⟩) :
    tree'.descend true directory legs = .arrived ⟨location, some .directory⟩ := by
  induction legs generalizing directory with
  | nil => exact way
  | cons leg legs ih =>
    cases leg with
    | stay => exact ih way
    | up => exact ih way
    | down name =>
      rw [descend] at way ⊢
      split at way
      · cases way
      · rename_i fits
        rw [if_neg fits]
        dsimp only at way ⊢
        cases there : tree.lookup (directory ++ [name]) with
        | none =>
          rw [there] at way
          dsimp only at way
          split at way <;> cases way
        | some entry =>
          rw [there] at way
          cases entry with
          | directory =>
            rw [puts.lookup_directory there]
            exact ih way
          | file content executable =>
            dsimp only at way
            split at way <;> cases way
          | link target =>
            dsimp only at way
            split at way <;> cases way

/-- Where a way arrives now that arrived at an entry before. -/
inductive Arrives (isPut : Location -> ByteArray -> Prop) (location : Location) :
    Entry -> Location -> Entry -> Prop
  | same (entry : Entry) : Arrives isPut location entry location entry
  | put {content content' : ByteArray} {executable executable' : Bool} {location' : Location}
      (new : isPut location content') :
      Arrives isPut location (.file content executable) location' (.file content' executable')

/-- A way that went to a file arrives there, or at a file that was put in its place. -/
theorem Puts.walk_at_file (puts : Puts isPut isGone tree tree') {links : Nat} {name : String}
    {rest : List Leg} {content : ByteArray} {executable : Bool} {entry : Entry}
    (fits : ¬nameLimit < Name.size name)
    (lies : tree.lookup (directory ++ [name]) = some (.file content executable))
    (found : tree.walk true links directory (.down name :: rest) = .ok ⟨location, some entry⟩)
    (stays : entry.isFile = true -> ¬isGone location) :
    ∃ location' entry', tree'.walk true links directory (.down name :: rest) =
        .ok ⟨location', some entry'⟩ ∧ Arrives isPut location entry location' entry' := by
  rw [walk_file fits lies] at found
  split at found
  · rename_i last
    obtain ⟨rfl, same⟩ := Place.mk.inj (Except.ok.inj found)
    obtain rfl := Option.some.inj same
    have becomes := puts (directory ++ [name])
    generalize lies' : tree'.lookup (directory ++ [name]) = entry' at becomes
    cases becomes with
    | same =>
      rw [lies] at lies'
      rw [walk_file fits lies', if_pos last]
      exact ⟨_, _, rfl, .same _⟩
    | gone _ allowed => exact absurd allowed (stays rfl)
    | put standsFor new =>
      rw [walk_file fits lies', if_pos last]
      rcases standsFor.cases with ⟨rfl, -⟩ | ⟨target, _, _, _, link, -⟩
      · exact ⟨_, _, rfl, .put new⟩
      · rw [lies] at link
        cases link
  · cases found

/-- A way that went on from a link goes on from it, or arrives at a file that was put there. The
link led to a file then, so that the way could not go on from where it led. -/
theorem Puts.walk_at_link (puts : Puts isPut isGone tree tree') {fewer : Nat} {name : String}
    {rest : List Leg} {target : Path} {entry : Entry} (fits : ¬nameLimit < Name.size name)
    (lies : tree.lookup (directory ++ [name]) = some (.link target))
    (found : tree.walk true fewer (if target.isAbsolute then [] else directory)
      (target.legs ++ rest) = .ok ⟨location, some entry⟩)
    (ih : ∃ location' entry', tree'.walk true fewer (if target.isAbsolute then [] else directory)
        (target.legs ++ rest) = .ok ⟨location', some entry'⟩ ∧
      Arrives isPut location entry location' entry') :
    ∃ location' entry', tree'.walk true (fewer + 1) directory (.down name :: rest) =
        .ok ⟨location', some entry'⟩ ∧ Arrives isPut location entry location' entry' := by
  have becomes := puts (directory ++ [name])
  generalize lies' : tree'.lookup (directory ++ [name]) = entry' at becomes
  cases becomes with
  | same =>
    rw [lies] at lies'
    rw [walk_link fits lies']
    exact ih
  | gone was _ =>
    rw [lies] at was
    cases was
  | put standsFor new =>
    rw [walk_file fits lies']
    rcases standsFor.cases with ⟨-, _, _, was⟩ | ⟨target', links', _, _, was, leads⟩
    · rw [lies] at was
      cases was
    · obtain rfl := Entry.link.inj (Option.some.inj (lies.symm.trans was))
      -- The link was replaced by a file. A walk that ends there finds what was put, and no walk
      -- goes on through it, as none went through the file behind the link.
      by_cases last : rest = []
      · subst last
        rw [List.append_nil] at found
        obtain ⟨rfl, same⟩ := Place.mk.inj (walk_unique found leads)
        obtain rfl := Option.some.inj same
        exact ⟨_, _, if_pos rfl, .put new⟩
      · obtain ⟨between, arrives⟩ := exists_walk_of_append last found
        cases walk_unique arrives leads

/-- A way arrives where it did, or at a file that was put on the way. -/
theorem Puts.walk (puts : Puts isPut isGone tree tree') {links : Nat} {entry : Entry}
    (found : tree.walk true links directory legs = .ok ⟨location, some entry⟩)
    (stays : entry.isFile = true -> ¬isGone location) :
    ∃ location' entry', tree'.walk true links directory legs = .ok ⟨location', some entry'⟩ ∧
      Arrives isPut location entry location' entry' := by
  induction links using Nat.strongRecOn generalizing directory legs with
  | ind links ih =>
  rcases tree.descend_cases directory legs with
    ⟨holder, way⟩ | ⟨before, holder, name, rest, rfl, way, stop⟩
  · unfold Tree.walk at found ⊢
    rw [way] at found
    rw [puts.descend_directory way]
    obtain ⟨rfl, same⟩ := Place.mk.inj (Except.ok.inj found)
    obtain rfl := Option.some.inj same
    exact ⟨_, _, rfl, .same .directory⟩
  · -- The first name that is not one of a directory decides how the way goes on.
    have filled : Leg.down name :: rest ≠ [] := by simp
    rw [walk_of_descend way filled] at found
    rw [walk_of_descend (puts.descend_directory way) filled]
    obtain ⟨fits, there, lies⟩ := exists_entry_of_walk found
    cases there with
    | directory => exact absurd lies (stop.resolve_left fits)
    | file content executable => exact puts.walk_at_file fits lies found stays
    | link target =>
      rw [walk_link fits lies] at found
      cases links with
      | zero => cases found
      | succ fewer =>
        dsimp only at found
        exact puts.walk_at_link fits lies found (ih fewer (Nat.lt_succ_self _) found)

/-- What a path names now that named an entry before. -/
theorem Puts.status (puts : Puts isPut isGone tree tree') {base : Location} {path : Path}
    {entry : Entry} (found : tree.status base path = .ok (location, entry))
    (stays : entry.isFile = true -> ¬isGone location) :
    ∃ location' entry', tree'.status base path = .ok (location', entry') ∧
      Arrives isPut location entry location' entry' := by
  simp only [status_eq_ok_iff] at found ⊢
  unfold resolve at found ⊢
  split at found
  · cases found
  · rename_i filled
    split at found
    · cases found
    · rename_i short
      rw [if_neg filled, if_neg short]
      exact puts.walk found stays

/-- A path to a directory leads there still. -/
theorem Puts.status_directory (puts : Puts isPut isGone tree tree') {base : Location}
    {path : Path} (found : tree.status base path = .ok (location, .directory)) :
    tree'.status base path = .ok (location, .directory) := by
  obtain ⟨location', entry', found', arrives⟩ := puts.status found fun isFile => by cases isFile
  cases arrives
  exact found'

end Relink.Tree
