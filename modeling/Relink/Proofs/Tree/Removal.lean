import Relink.Proofs.Host.Temporary

/-!
# Removing what a path names

Removing takes away a link, or a directory with all that lies below it, and touches nothing else.
Of a directory whose entry cannot be removed only what lies below it is gone.
-/

namespace Relink

namespace Tree

variable {tree : Tree} {base location other : Location} {path : Path}

/-! ## What is left -/

theorem isBelow_iff : isBelow location other = true ↔ location <+: other ∧ location ≠ other := by
  rw [isBelow, Bool.and_eq_true, List.isPrefixOf_iff_prefix, bne_iff_ne]

/-- Erasing what is below a location leaves all the rest. -/
theorem lookup_eraseBelow (location other : Location) :
    (tree.eraseBelow location).lookup other =
      if isBelow location other then none else tree.lookup other := by
  by_cases top : other = []
  · subst top
    have apart : ¬isBelow location [] = true := fun below =>
      (isBelow_iff.1 below).2 (List.prefix_nil.1 (isBelow_iff.1 below).1)
    rw [if_neg apart]
    rfl
  · rw [lookup, if_neg top, lookup, if_neg top]
    refine (lookup_filter (fun known => !isBelow location known) other tree.entries).trans ?_
    cases isBelow location other <;> rfl

/-- A tree without a location, and without all that lies below it. -/
def without (tree : Tree) (location : Location) : Tree :=
  (tree.eraseBelow location).erase location

/-- Nothing is left of a location and of what is below it, and all the rest stays. -/
theorem lookup_without (filled : location ≠ []) (other : Location) :
    (tree.without location).lookup other =
      if location <+: other then none else tree.lookup other := by
  rw [without, lookup_erase other filled, lookup_eraseBelow]
  by_cases here : other = location
  · rw [if_pos here, if_pos (here ▸ List.prefix_refl _)]
  · by_cases below : location <+: other
    · rw [if_neg here, if_pos (isBelow_iff.2 ⟨below, Ne.symm here⟩), if_pos below]
    · rw [if_neg here, if_neg fun isBelow => below (isBelow_iff.1 isBelow).1, if_neg below]

/-- Erasing what is below a location leaves directories only that were there. -/
theorem isGroundOf_eraseBelow (location : Location) : (tree.eraseBelow location).IsGroundOf tree := by
  intro other entry found _
  rw [lookup_eraseBelow] at found
  split at found
  · cases found
  · exact found

/-- Taking out a location with what is below it leaves directories only that were there. -/
theorem isGroundOf_without (filled : location ≠ []) : (tree.without location).IsGroundOf tree := by
  intro other entry found _
  rw [lookup_without filled] at found
  split at found
  · cases found
  · exact found

/-- Taking out an entry leaves directories only that were there. -/
theorem isGroundOf_erase (filled : location ≠ []) : (tree.erase location).IsGroundOf tree := by
  intro other entry found _
  rw [lookup_erase other filled] at found
  split at found
  · cases found
  · exact found

/-- Nothing is left below a location when what is below it was erased. -/
theorem isEmptyBelow_eraseBelow (location : Location) :
    (tree.eraseBelow location).isEmptyBelow location = true := by
  rw [isEmptyBelow, List.all_eq_true]
  intro place member
  exact (List.mem_filter.1 member).2

/-- The locations that are left are those that do not go on from the one that was taken out. -/
theorem mem_locations_without :
    other ∈ (tree.without location).locations ↔
      other ∈ tree.locations ∧ ¬location <+: other := by
  rw [without, locations_erase, List.mem_filter, eraseBelow, locations, List.mem_map, locations,
    List.mem_map, bne_iff_ne]
  constructor
  · rintro ⟨⟨place, member, rfl⟩, apart⟩
    obtain ⟨known, kept⟩ := List.mem_filter.1 member
    refine ⟨⟨place, known, rfl⟩, fun below => ?_⟩
    dsimp only at kept
    rw [isBelow_iff.2 ⟨below, Ne.symm apart⟩] at kept
    cases kept
  · rintro ⟨⟨place, member, rfl⟩, apart⟩
    refine ⟨⟨place, List.mem_filter.2 ⟨member, ?_⟩, rfl⟩, fun same => ?_⟩
    · rw [Bool.not_eq_true', Bool.eq_false_iff]
      exact fun below => apart (isBelow_iff.1 below).1
    · exact apart (same ▸ List.prefix_refl _)

/-- What is left of the tree of a file system is one. -/
theorem IsProper.without (proper : tree.IsProper) (filled : location ≠ []) :
    (tree.without location).IsProper where
  named := by
    intro place member
    exact proper.named place (List.mem_filter.1 (List.mem_filter.1 member).1).1
  nodup := by
    have part : (tree.without location).entries.Sublist tree.entries :=
      List.filter_sublist.trans List.filter_sublist
    exact proper.nodup.sublist (part.map _)
  rooted := by
    intro other member
    obtain ⟨known, apart⟩ := mem_locations_without.1 member
    obtain ⟨inner, holder⟩ := proper.rooted other known
    refine ⟨inner, ?_⟩
    rw [lookup_without filled, if_neg fun below => apart (below.trans (List.dropLast_prefix other)),
      holder]

/-! ## What is removed -/

/-- A dot stays in the directory. -/
theorem descend_stays (followLast : Bool) (directory : Location) (count : Nat) :
    tree.descend followLast directory (List.replicate count .stay) =
      .arrived ⟨directory, some .directory⟩ := by
  induction count with
  | zero => rfl
  | succ count ih => exact ih

/-- A path that names a directory names the one that bears the name which the path ends in. -/
theorem IsNamedBy.eq_of_resolve {named place : Location} (isNamed : tree.IsNamedBy base path named)
    (isDirectory : tree.lookup named = some .directory)
    (found : tree.resolve base false path = .ok ⟨place, some .directory⟩) : place = named := by
  obtain ⟨directory, name, slashed, held, rfl⟩ := isNamed
  unfold Tree.holder at held
  unfold Tree.resolve at found
  split at held
  · cases held
  split at held
  · cases held
  rename_i filled short
  rw [if_neg filled, if_neg short] at found
  split at held
  · cases held
  · rename_i reached arrives
    obtain ⟨rfl, tail⟩ := Prod.mk.inj (Except.ok.inj held)
    obtain ⟨count, legs, -⟩ := Path.exists_legs_of_split (Prod.ext rfl tail)
    obtain ⟨fewer, -, same⟩ := exists_walk_append false
      (by simp : Leg.down name :: List.replicate count .stay ≠ []) arrives
    rw [legs, same] at found
    by_cases long : nameLimit < Name.size name
    · have way : tree.descend false reached (.down name :: List.replicate count .stay) =
          .blocked .nameTooLong := by rw [descend, if_pos long]
      unfold walk at found
      rw [way] at found
      cases found
    · have way : tree.descend false reached (.down name :: List.replicate count .stay) =
          .arrived ⟨reached ++ [name], some .directory⟩ := by
        rw [descend, if_neg long]
        dsimp only
        rw [isDirectory]
        exact descend_stays false _ count
      unfold walk at found
      rw [way] at found
      exact (Place.mk.inj (Except.ok.inj found)).1.symm
  · cases held
  · cases held

/-- A directory that is removed was one, by the name that the path has. -/
theorem removeDirectory_inversion {tree' : Tree} {changes : List Change}
    (removed : tree.removeDirectory base path = .ok (tree', changes)) :
    ∃ named, tree.IsNamedBy base path named ∧ tree.lookup named = some .directory ∧
      tree' = tree.erase named := by
  unfold removeDirectory at removed
  split at removed
  · cases removed
  · cases removed
  · cases removed
  · cases removed
  · rename_i directory name slashed held
    dsimp only at removed
    split at removed
    · cases removed
    · rename_i isDirectory
      split at removed
      · exact ⟨directory ++ [name], ⟨directory, name, slashed, held, rfl⟩, isDirectory,
          (Prod.mk.inj (Except.ok.inj removed)).1.symm⟩
      · cases removed
    · cases removed

/-- What removing all that a path names can come to. -/
inductive Removal (tree : Tree) (base : Location) (path : Path) : Except Cause Unit -> Tree -> Prop
  | nothing (cause : Cause) : Removal tree base path (.error cause) tree
  | link {location : Location} {target : Path}
      (found : tree.resolve base false path = .ok ⟨location, some (.link target)⟩) :
      Removal tree base path (.ok ()) (tree.erase location)
  | directory {location : Location}
      (found : tree.resolve base false path = .ok ⟨location, some .directory⟩)
      (isNamed : (tree.eraseBelow location).IsNamedBy base path location) :
      Removal tree base path (.ok ()) (tree.without location)
  /-- The directory itself stays. That it is not found any more is no failure. -/
  | emptied {location : Location} (result : Except Cause Unit)
      (found : tree.resolve base false path = .ok ⟨location, some .directory⟩) :
      Removal tree base path result (tree.eraseBelow location)

/-- What removing all does is one of the cases of a removal. -/
theorem removal_removeAll (tree : Tree) (base : Location) (path : Path) :
    tree.Removal base path (tree.removeAll base path).1 (tree.removeAll base path).2.1 := by
  unfold removeAll
  split
  · exact .nothing _
  · exact .nothing _
  · rename_i found
    exact .link found
  · exact .nothing _
  · rename_i location found
    dsimp only
    split
    · rename_i removed changes done
      obtain ⟨named, isNamed, isDirectory, rfl⟩ := removeDirectory_inversion done
      have ground : (tree.eraseBelow location).IsGroundOf tree := isGroundOf_eraseBelow location
      obtain rfl : location = named :=
        (isNamed.of_ground ground).eq_of_resolve (ground isDirectory rfl) found
      exact .directory found isNamed
    · exact .emptied _ found
    · exact .emptied _ found

/-- Nothing is touched but the link or directory that the path leads to, and what lies below. -/
theorem Removal.lookup_eq {result : Except Cause Unit} {tree' : Tree}
    (removal : tree.Removal base path result tree')
    (apart : ∀ location entry, tree.resolve base false path = .ok ⟨location, some entry⟩ ->
      entry.isFile = false -> ¬location <+: other) :
    tree'.lookup other = tree.lookup other := by
  have kept {location : Location} (outside : ¬location <+: other) :
      (tree.eraseBelow location).lookup other = tree.lookup other := by
    rw [lookup_eraseBelow, if_neg fun below => outside (isBelow_iff.1 below).1]
  have other_ne {location : Location} (outside : ¬location <+: other) : other ≠ location :=
    fun same => outside (same ▸ List.prefix_refl _)
  have filled {location : Location} (outside : ¬location <+: other) : location ≠ [] :=
    fun top => outside (top ▸ List.nil_prefix)
  cases removal with
  | nothing cause => rfl
  | link found =>
    have outside := apart _ _ found rfl
    rw [lookup_erase _ (filled outside), if_neg (other_ne outside)]
  | directory found isNamed =>
    have outside := apart _ _ found rfl
    rw [lookup_without (filled outside), if_neg outside]
  | emptied result found => exact kept (apart _ _ found rfl)

/-- A link is removed, and a directory where its name still leads to it when it is empty. -/
theorem removeAll_directory
    (found : tree.resolve base false path = .ok ⟨location, some .directory⟩)
    (isDirectory : tree.lookup location = some .directory)
    (isNamed : (tree.eraseBelow location).IsNamedBy base path location) :
    (tree.removeAll base path).1 = .ok () ∧
      (tree.removeAll base path).2.1 = tree.without location := by
  obtain ⟨directory, name, slashed, held, rfl⟩ := isNamed
  have there : (tree.eraseBelow (directory ++ [name])).lookup (directory ++ [name]) =
      some .directory := by
    rw [lookup_eraseBelow, if_neg fun below => (isBelow_iff.1 below).2 rfl, isDirectory]
  have removed : ∃ changes, (tree.eraseBelow (directory ++ [name])).removeDirectory base path =
      .ok (tree.without (directory ++ [name]), changes) := by
    rw [removeDirectory, held]
    dsimp only
    rw [there]
    dsimp only
    rw [isEmptyBelow_eraseBelow, if_pos rfl]
    exact ⟨_, rfl⟩
  obtain ⟨changes, removed⟩ := removed
  unfold removeAll
  rw [found]
  dsimp only
  rw [removed]
  exact ⟨rfl, rfl⟩

/-- A link is taken out, and what it leads to stays. -/
theorem removeAll_link {target : Path}
    (found : tree.resolve base false path = .ok ⟨location, some (.link target)⟩) :
    (tree.removeAll base path).1 = .ok () ∧
      (tree.removeAll base path).2.1 = tree.erase location := by
  unfold removeAll
  rw [found]
  exact ⟨rfl, rfl⟩

end Tree
end Relink
