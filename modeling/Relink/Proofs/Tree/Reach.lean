import Mathlib.Data.List.Nodup
import Mathlib.Data.List.ProdSigma
import Mathlib.Data.List.Perm.Subperm
import Relink.Proofs.Path.Below
import Relink.Proofs.Tree.Listing
import Relink.Proofs.Tree.Proper
import Relink.Proofs.Tree.Putting
import Relink.Proofs.Tree.Stops

/-!
# What a listing reaches

A listing follows links, and refuses only those that lead back to a directory that it is in. It
ends all the same: between two links it goes down, and no two links that it has followed lead to
one directory. So a listing that succeeds misses no file that visible names lead to, through
whatever links they do.
-/

namespace Relink.Tree

variable {tree : Tree}

/-! ## Directories on a way -/

theorem IsProper.lookup_dropLast (proper : tree.IsProper) {directory : Location}
    (found : tree.lookup directory = some .directory) :
    tree.lookup directory.dropLast = some .directory := by
  rcases List.eq_nil_or_concat directory with rfl | ⟨outer, name, rfl⟩
  · exact found
  · rw [List.concat_eq_append] at found ⊢
    rw [List.dropLast_concat]
    exact proper.lookup_outer (List.cons_ne_nil name []) found

/-- A directory that a way leads to is one of the tree. -/
theorem IsProper.lookup_of_walk (proper : tree.IsProper) {links : Nat}
    {directory location : Location} {legs : List Leg}
    (begins : tree.lookup directory = some .directory)
    (leads : tree.walk true links directory legs = .ok ⟨location, some .directory⟩) :
    tree.lookup location = some .directory :=
  @ground_of_walk tree (fun place => tree.lookup place = some .directory) _ _ _ _ rfl begins
    (fun _ found => proper.lookup_dropLast found) (fun _ _ found => found) leads

/-! ## Directories inside each other -/

/-- The directories that a listing is in. Each comes with its top: where the last link before it
led, or where the listing began. -/
structure IsNest (tree : Tree) (outer : List Visit) (here : Visit) (top : Location)
    (nest : List (Location × Location)) : Prop where
  innermost : (top, here.location) ∈ nest
  length_eq : nest.length = outer.length + 1
  nodup : nest.Nodup
  directories : ∀ pair ∈ nest,
    tree.lookup pair.1 = some .directory ∧ tree.lookup pair.2 = some .directory
  /-- A listing is in the top of each of its directories. -/
  visited : ∀ pair ∈ nest, ∃ visit ∈ here :: outer, visit.location = pair.1
  /-- Below one top, the directories lie inside each other. -/
  inside : ∀ pair ∈ nest, pair.1 = top -> pair.2 <+: here.location

variable {outer : List Visit} {here : Visit} {top : Location} {nest : List (Location × Location)}

theorem IsNest.start (here : Visit) (found : tree.lookup here.location = some .directory) :
    tree.IsNest [] here here.location [(here.location, here.location)] where
  innermost := List.mem_singleton_self _
  length_eq := rfl
  nodup := List.nodup_singleton _
  directories := by
    intro pair member
    rw [List.mem_singleton.1 member]
    exact ⟨found, found⟩
  visited := by
    intro pair member
    rw [List.mem_singleton.1 member]
    exact ⟨here, List.mem_singleton_self here, rfl⟩
  inside := by
    intro pair member _
    obtain rfl := List.mem_singleton.1 member
    exact List.prefix_refl _

/-- A listing goes down to a directory. -/
theorem IsNest.down (isNest : tree.IsNest outer here top nest) {path : Path} {name : String}
    (found : tree.lookup (here.location ++ [name]) = some .directory) :
    tree.IsNest (here :: outer) ⟨path, here.location ++ [name]⟩ top
      ((top, here.location ++ [name]) :: nest) where
  innermost := List.mem_cons_self ..
  length_eq := by rw [List.length_cons, isNest.length_eq, List.length_cons]
  nodup := by
    refine List.nodup_cons.2 ⟨?_, isNest.nodup⟩
    intro known
    have shorter := (isNest.inside _ known rfl).length_le
    rw [List.length_append, List.length_singleton] at shorter
    omega
  directories := by
    refine List.forall_mem_cons.2 ⟨⟨?_, found⟩, isNest.directories⟩
    exact (isNest.directories _ isNest.innermost).1
  visited := by
    have visited : ∀ pair ∈ nest, ∃ visit ∈ ⟨path, here.location ++ [name]⟩ :: here :: outer,
        visit.location = pair.1 := by
      intro pair member
      obtain ⟨visit, known, same⟩ := isNest.visited pair member
      exact ⟨visit, List.mem_cons_of_mem _ known, same⟩
    exact List.forall_mem_cons.2 ⟨visited (top, here.location) isNest.innermost, visited⟩
  inside := by
    refine List.forall_mem_cons.2 ⟨fun _ => List.prefix_refl _, ?_⟩
    intro pair member same
    exact (isNest.inside pair member same).trans (List.prefix_append ..)

/-- A listing follows a link to a directory that it is not in. -/
theorem IsNest.link (isNest : tree.IsNest outer here top nest) {path : Path}
    {location : Location} (found : tree.lookup location = some .directory)
    (fresh : ∀ visit ∈ here :: outer, visit.location ≠ location) :
    tree.IsNest (here :: outer) ⟨path, location⟩ location ((location, location) :: nest) := by
  have other : ∀ pair ∈ nest, pair.1 ≠ location := by
    intro pair member same
    obtain ⟨visit, known, there⟩ := isNest.visited pair member
    exact fresh visit known (there.trans same)
  constructor
  case innermost => exact List.mem_cons_self ..
  case length_eq => rw [List.length_cons, isNest.length_eq, List.length_cons]
  case nodup => exact List.nodup_cons.2 ⟨fun known => other _ known rfl, isNest.nodup⟩
  case directories => exact List.forall_mem_cons.2 ⟨⟨found, found⟩, isNest.directories⟩
  case visited =>
    refine List.forall_mem_cons.2 ⟨⟨_, List.mem_cons_self .., rfl⟩, ?_⟩
    intro pair member
    obtain ⟨visit, known, same⟩ := isNest.visited pair member
    exact ⟨visit, List.mem_cons_of_mem _ known, same⟩
  case inside =>
    refine List.forall_mem_cons.2 ⟨fun _ => List.prefix_refl _, ?_⟩
    intro pair member same
    exact absurd same (other pair member)

/-- What a listing takes the entry of a name for, in a directory that it is in: the entry itself,
or what the link leads to, as long as that is no directory that the listing is in. -/
theorem listed_inversion {visits : List Visit} {path : Path} {directory location : Location}
    {name : String} {entry : Entry}
    (done : tree.listed visits path (directory ++ [name]) = .ok (location, entry)) :
    location = directory ++ [name] ∧ tree.lookup location = some entry ∧
        (∀ target, entry ≠ .link target) ∨
      (∃ target, tree.lookup (directory ++ [name]) = some (.link target)) ∧
        tree.walk true linkLimit directory [.down name] = .ok ⟨location, some entry⟩ ∧
        (entry = .directory -> ∀ visit ∈ visits, visit.location ≠ location) := by
  unfold listed at done
  split at done
  · rename_i target found
    rw [List.dropLast_concat, List.getLast?_concat, Option.getD_some] at done
    split at done
    · cases done
    · cases done
    · rename_i reached there way
      split at done
      · cases done
      · rename_i known
        obtain ⟨rfl, rfl⟩ := Prod.mk.inj (Except.ok.inj done)
        refine .inr ⟨⟨target, found⟩, way, fun isDirectory visit member same => ?_⟩
        obtain rfl := isDirectory
        cases search : visits.find? fun visit => visit.location = reached with
        | some other => exact known other rfl search
        | none => exact List.find?_eq_none.1 search visit member (by simpa using same)
  · rename_i there solid found
    obtain ⟨rfl, rfl⟩ := Prod.mk.inj (Except.ok.inj done)
    exact .inl ⟨rfl, found, solid⟩
  · cases done

/-- A directory that a listing enters lies inside those that it is in. -/
theorem IsNest.enter {path : Path} {name : String} {location : Location}
    (proper : tree.IsProper) (isNest : tree.IsNest outer here top nest)
    (stands : tree.listed (here :: outer) path (here.location ++ [name]) =
      .ok (location, .directory)) :
    ∃ top' nest', tree.IsNest (here :: outer) ⟨path, location⟩ top' nest' ∧
      nest'.length = nest.length + 1 := by
  rcases listed_inversion stands with ⟨rfl, found, -⟩ | ⟨-, way, fresh⟩
  · exact ⟨top, _, isNest.down found, rfl⟩
  · have found := proper.lookup_of_walk (isNest.directories _ isNest.innermost).2 way
    exact ⟨location, _, isNest.link found (fresh rfl), rfl⟩

/-- A listing is never in more directories than its depth allows. -/
theorem IsNest.length_le (isNest : tree.IsNest outer here top nest) :
    nest.length ≤ tree.listingDepth := by
  have known {location : Location} (found : tree.lookup location = some .directory) :
      location ∈ [] :: tree.locations := by
    by_cases root : location = []
    · exact root ▸ List.mem_cons_self ..
    · exact List.mem_cons_of_mem _ (mem_of_lookup root found)
  have pairs : nest ⊆ ([] :: tree.locations) ×ˢ ([] :: tree.locations) := by
    intro pair member
    obtain ⟨isTop, isPlace⟩ := isNest.directories pair member
    exact List.mem_product.2 ⟨known isTop, known isPlace⟩
  have bounded := (List.subperm_of_subset isNest.nodup pairs).length_le
  rwa [List.length_product, List.length_cons, locations, List.length_map] at bounded

/-! ## Files that a listing holds -/

/-- What a listing takes an entry for is what a way through it leads to. -/
theorem listed_of_walk {visits : List Visit} {path : Path} {directory location : Location}
    {name : String} {entry : Entry} {links : Nat} {reached : Location × Entry}
    (way : tree.walk true links directory [.down name] = .ok ⟨location, some entry⟩)
    (few : links ≤ linkLimit)
    (done : tree.listed visits path (directory ++ [name]) = .ok reached) :
    reached = (location, entry) := by
  obtain ⟨fits, -, -⟩ := exists_entry_of_walk way
  obtain ⟨there, kind⟩ := reached
  rcases listed_inversion done with ⟨rfl, found, solid⟩ | ⟨-, way', -⟩
  · have direct : ∀ target, tree.lookup (directory ++ [name]) ≠ some (.link target) :=
      fun target isLink => solid target (Option.some.inj (found.symm.trans isLink))
    rw [walk_down links (.inr direct), if_neg fits, found] at way
    obtain ⟨rfl, same⟩ := Place.mk.inj (Except.ok.inj way)
    rw [Option.some.inj same]
  · obtain ⟨rfl, same⟩ := Place.mk.inj (Except.ok.inj (way'.symm.trans (walk_mono way few)))
    rw [Option.some.inj same]

/-- What the entries of a directory stand for are parts of its listing. -/
theorem exists_listEntry {depth : Nat} {files : List Path} {name : String}
    (done : tree.listBelow (depth + 1) outer here = .ok files)
    (child : name ∈ tree.children here.location) :
    ∃ part, tree.listEntry depth outer here name = .ok part ∧ part ⊆ files := by
  obtain ⟨parts, each, rfl⟩ := exists_parts done
  obtain ⟨part, member, listed⟩ := exists_of_mem_forall₂ each.flip child
  exact ⟨part, listed, fun file inside => List.mem_flatten.2 ⟨part, member, inside⟩⟩

/-- A listing that is deep enough holds every file that visible names lead to. The induction is
on the depth, and the directories around make up for what it has lost. -/
theorem mem_listBelow_of_walk (proper : tree.IsProper) {depth links : Nat} {files : List Path}
    {names : List String} {location : Location} {content : ByteArray} {executable : Bool}
    (isNest : tree.IsNest outer here top nest)
    (enough : tree.listingDepth < depth + nest.length)
    (done : tree.listBelow depth outer here = .ok files) (areVisible : AreVisible names)
    (way : tree.walk true links here.location (names.map .down) =
      .ok ⟨location, some (.file content executable)⟩) (few : links ≤ linkLimit) :
    here.path.below names ∈ files := by
  -- The induction is on the depth. It does not run out, as a nest is no longer than there are
  -- directories.
  induction depth generalizing outer here top nest links files names with
  | zero =>
    have bounded := isNest.length_le
    omega
  | succ depth ih =>
    cases names with
    | nil =>
      unfold walk at way
      cases way
    | cons name names =>
      obtain ⟨visible, areVisible⟩ := List.forall_mem_cons.1 areVisible
      rw [List.map_cons] at way
      obtain ⟨-, there, found⟩ := exists_entry_of_walk way
      have child : name ∈ tree.children here.location :=
        mem_children.2 (mem_locations.1 (mem_of_lookup (by simp) found))
      obtain ⟨part, listed, inside⟩ := exists_listEntry done child
      apply inside
      unfold listEntry at listed
      dsimp only at listed
      rw [Path.below_cons]
      cases names with
      | nil =>
        split at listed
        · cases listed
        · rename_i reached entry stands
          obtain ⟨rfl, rfl⟩ := Prod.mk.inj (listed_of_walk way few stands)
          rw [if_neg (by simp [visible]), if_neg (by simp [Entry.isDirectory])] at listed
          obtain rfl := Except.ok.inj listed
          exact List.mem_singleton_self _
      | cons next names =>
        have more : (next :: names).map Leg.down ≠ [] := by simp
        rw [← List.singleton_append] at way
        obtain ⟨directory, arrives⟩ := exists_walk_of_append more way
        obtain ⟨fewer, le, same⟩ := exists_walk_append true more arrives
        rw [same] at way
        split at listed
        · cases listed
        · rename_i reached entry stands
          obtain ⟨rfl, rfl⟩ := Prod.mk.inj (listed_of_walk arrives few stands)
          rw [if_neg (by simp [visible]), if_pos (by rfl)] at listed
          obtain ⟨top', nest', isNest', deeper⟩ := isNest.enter proper stands
          exact ih isNest' (by omega) listed areVisible way (Nat.le_trans le few)

/-- A path that leads down leads on from the directory that the path above names. -/
theorem exists_walk_of_below {base location reached : Location} {root : Path}
    {names : List String} {entry kind : Entry} (filled : names ≠ []) (areNames : AreNames names)
    (holds : tree.status base root = .ok (reached, kind))
    (found : tree.status base (root.below names) = .ok (location, entry)) :
    kind = .directory ∧ ∃ links ≤ linkLimit,
      tree.walk true links reached (names.map .down) = .ok ⟨location, some entry⟩ := by
  have walks {path : Path} {place : Place} (found : tree.resolve base true path = .ok place) :
      tree.walk true linkLimit (if path.isAbsolute then [] else base) path.legs = .ok place := by
    unfold resolve at found
    split at found
    · cases found
    · split at found
      · cases found
      · exact found
  have more : names.map Leg.down ≠ [] := by simpa using filled
  obtain ⟨front, written, legs⟩ := Path.exists_legs_below root filled areNames
  have whole := walks (status_eq_ok_iff.1 found)
  have before := walks (status_eq_ok_iff.1 holds)
  rw [Path.isAbsolute_below root areNames, legs] at whole
  obtain ⟨directory, arrives⟩ := exists_walk_of_append more whole
  have same : (⟨reached, some kind⟩ : Place) = ⟨directory, some .directory⟩ := by
    rcases written with written | written
    · rw [written] at before
      exact walk_unique before arrives
    · have last : [Leg.stay] ≠ [] := by simp
      obtain ⟨fewer, -, stays⟩ := exists_walk_append true last arrives
      rw [written, stays] at before
      unfold walk at before
      exact (Except.ok.inj before).symm
  obtain ⟨rfl, isDirectory⟩ := Place.mk.inj same
  obtain ⟨links, few, onward⟩ := exists_walk_append true more arrives
  exact ⟨Option.some.inj isDirectory, links, few, onward.symm.trans whole⟩

/-- A directory that the path of a listing leads to is one of the tree. -/
theorem IsProper.lookup_of_status (proper : tree.IsProper) {base location : Location}
    {root : Path} (begins : tree.lookup base = some .directory)
    (holds : tree.status base root = .ok (location, .directory)) :
    tree.lookup location = some .directory := by
  have arrives := status_eq_ok_iff.1 holds
  unfold resolve at arrives
  split at arrives
  · cases arrives
  split at arrives
  · cases arrives
  refine proper.lookup_of_walk ?_ arrives
  split
  · rfl
  · exact begins

/-- A listing holds every file that visible names lead down to. -/
theorem mem_list_of_status (proper : tree.IsProper) {base location : Location} {root : Path}
    {names : List String} {files : List Path} {content : ByteArray} {executable : Bool}
    (begins : tree.lookup base = some .directory) (filled : names ≠ [])
    (areNames : AreNames names) (areVisible : AreVisible names)
    (done : tree.list base root = .ok files)
    (found : tree.status base (root.below names) = .ok (location, .file content executable)) :
    root.below names ∈ files := by
  unfold list at done
  cases holds : tree.status base root with
  | error cause => rw [holds] at done; cases done
  | ok place =>
    obtain ⟨reached, kind⟩ := place
    obtain ⟨rfl, links, few, way⟩ := exists_walk_of_below filled areNames holds found
    rw [holds] at done
    have isNest := IsNest.start ⟨root, reached⟩ (proper.lookup_of_status begins holds)
    exact mem_listBelow_of_walk proper isNest (by simp) done areVisible way few

/-- Below a directory, a listing holds exactly the files that visible names lead to. -/
theorem mem_list_iff (proper : tree.IsProper) {base location : Location} {root : Path}
    {names : List String} {files : List Path} {content : ByteArray} {executable : Bool}
    (begins : tree.lookup base = some .directory) (filled : names ≠ [])
    (areNames : AreNames names) (done : tree.list base root = .ok files)
    (found : tree.status base (root.below names) = .ok (location, .file content executable)) :
    root.below names ∈ files ↔ AreVisible names := by
  constructor
  · intro member
    obtain ⟨names', same, areNames', areVisible⟩ := mem_of_list proper.named done member
    rwa [Path.below_inj areNames areNames' same]
  · intro areVisible
    exact mem_list_of_status proper begins filled areNames areVisible done found

end Relink.Tree
