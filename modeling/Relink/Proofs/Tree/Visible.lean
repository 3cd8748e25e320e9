import Mathlib.Data.List.Count
import Mathlib.Data.List.Sort
import Relink.Proofs.Name
import Relink.Proofs.Tree.Listing
import Relink.Proofs.Tree.Proper

/-!
# Listings of directories without links

Below a directory without links a listing cannot fail. What it finds is decided by the visible
names alone, and once it may go deeper than there are entries it does not depend on how deep.
No listing, with links or without, finds a file twice.
-/

namespace Relink

namespace Name

theorem pairwise_mergeSort_le (names : List String) :
    (names.mergeSort le).Pairwise fun first second => le first second = true := by
  refine List.pairwise_mergeSort ?_ le_total names
  intro first second third
  exact le_trans

/-- Sorted lists of the same names are the same, also after some names are left out. -/
theorem filter_mergeSort_le {names names' : List String} {keeps : String -> Bool}
    (same : names.filter keeps = names'.filter keeps) :
    (names.mergeSort le).filter keeps = (names'.mergeSort le).filter keeps := by
  refine List.Perm.eq_of_pairwise (fun _ _ _ _ => le_antisymm)
    ((pairwise_mergeSort_le names).filter _) ((pairwise_mergeSort_le names').filter _) ?_
  refine ((List.mergeSort_perm names le).filter keeps).trans ?_
  rw [same]
  exact ((List.mergeSort_perm names' le).filter keeps).symm

end Name

namespace Tree

variable {tree tree' : Tree}

/-! ## Visible names -/

/-- The visible names in a directory, in order. -/
def visibleChildren (tree : Tree) (directory : Location) : List String :=
  (tree.children directory).filter fun name => !isHiddenName name

/-- The name of a location in a directory, if it lies there. -/
def nameIn? (directory location : Location) : Option String :=
  if location.dropLast = directory then location.getLast? else none

/-- The children of a directory are the names of the locations in it, in order. -/
theorem children_eq (directory : Location) :
    tree.children directory =
      (tree.locations.filterMap (nameIn? directory)).mergeSort Name.le := by
  rw [locations, List.filterMap_map]
  rfl

/-- The names in a directory are known when those found there are in order. -/
theorem children_of_sorted {directory : Location} {names : List String}
    (found : tree.locations.filterMap (nameIn? directory) = names)
    (sorted : names.Pairwise fun first second => Name.le first second = true) :
    tree.children directory = names := by
  rw [children_eq, found, List.mergeSort_of_pairwise sorted]

/-- The visible names in a directory are known when those found there are in order, and none of
them is hidden. -/
theorem visibleChildren_of_sorted {directory : Location} {names : List String}
    (found : tree.locations.filterMap (nameIn? directory) = names)
    (sorted : names.Pairwise fun first second => Name.le first second = true)
    (visible : names.filter (fun name => !isHiddenName name) = names) :
    tree.visibleChildren directory = names := by
  rw [visibleChildren, children_of_sorted found sorted, visible]

/-- The name in a directory is the last one of a location right below it. -/
theorem nameIn?_eq_some_iff {directory location : Location} {name : String} :
    nameIn? directory location = some name ↔ location = directory ++ [name] := by
  unfold nameIn?
  constructor
  · intro named
    split at named
    · rename_i same
      obtain ⟨outer, rfl⟩ := List.getLast?_eq_some_iff.1 named
      rw [List.dropLast_concat] at same
      rw [same]
    · cases named
  · rintro rfl
    rw [List.dropLast_concat, if_pos rfl, List.getLast?_concat]

/-- A directory shows the same names when only hidden entries are gone. -/
theorem visibleChildren_congr {keep : Location -> Bool} (directory : Location)
    (locations_eq : tree'.locations = tree.locations.filter keep)
    (hidden : ∀ location, keep location = false -> IsHidden location) :
    tree'.visibleChildren directory = tree.visibleChildren directory := by
  rw [visibleChildren, visibleChildren, children_eq, children_eq]
  apply Name.filter_mergeSort_le
  rw [locations_eq]
  induction tree.locations with
  | nil => rfl
  | cons location rest ih =>
    by_cases kept : keep location = true
    · rw [List.filter_cons_of_pos kept, List.filterMap_cons, List.filterMap_cons]
      cases nameIn? directory location with
      | none => exact ih
      | some name =>
        dsimp only
        rw [List.filter_cons, List.filter_cons, ih]
    · rw [List.filter_cons_of_neg kept, ih, List.filterMap_cons]
      obtain ⟨outer, name, rfl, isHidden⟩ := hidden location (by simpa using kept)
      cases named : nameIn? directory (outer ++ [name]) with
      | none => rfl
      | some other =>
        have same : name = other :=
          (List.append_singleton_inj.1 (nameIn?_eq_some_iff.1 named)).2
        dsimp only
        rw [← same, List.filter_cons_of_neg (by simp [isHidden])]

/-! ## What lies below -/

/-- The visible files below a directory without links. -/
def visibleBelow (tree : Tree) : Nat -> Path -> Location -> List Path
  | 0, _, _ => []
  | depth + 1, path, location =>
    (tree.visibleChildren location).flatMap fun name =>
      if (tree.lookup (location ++ [name])).any Entry.isDirectory then
        tree.visibleBelow depth (path.join ⟨name⟩) (location ++ [name])
      else [path.join ⟨name⟩]

/-- The names that lead down to the visible files below a directory without links. -/
def visibleNames (tree : Tree) : Nat -> Location -> List (List String)
  | 0, _ => []
  | depth + 1, location =>
    (tree.visibleChildren location).flatMap fun name =>
      if (tree.lookup (location ++ [name])).any Entry.isDirectory then
        (tree.visibleNames depth (location ++ [name])).map (name :: ·)
      else [[name]]

/-- The visible files below a location are told by their names from there. -/
theorem visibleBelow_eq_map (depth : Nat) (path : Path) (location : Location) :
    tree.visibleBelow depth path location = (tree.visibleNames depth location).map path.below := by
  induction depth generalizing path location with
  | zero => rfl
  | succ depth ih =>
    rw [visibleBelow, visibleNames, List.map_flatMap]
    apply List.flatMap_congr
    intro name _
    split
    · rw [ih, List.map_map]
      rfl
    · rfl

/-- Values that lead to nothing can be left out. -/
theorem flatMap_filter {α β : Type} {keeps : α -> Bool} {step step' : α -> List β}
    {values : List α} (dropped : ∀ value, keeps value = false -> step value = [])
    (kept : ∀ value ∈ values, keeps value = true -> step value = step' value) :
    values.flatMap step = (values.filter keeps).flatMap step' := by
  induction values with
  | nil => rfl
  | cons value values ih =>
    have later := ih fun other member => kept other (List.mem_cons_of_mem _ member)
    by_cases keeps_ : keeps value = true
    · rw [List.filter_cons_of_pos keeps_, List.flatMap_cons, List.flatMap_cons, later,
        kept value (List.mem_cons_self ..) keeps_]
    · rw [List.filter_cons_of_neg keeps_, List.flatMap_cons, later,
        dropped value (by simpa using keeps_), List.nil_append]

/-- Below a directory without links a listing does not fail. -/
theorem LinkFree.listBelow {base : Location} (free : tree.LinkFree base) (depth : Nat)
    (visits : List Visit) (path : Path) (inner : List String) :
    tree.listBelow depth visits ⟨path, base ++ inner⟩ =
      .ok (tree.visibleBelow depth path (base ++ inner)) := by
  induction depth generalizing visits path inner with
  | zero => rfl
  | succ depth ih =>
    -- No entry fails to be listed, as none is a link; so the listing is the plain one.
    have entries : ∀ name ∈ tree.children (base ++ inner),
        tree.listEntry depth visits ⟨path, base ++ inner⟩ name =
          .ok (if isHiddenName name then []
            else if (tree.lookup (base ++ inner ++ [name])).any Entry.isDirectory then
              tree.visibleBelow depth (path.join ⟨name⟩) (base ++ inner ++ [name])
            else [path.join ⟨name⟩]) := by
      intro name child
      obtain ⟨place, member, located⟩ := mem_children.1 child
      obtain ⟨entry, found⟩ := Option.isSome_iff_exists.1
        (lookup_isSome_of_mem (mem_locations.2 ⟨place, member, located⟩))
      unfold listEntry listed
      dsimp only
      rw [found]
      cases entry with
      | link target =>
        rw [List.append_assoc] at found
        exact absurd found (free (inner ++ [name]) target (by simp))
      | directory =>
        dsimp only
        split
        · rfl
        · rw [List.append_assoc]
          exact ih _ _ _
      | file content executable =>
        dsimp only
        split <;> rfl
    have all : (tree.children (base ++ inner)).mapM
        (tree.listEntry depth visits ⟨path, base ++ inner⟩) = .ok _ :=
      mapM_of_forall₂ (List.forall₂_map_right_iff.2 (List.forall₂_same.2 entries))
    rw [listBelow_succ, all, Except.map, ← List.flatMap_def, visibleBelow, visibleChildren]
    congr 1
    refine flatMap_filter (fun name hidden => ?_) (fun name _ visible => ?_)
    · rw [if_pos (by simpa using hidden)]
    · rw [if_neg (by simpa using visible)]

/-- The files in a directory without links. -/
theorem LinkFree.list {base location : Location} {root : Path} (free : tree.LinkFree location)
    (reached : tree.status base root = .ok (location, .directory)) :
    tree.list base root = .ok (tree.visibleBelow tree.listingDepth root location) := by
  have below := free.listBelow tree.listingDepth [] root []
  rw [List.append_nil] at below
  rw [Tree.list, reached]
  exact below

/-- What is found is decided by the visible names and by which of them are directories. -/
theorem visibleBelow_congr
    (names : ∀ directory, tree'.visibleChildren directory = tree.visibleChildren directory)
    (kinds : ∀ directory name, name ∈ tree.visibleChildren directory ->
      (tree'.lookup (directory ++ [name])).any Entry.isDirectory =
        (tree.lookup (directory ++ [name])).any Entry.isDirectory)
    (depth : Nat) (path : Path) (location : Location) :
    tree'.visibleBelow depth path location = tree.visibleBelow depth path location := by
  induction depth generalizing path location with
  | zero => rfl
  | succ depth ih =>
    rw [visibleBelow, visibleBelow, names]
    apply List.flatMap_congr
    intro name member
    rw [kinds location name member, ih]

/-- How many entries lie below a location. -/
def countBelow (tree : Tree) (base : Location) : Nat :=
  tree.locations.countP (isBelow base)

/-- No more can lie below a location than there is in the tree. -/
theorem countBelow_le (base : Location) : tree.countBelow base ≤ tree.listingDepth := by
  have bounded : tree.countBelow base ≤ tree.locations.length := List.countP_le_length
  rw [locations, List.length_map] at bounded
  have squared := Nat.le_mul_self (tree.entries.length + 1)
  rw [listingDepth]
  omega

/-- Fewer entries lie below a child than below its directory. -/
theorem countBelow_lt {directory : Location} {name : String}
    (child : name ∈ tree.children directory) :
    tree.countBelow (directory ++ [name]) < tree.countBelow directory := by
  have member := mem_locations.2 (mem_children.1 child)
  have inner : ∀ location, isBelow (directory ++ [name]) location = true ->
      isBelow directory location = true := by
    intro location below
    simp only [isBelow, Bool.and_eq_true, List.isPrefixOf_iff_prefix, bne_iff_ne] at below ⊢
    obtain ⟨⟨tail, rfl⟩, -⟩ := below
    exact ⟨⟨name :: tail, by simp⟩, by simp⟩
  have both : tree.countBelow (directory ++ [name]) =
      (tree.locations.filter (isBelow directory)).countP (isBelow (directory ++ [name])) := by
    rw [List.countP_filter]
    apply List.countP_congr
    intro location _
    rw [Bool.and_eq_true]
    exact ⟨fun below => ⟨below, inner location below⟩, And.left⟩
  rw [both, countBelow, List.countP_eq_length_filter (l := tree.locations),
    List.countP_lt_length_iff]
  refine ⟨directory ++ [name], List.mem_filter.2 ⟨member, ?_⟩, ?_⟩
  · simp [isBelow]
  · simp [isBelow]

/-- Once it may go deeper than there are entries, a listing does not depend on how deep. -/
theorem visibleBelow_eq {depth depth' : Nat} (path : Path) {location : Location}
    (enough : tree.countBelow location ≤ depth) (enough' : tree.countBelow location ≤ depth') :
    tree.visibleBelow depth path location = tree.visibleBelow depth' path location := by
  have child {name : String} {directory : Location}
      (member : name ∈ tree.visibleChildren directory) := countBelow_lt (List.mem_filter.1 member).1
  induction depth generalizing depth' path location with
  | zero =>
    cases depth' with
    | zero => rfl
    | succ depth' =>
      rw [visibleBelow, visibleBelow, eq_comm, List.flatMap_eq_nil_iff]
      intro name member
      have := child member
      omega
  | succ depth ih =>
    cases depth' with
    | zero =>
      rw [visibleBelow, visibleBelow, List.flatMap_eq_nil_iff]
      intro name member
      have := child member
      omega
    | succ depth' =>
      rw [visibleBelow, visibleBelow]
      apply List.flatMap_congr
      intro name member
      have fewer := child member
      rw [@ih depth' _ _ (by omega) (by omega)]

/-! ## What is found -/

/-- A visible file below a directory: the names that lead down to it. The path of the directory is
that of `base`, and the directory lies at `location`. -/
structure IsVisible (tree : Tree) (base : List String) (location : Location) (file : Path)
    (rest : List String) : Prop where
  ne_nil : rest ≠ []
  areNames : AreNames (base ++ rest)
  areVisible : AreVisible rest
  path : file = Location.path (base ++ rest)
  found : ∃ entry, tree.lookup (location ++ rest) = some entry ∧ entry.isDirectory = false

variable {depth : Nat} {base : List String} {location : Location} {file : Path} {name : String}
  {names : List String}

/-- An entry with a name that is not hidden is a visible child. -/
theorem mem_visibleChildren {entry : Entry}
    (found : tree.lookup (location ++ [name]) = some entry)
    (visible : isHiddenName name = false) : name ∈ tree.visibleChildren location := by
  have member := mem_of_lookup (by simp) found
  exact List.mem_filter.2 ⟨mem_children.2 (mem_locations.1 member), by simp [visible]⟩

/-- What is found is reached by visible names, and is no directory. -/
theorem of_mem_visibleNames (named : tree.Named)
    (member : names ∈ tree.visibleNames depth location) :
    names ≠ [] ∧ AreNames names ∧ AreVisible names ∧
      ∃ entry, tree.lookup (location ++ names) = some entry ∧ entry.isDirectory = false := by
  induction depth generalizing location names with
  | zero => cases member
  | succ depth ih =>
    rw [visibleNames, List.mem_flatMap] at member
    obtain ⟨name, child, member⟩ := member
    obtain ⟨child, visible⟩ := List.mem_filter.1 child
    have isName := isName_of_mem_children named child
    rw [Bool.not_eq_true'] at visible
    split at member
    · obtain ⟨rest, inside, rfl⟩ := List.mem_map.1 member
      obtain ⟨-, areNames, areVisible, found⟩ := ih inside
      rw [List.append_assoc, List.singleton_append] at found
      exact ⟨by simp, List.forall_mem_cons.2 ⟨isName, areNames⟩,
        List.forall_mem_cons.2 ⟨visible, areVisible⟩, found⟩
    · rename_i isFile
      obtain rfl := List.mem_singleton.1 member
      obtain ⟨entry, found⟩ := Option.isSome_iff_exists.1
        (lookup_isSome_of_mem (mem_locations.2 (mem_children.1 child)))
      refine ⟨by simp, .singleton isName, by simpa [AreVisible] using visible, entry, found, ?_⟩
      simpa [found] using isFile

/-- Whatever visible names lead to is found, unless it is a directory. -/
theorem mem_visibleNames (proper : tree.IsProper) (enough : tree.countBelow location ≤ depth)
    (filled : names ≠ []) (areVisible : AreVisible names) {entry : Entry}
    (found : tree.lookup (location ++ names) = some entry) (isFile : entry.isDirectory = false) :
    names ∈ tree.visibleNames depth location := by
  induction depth generalizing location names with
  | zero =>
    have below := List.countP_eq_zero.1 (Nat.le_zero.1 enough) _
      (mem_of_lookup (by simp [filled]) found)
    simp [isBelow, filled] at below
  | succ depth ih =>
    obtain ⟨name, rest, rfl⟩ := List.exists_cons_of_ne_nil filled
    obtain ⟨visible, areVisible⟩ := List.forall_mem_cons.1 areVisible
    rw [List.append_cons] at found
    rw [visibleNames, List.mem_flatMap]
    by_cases last : rest = []
    · subst last
      rw [List.append_nil] at found
      refine ⟨name, mem_visibleChildren found visible, ?_⟩
      rw [if_neg (by simp [found, isFile])]
      exact List.mem_singleton_self _
    · have holder := proper.lookup_outer last found
      have child := mem_visibleChildren holder visible
      refine ⟨name, child, ?_⟩
      rw [if_pos (by simp [holder]; rfl)]
      have fewer := countBelow_lt (List.mem_filter.1 child).1
      exact List.mem_map_of_mem (ih (by omega) last areVisible found)

/-- What is found is a visible file. -/
theorem exists_of_mem_visibleBelow (named : tree.Named) (areBase : AreNames base)
    (member : file ∈ tree.visibleBelow depth (Location.path base) location) :
    ∃ rest, tree.IsVisible base location file rest := by
  rw [visibleBelow_eq_map] at member
  obtain ⟨rest, inside, rfl⟩ := List.mem_map.1 member
  obtain ⟨filled, areNames, areVisible, found⟩ := of_mem_visibleNames named inside
  have areAll := areBase.append areNames
  exact ⟨rest, filled, areAll, areVisible, Location.below_path areAll, found⟩

/-- Every visible file is found. -/
theorem IsVisible.mem_visibleBelow (proper : tree.IsProper) {rest : List String}
    (isVisible : tree.IsVisible base location file rest)
    (enough : tree.countBelow location ≤ depth) :
    file ∈ tree.visibleBelow depth (Location.path base) location := by
  obtain ⟨filled, areNames, areVisible, path, entry, found, isFile⟩ := isVisible
  rw [visibleBelow_eq_map, path, ← Location.below_path areNames]
  exact List.mem_map_of_mem (mem_visibleNames proper enough filled areVisible found isFile)

/-- No name is among the children of a directory twice. -/
theorem nodup_children (nodup : tree.locations.Nodup) (directory : Location) :
    (tree.children directory).Nodup := by
  rw [children_eq]
  refine (List.mergeSort_perm ..).nodup_iff.2 (nodup.filterMap ?_)
  intro location location' name here here'
  exact (nameIn?_eq_some_iff.1 here).trans (nameIn?_eq_some_iff.1 here').symm

/-- The entries of a directory stand for different files, so that none is found twice if none is
found twice in an entry. -/
theorem nodup_flatten {visits : List Visit} {here : Visit} {names : List String}
    {found : List (List Path)} (named : tree.Named)
    (listed : List.Forall₂ (fun name files => tree.listEntry depth visits here name = .ok files)
      names found) (areNames : AreNames names) (nodup : names.Nodup)
    (once : ∀ files ∈ found, files.Nodup) : found.flatten.Nodup := by
  have reached {name : String} {files : List Path} (isName : IsName name)
      (entry : tree.listEntry depth visits here name = .ok files) :=
    mem_of_listEntry isName (fun done => mem_of_listBelow named done) entry
  induction listed with
  | nil => exact List.nodup_nil
  | @cons name files names found entry later ih =>
    obtain ⟨isName, areNames⟩ := List.forall_mem_cons.1 areNames
    obtain ⟨absent, nodup⟩ := List.nodup_cons.1 nodup
    obtain ⟨here_, once⟩ := List.forall_mem_cons.1 once
    rw [List.flatten_cons, List.nodup_append]
    refine ⟨here_, ih areNames nodup once, ?_⟩
    rintro file member _ member' rfl
    obtain ⟨files', inside, member'⟩ := List.mem_flatten.1 member'
    obtain ⟨name', child, entry'⟩ := exists_of_mem_forall₂ later inside
    obtain ⟨rest, shape, areRest, -⟩ := reached isName entry file member
    obtain ⟨rest', shape', areRest', -⟩ := reached (areNames name' child) entry' file member'
    have same := Path.below_inj areRest areRest' (shape.symm.trans shape')
    exact absent ((List.cons.inj same).1 ▸ child)

/-- No file is found twice, also where links are followed. -/
theorem nodup_listBelow (proper : tree.IsProper) {visits : List Visit} {here : Visit}
    {files : List Path} (done : tree.listBelow depth visits here = .ok files) : files.Nodup := by
  induction depth generalizing visits here files with
  | zero =>
    obtain rfl := Except.ok.inj done
    exact List.nodup_nil
  | succ depth ih =>
    obtain ⟨parts, listed, rfl⟩ := exists_parts done
    have areNames : AreNames (tree.children here.location) := fun name child =>
      isName_of_mem_children proper.named child
    refine nodup_flatten proper.named listed areNames (nodup_children proper.nodup _) ?_
    intro part inside
    obtain ⟨name, -, entry⟩ := exists_of_mem_forall₂ listed inside
    unfold listEntry at entry
    dsimp only at entry
    split at entry
    · cases entry
    · split at entry
      · obtain rfl := Except.ok.inj entry
        exact List.nodup_nil
      · split at entry
        · exact ih entry
        · obtain rfl := Except.ok.inj entry
          exact List.nodup_singleton _

/-- A listing holds no file twice. -/
theorem nodup_list (proper : tree.IsProper) {base : Location} {root : Path} {files : List Path}
    (done : tree.list base root = .ok files) : files.Nodup := by
  unfold list at done
  split at done
  · cases done
  · exact nodup_listBelow proper done
  · obtain rfl := Except.ok.inj done
    exact List.nodup_singleton _

end Tree
end Relink
