import Relink.Proofs.Tree.Visible

/-!
# The order of listings

A listing goes through a directory in the order of the names, and finishes what lies below a name
before it comes to the next one. So the files are in the order of their components, where names
are compared byte by byte. This is not the order of the paths as texts: a slash is higher than a
point or a hyphen, but what lies in `a` comes before `a.js` and `a-b.js`.
-/

namespace Relink

/-- Whether a name is the one that its bytes write, so that they tell it apart from others. -/
def Name.IsExact (name : String) : Prop :=
  ofBytes (bytes name) = name

instance (name : String) : Decidable (Name.IsExact name) :=
  inferInstanceAs (Decidable (_ = _))

/-- The names that bytes write are told apart by their bytes. -/
theorem Name.isExact_ofBytes (bytes : List UInt8) : IsExact (ofBytes bytes) := by
  rw [IsExact, bytes_ofBytes]

/-- Names that are told apart by their bytes are ordered by them. -/
theorem Name.bytes_lt_of_le {first second : String} (isExact : IsExact first)
    (isExact' : IsExact second) (before : le first second = true) (apart : first ≠ second) :
    bytes first < bytes second := by
  rw [le_iff] at before
  refine before.resolve_right fun ⟨same, _⟩ => apart ?_
  rw [← isExact, same, isExact']

namespace Tree

variable {tree : Tree} {base location : Location} {root : Path}

/-- Whether the names in a tree are told apart by their bytes. -/
def IsExact (tree : Tree) : Prop :=
  ∀ location ∈ tree.locations, ∀ name ∈ location, Name.IsExact name

instance (tree : Tree) : Decidable tree.IsExact :=
  inferInstanceAs (Decidable (∀ location ∈ tree.locations, ∀ name ∈ location, Name.IsExact name))

/-! ## The order of what is found -/

theorem pairwise_visibleChildren (nodup : tree.locations.Nodup) (isExact : tree.IsExact)
    (directory : Location) :
    (tree.visibleChildren directory).Pairwise fun first second =>
      Name.bytes first < Name.bytes second := by
  refine List.Pairwise.filter _ ?_
  have ordered : (tree.children directory).Pairwise fun first second =>
      Name.le first second = true := by
    rw [children]
    exact Name.pairwise_mergeSort_le _
  have exact_ {name : String} (member : name ∈ tree.children directory) : Name.IsExact name :=
    isExact _ (mem_locations.2 (mem_children.1 member)) name (by simp)
  refine (ordered.and (nodup_children nodup directory)).imp_of_mem ?_
  rintro first second member member' ⟨before, apart⟩
  exact Name.bytes_lt_of_le (exact_ member) (exact_ member') before apart

/-- What is found is in order: what one name of a directory leads to by the induction, and what
different names lead to by the names. -/
theorem pairwise_visibleNames (nodup : tree.locations.Nodup) (isExact : tree.IsExact)
    (depth : Nat) (location : Location) :
    (tree.visibleNames depth location).Pairwise fun first second =>
      first.map Name.bytes < second.map Name.bytes := by
  have begins {depth : Nat} {location : Location} {name : String} {names : List String}
      (member : names ∈ if (tree.lookup (location ++ [name])).any Entry.isDirectory then
          (tree.visibleNames depth (location ++ [name])).map (name :: ·)
        else [[name]]) : ∃ rest, names = name :: rest := by
    split at member
    · obtain ⟨rest, -, rfl⟩ := List.mem_map.1 member
      exact ⟨rest, rfl⟩
    · exact ⟨[], List.mem_singleton.1 member⟩
  induction depth generalizing location with
  | zero => exact .nil
  | succ depth ih =>
    rw [visibleNames, List.pairwise_flatMap]
    refine ⟨fun name _ => ?_, (pairwise_visibleChildren nodup isExact location).imp ?_⟩
    · split
      · rw [List.pairwise_map]
        refine (ih (location ++ [name])).imp fun before => ?_
        exact List.cons_lt_cons_iff.2 (.inr ⟨rfl, before⟩)
      · exact List.pairwise_singleton ..
    · intro name name' before names member names' member'
      obtain ⟨rest, rfl⟩ := begins member
      obtain ⟨rest', rfl⟩ := begins member'
      exact List.cons_lt_cons_iff.2 (.inl before)

/-! ## The whole listing -/

/-- Below a directory without links a listing succeeds. It finds each file that visible names lead
to once, and nothing else, in the order of the components that follow those of the directory. -/
theorem list_exact (proper : tree.IsProper) (isExact : tree.IsExact)
    (free : tree.LinkFree location)
    (reached : tree.status base root = .ok (location, .directory)) :
    ∃ found : List (List String), tree.list base root = .ok (found.map root.below) ∧
      (∀ names ∈ found, (root.below names).components = root.components ++ names.map .name) ∧
      (found.Pairwise fun first second => first.map Name.bytes < second.map Name.bytes) ∧
      (found.map root.below).Nodup ∧
      ∀ names, names ∈ found ↔ names ≠ [] ∧ AreVisible names ∧ ∃ content executable,
        tree.lookup (location ++ names) = some (.file content executable) := by
  have listed : tree.list base root =
      .ok ((tree.visibleNames tree.listingDepth location).map root.below) := by
    rw [free.list reached, visibleBelow_eq_map]
  refine ⟨_, listed, fun names member => ?_, pairwise_visibleNames proper.nodup isExact _ _,
    nodup_list proper listed, fun names => ⟨fun member => ?_, ?_⟩⟩
  · exact Path.components_below (of_mem_visibleNames proper.named member).2.1
  · obtain ⟨filled, -, areVisible, entry, found, isFile⟩ :=
      of_mem_visibleNames proper.named member
    refine ⟨filled, areVisible, ?_⟩
    cases entry with
    | directory => cases isFile
    | file content executable => exact ⟨content, executable, found⟩
    | link target => exact absurd found (free names target filled)
  · rintro ⟨filled, areVisible, content, executable, found⟩
    exact mem_visibleNames proper (countBelow_le location) filled areVisible found rfl

/-- A directory in which the order of the components is not the order of the paths. -/
def orderedTree : Tree :=
  ⟨[(["d"], .directory),
    (["d", "a.js"], .file ByteArray.empty false),
    (["d", "a-b.js"], .file ByteArray.empty false),
    (["d", "a"], .directory),
    (["d", "a", "x.js"], .file ByteArray.empty false),
    (["d", ".a"], .directory),
    (["d", ".a", "x.js"], .file ByteArray.empty false)]⟩

/-- The file in `a` is found, and the one in `.a` is not. -/
theorem list_exact_orderedTree :
    orderedTree.IsProper ∧ orderedTree.IsExact ∧ orderedTree.LinkFree ["d"] ∧
      orderedTree.status [] ⟨"d/"⟩ = .ok (["d"], .directory) ∧
      ∃ found : List (List String),
        orderedTree.list [] ⟨"d/"⟩ = .ok (found.map (Path.below ⟨"d/"⟩)) ∧
        (found.Pairwise fun first second => first.map Name.bytes < second.map Name.bytes) ∧
        ["a", "x.js"] ∈ found ∧ [".a", "x.js"] ∉ found := by
  have proper : orderedTree.IsProper := by decide
  have isExact : orderedTree.IsExact := by decide
  have free : orderedTree.LinkFree ["d"] := linkFree_of_entries (by simp [orderedTree]) _
  have reached : orderedTree.status [] ⟨"d/"⟩ = .ok (["d"], .directory) := by decide
  obtain ⟨found, listed, -, ordered, -, exact_⟩ := list_exact proper isExact free reached
  refine ⟨proper, isExact, free, reached, found, listed, ordered, (exact_ _).2 ?_, fun member => ?_⟩
  · exact ⟨by decide, by decide, ByteArray.empty, false, by decide⟩
  · exact absurd ((exact_ _).1 member).2.1 (by decide)

/-! ## A name that is not Unicode -/

/-- A name that begins with a dot and is not Unicode. -/
def strayName : String :=
  Name.ofBytes [0x2E, 0xFF]

/-- A directory of that name. -/
def strayTree : Tree :=
  ⟨[(["d"], .directory),
    (["d", strayName], .directory),
    (["d", strayName, "x.js"], .file ByteArray.empty false)]⟩

/-- A directory whose name begins with a dot is gone into when the name is not Unicode. -/
theorem list_strayTree :
    strayTree.IsProper ∧ strayTree.IsExact ∧ strayTree.LinkFree ["d"] ∧
      strayTree.status [] ⟨"d"⟩ = .ok (["d"], .directory) ∧
      (Name.bytes strayName).head? = some 0x2E ∧ isHiddenName strayName = false ∧
      strayTree.list [] ⟨"d"⟩ = .ok [⟨"d/" ++ strayName ++ "/x.js"⟩] := by
  have free : strayTree.LinkFree ["d"] := linkFree_of_entries (by simp [strayTree]) _
  have reached : strayTree.status [] ⟨"d"⟩ = .ok (["d"], .directory) := by decide
  have outer : strayTree.visibleChildren ["d"] = [strayName] :=
    visibleChildren_of_sorted (by decide) (by decide) (by decide)
  have inner : strayTree.visibleChildren ["d", strayName] = ["x.js"] :=
    visibleChildren_of_sorted (by decide) (by decide) (by decide)
  have nested : strayTree.visibleBelow (strayTree.listingDepth - 2 + 1)
      ((⟨"d"⟩ : Path).join ⟨strayName⟩) ["d", strayName] =
        [⟨"d/" ++ strayName ++ "/x.js"⟩] := by
    rw [visibleBelow, inner]
    decide
  refine ⟨by decide, by decide, free, reached, by decide, by decide, ?_⟩
  rw [free.list reached,
    show strayTree.listingDepth = strayTree.listingDepth - 2 + 1 + 1 by decide, visibleBelow,
    outer, List.flatMap_singleton, if_pos (by decide)]
  exact congrArg _ nested

end Tree
end Relink
