import Relink.Proofs.Tree.Keeping

/-!
# Trees of a file system

In the tree of a file system every entry lies in a directory, and no two entries lie at the same
location. Then nothing is hidden behind another entry: a tree is told from another one by what
lies where.
-/

namespace Relink

/-- Where no key comes twice, what is listed for a key is found. -/
theorem lookup_of_mem_of_nodup {α β : Type} [BEq α] [LawfulBEq α] {pairs : List (α × β)}
    {pair : α × β} (nodup : (pairs.map Prod.fst).Nodup) (member : pair ∈ pairs) :
    pairs.lookup pair.1 = some pair.2 := by
  obtain ⟨before, after, rfl⟩ := List.append_of_mem member
  rw [List.lookup_eq_some_iff]
  refine ⟨before, after, rfl, fun other earlier => ?_⟩
  rw [List.map_append, List.map_cons, List.nodup_append] at nodup
  have apart := nodup.2.2 other.1 (List.mem_map_of_mem earlier) pair.1 (List.mem_cons_self ..)
  simpa using Ne.symm apart

namespace Tree

variable {tree tree' : Tree}

/-- Whether a file system can have a tree. -/
structure IsProper (tree : Tree) : Prop where
  named : tree.Named
  nodup : tree.locations.Nodup
  rooted : ∀ location ∈ tree.locations,
    location ≠ [] ∧ tree.lookup location.dropLast = some .directory

instance (tree : Tree) : Decidable tree.IsProper :=
  decidable_of_iff (tree.Named ∧ tree.locations.Nodup ∧ ∀ location ∈ tree.locations,
      location ≠ [] ∧ tree.lookup location.dropLast = some .directory)
    ⟨fun ⟨named, nodup, rooted⟩ => ⟨named, nodup, rooted⟩,
      fun ⟨named, nodup, rooted⟩ => ⟨named, nodup, rooted⟩⟩

/-- What an entry lies below is a directory. -/
theorem IsProper.lookup_outer (proper : tree.IsProper) {base inner : Location} {entry : Entry}
    (filled : inner ≠ []) (found : tree.lookup (base ++ inner) = some entry) :
    tree.lookup base = some .directory := by
  induction inner using List.reverseRecOn generalizing entry with
  | nil => exact absurd rfl filled
  | append_singleton outer name ih =>
    obtain ⟨-, holder⟩ := proper.rooted _ (mem_of_lookup (by simp) found)
    rw [← List.append_assoc, List.dropLast_concat] at holder
    by_cases top : outer = []
    · rwa [top, List.append_nil] at holder
    · exact ih top holder

/-- An entry is what lies at its location, unless another one lies there too. -/
theorem lookup_of_mem (nodup : tree.locations.Nodup) {place : Location × Entry}
    (filled : place.1 ≠ []) (member : place ∈ tree.entries) :
    tree.lookup place.1 = some place.2 := by
  rw [lookup, if_neg filled]
  exact lookup_of_mem_of_nodup nodup member

theorem entries_eq (nodup : tree.locations.Nodup) (filled : [] ∉ tree.locations) :
    tree.entries =
      tree.locations.map fun location => (location, (tree.lookup location).getD .directory) := by
  have each : ∀ place ∈ tree.entries,
      (place.1, (tree.lookup place.1).getD .directory) = place := by
    intro place member
    have proper : place.1 ≠ [] := fun top => filled (top ▸ List.mem_map_of_mem member)
    rw [lookup_of_mem nodup proper member, Option.getD_some]
  rw [locations, List.map_map]
  exact ((List.map_congr_left each).trans (List.map_id _)).symm

/-- Trees with the same locations, in which the same lies everywhere, are the same. -/
theorem eq_of_lookup (nodup : tree.locations.Nodup) (filled : [] ∉ tree.locations)
    (same : tree'.locations = tree.locations)
    (lookups : ∀ location, tree'.lookup location = tree.lookup location) : tree' = tree := by
  have entries' := @entries_eq tree' (same ▸ nodup) (same ▸ filled)
  rw [same] at entries'
  simp only [lookups] at entries'
  cases tree
  cases tree'
  exact congrArg Tree.mk (entries'.trans (entries_eq nodup filled).symm)

end Tree
end Relink
