import Relink.Proofs.Resolution
import Relink.Proofs.Tree.Reach
import Relink.Watch

/-!
# Changes that a listing does not see

A change asks for a run if the last name of its path is visible. A listing goes down by visible
names only, so it asks this of every name. The two say the same of all that lies in visible
directories.
-/

namespace Relink

/-- Whether the end of a path is hidden is told by the last name that leads down to it. -/
theorem Path.isHidden_below {root : Path} {outer : List String} {name : String}
    (areNames : AreNames (outer ++ [name])) :
    (root.below (outer ++ [name])).isHidden = isHiddenName name := by
  rw [isHidden, fileName?_below areNames]
  rfl

namespace Scope

variable {scope : Scope} {root : Path} {outer : List String} {name : String}

/-- Whether changes that come in one burst start a run once it is over. -/
def reruns (scope : Scope) (paths : List Path) : Bool :=
  ((({} : Coalescer).step (.changes (scope.visible paths))).1.step .quiet).2

theorem reruns_iff {paths : List Path} :
    scope.reruns paths = true ↔ ∃ path ∈ paths, scope.covers path = true := by
  have pending : scope.reruns paths = !(scope.visible paths).isEmpty := rfl
  rw [pending, Bool.not_eq_true', List.isEmpty_eq_false_iff, ne_eq, visible, List.filter_eq_nil_iff]
  push Not
  rfl

/-- What lies below a watched path asks for a run if its own name is visible. -/
theorem reruns_below (watched : root ∈ scope) (areNames : AreNames (outer ++ [name])) :
    scope.reruns [root.below (outer ++ [name])] = !isHiddenName name := by
  have inside : scope.any (root.below (outer ++ [name])).startsWith = true :=
    List.any_eq_true.2 ⟨root, watched, Path.startsWith_below areNames⟩
  have covers : scope.covers (root.below (outer ++ [name])) = !isHiddenName name := by
    rw [Scope.covers, inside, Bool.and_true, Path.isHidden_below areNames]
  rw [Bool.eq_iff_iff, reruns_iff, ← covers]
  simp

/-- A change of a file that a listing holds always asks for a run. -/
theorem reruns_of_mem_list {tree : Tree} {base : Location} {files : List Path} {file : Path}
    (watched : root ∈ scope) (named : tree.Named) (done : tree.list base root = .ok files)
    (member : file ∈ files) (other : file ≠ root) : scope.reruns [file] = true := by
  obtain ⟨names, rfl, areNames, areVisible⟩ := Tree.mem_of_list named done member
  obtain ⟨outer, name, rfl⟩ := (List.eq_nil_or_concat names).resolve_left (by
    rintro rfl
    exact other rfl)
  rw [List.concat_eq_append] at areNames areVisible ⊢
  rw [reruns_below watched areNames, areVisible name (by simp)]
  rfl

/-- A change asks for a run exactly if no name on the way is hidden, except where something that is
visible itself lies in a hidden directory. That is when a listing holds the file. -/
theorem reruns_iff_areVisible (watched : root ∈ scope) (areNames : AreNames (outer ++ [name]))
    (apart : Tree.AreVisible outer ∨ isHiddenName name = true) :
    (scope.reruns [root.below (outer ++ [name])] = true ↔ Tree.AreVisible (outer ++ [name])) ∧
      ∀ {tree : Tree} {base location : Location} {files : List Path} {content : ByteArray}
        {executable : Bool}, tree.IsProper -> tree.lookup base = some .directory ->
        tree.list base root = .ok files ->
        tree.status base (root.below (outer ++ [name])) =
          .ok (location, .file content executable) ->
        (scope.reruns [root.below (outer ++ [name])] = true ↔
          root.below (outer ++ [name]) ∈ files) := by
  have lastName : Tree.AreVisible (outer ++ [name]) ↔ isHiddenName name = false := by
    constructor
    · intro all
      exact all name (by simp)
    · intro visible other member
      rcases List.mem_append.1 member with earlier | last
      · have areVisible := apart.resolve_right (by rw [visible]; exact Bool.false_ne_true)
        exact areVisible other earlier
      · rw [List.mem_singleton.1 last, visible]
  have reruns : scope.reruns [root.below (outer ++ [name])] = true ↔
      Tree.AreVisible (outer ++ [name]) := by
    rw [reruns_below watched areNames, lastName, Bool.not_eq_true']
  refine ⟨reruns, ?_⟩
  intro tree base location files content executable proper begins done found
  rw [reruns, Tree.mem_list_iff proper begins (by simp) areNames done found]

theorem reruns_iff_areVisible_samplePackage :
    Scope.reruns [⟨"/p/dist"⟩] [⟨"/p/dist/index.js"⟩] = true ∧
      (⟨"/p/dist/index.js"⟩ : Path) ∈ Snapshot.sampleSnapshot.files := by
  obtain ⟨visible, listed⟩ := @reruns_iff_areVisible [⟨"/p/dist"⟩] ⟨"/p/dist"⟩ [] "index.js"
    (by decide) (by decide) (.inl (by decide))
  have reruns := visible.2 (by decide)
  refine ⟨reruns, (@listed Snapshot.samplePackage.tree ["p"] ["p", "dist", "index.js"] _
    "import './b';".toByteArray false ?_ ?_ ?_ ?_).1 reruns⟩
  · decide
  · decide
  · exact Snapshot.samplePackage_visibleFiles
  · decide

/-- A change in a hidden directory asks for a run, although no listing sees what lies there. -/
theorem reruns_below_hidden :
    ¬∀ (scope : Scope) (root : Path) (names : List String), root ∈ scope -> names ≠ [] ->
      AreNames names -> (scope.reruns [root.below names] = true ↔ Tree.AreVisible names) := by
  intro all
  have cache := all [⟨"/p/dist"⟩] ⟨"/p/dist"⟩ [".cache", "x.js"] (by decide) (by decide)
    (by decide)
  have visible := cache.1 (by decide) ".cache" (by decide)
  revert visible
  decide

end Scope

end Relink
