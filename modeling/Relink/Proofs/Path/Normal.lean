import Relink.Proofs.Path.Below

/-!
# Normal forms

Folding reads a path onto a stack, from which a `..` takes the name before it. The stack is settled
after each component, so what is left is written and read back as it is, and read again onto the
same stack. A normal path is told by this stack, and what is joined to the path is read on from it.
-/

namespace Relink.Path

/-- A stack of components in which nothing is left to fold, the latest of them first: names, and
below them the root or the `..` that lead out of a relative path. -/
inductive Settled : List Component -> Prop where
  | root : Settled [.root]
  | parents (count : Nat) : Settled (List.replicate count .parent)
  | name {text : String} {below : List Component} (isName : IsName text) (settled : Settled below) :
      Settled (.name text :: below)

/-- A path in which nothing is left to fold. -/
structure IsFolded (path : Path) : Prop where
  /-- No component is a `.`. -/
  noCurrent : .current ∉ path.components
  /-- Nothing but other `..` comes before a `..`: no name, and not the root. -/
  climbsFirst : path.components.Pairwise fun earlier later => later = .parent -> earlier = .parent

/-! ## One component and many -/

/-- One more component leaves the stack settled. -/
theorem Settled.fold {stack : List Component} {component : Component} (settled : Settled stack)
    (isPart : component = .parent ∨ ∃ name, component = .name name ∧ IsName name) :
    Settled (Path.fold stack component) := by
  rcases isPart with rfl | ⟨name, rfl, isName⟩
  · cases settled with
    | root => exact .root
    | parents count =>
      cases count with
      | zero => exact .parents 1
      | succ count => exact .parents (count + 2)
    | name _ below => exact below
  · exact .name isName settled

/-- More components leave the stack settled. -/
theorem Settled.foldl {stack components : List Component} (settled : Settled stack)
    (areParts : ∀ component ∈ components,
      component = .parent ∨ ∃ name, component = .name name ∧ IsName name) :
    Settled (components.foldl Path.fold stack) := by
  induction components generalizing stack with
  | nil => exact settled
  | cons component components ih =>
    exact ih (settled.fold (areParts component (List.mem_cons_self ..)))
      fun other member => areParts other (List.mem_cons_of_mem _ member)

/-- Of the front of a path only the root is left on the stack. -/
theorem foldl_components (path : Path) :
    path.components.foldl fold [] =
      (parts path.text).foldl fold (if path.isAbsolute then [.root] else []) := by
  have begins : path.front.foldl fold [] = if path.isAbsolute then [.root] else [] := by
    rw [front]
    split
    · rfl
    · split <;> rfl
  rw [components, List.foldl_append, begins]
  rfl

/-- Folding a path makes a settled stack. -/
theorem settled_components (path : Path) : Settled (path.components.foldl fold []) := by
  rw [foldl_components]
  refine Settled.foldl ?_ fun _ member => of_mem_parts member
  split
  · exact .root
  · exact .parents 0

/-- What is read from a path is read onto the stack of the path. -/
theorem foldl_components_join (base : Path) {text : String} (isRelative : IsRelative text) :
    (base.join ⟨text⟩).components.foldl fold [] =
      (parts text).foldl fold (base.components.foldl fold []) := by
  rw [foldl_components, foldl_components base, parts_join base isRelative, List.foldl_append,
    isAbsolute_join_relative base isRelative]

/-! ## Reading a normal path back -/

/-- The components of a settled stack are read onto the same stack. -/
theorem Settled.foldl_reverse {stack : List Component} (settled : Settled stack) :
    stack.reverse.foldl Path.fold [] = stack := by
  induction settled with
  | root => rfl
  | parents count =>
    rw [List.reverse_replicate]
    induction count with
    | zero => rfl
    | succ count ih =>
      rw [List.replicate_succ', List.foldl_append, ih, ← List.replicate_succ']
      cases count <;> rfl
  | name _ _ ih =>
    rw [List.reverse_cons, List.foldl_append, ih]
    rfl

/-- A last component is joined to the path of the others. -/
theorem ofComponents_concat (components : List Component) (component : Component) :
    ofComponents (components ++ [component]) = (ofComponents components).join ⟨component.text⟩ := by
  rw [ofComponents, List.foldl_append]
  rfl

/-- The path that a settled stack is written as has the components of the stack. -/
theorem Settled.components_ofComponents {stack : List Component} (settled : Settled stack) :
    (ofComponents stack.reverse).components = stack.reverse := by
  induction settled with
  | root => rfl
  | parents count =>
    rw [List.reverse_replicate]
    induction count with
    | zero => rfl
    | succ count ih =>
      rw [List.replicate_succ', ofComponents_concat, components_join_segment _ rfl (by decide), ih]
  | name isName _ ih =>
    rw [List.reverse_cons, ofComponents_concat, Component.text,
      components_join_segment _ (Component.ofSegment?_name isName) isName.noSlash, ih]

theorem components_normalize (path : Path) :
    path.normalize.components = (path.components.foldl fold []).reverse :=
  (settled_components path).components_ofComponents

/-- A path and its normal path are read onto the same stack. -/
theorem foldl_components_normalize (path : Path) :
    path.normalize.components.foldl fold [] = path.components.foldl fold [] := by
  rw [components_normalize, (settled_components path).foldl_reverse]

/-- Paths that are folded alike are normalized alike. -/
theorem normalize_congr {path path' : Path}
    (same : path.components.foldl fold [] = path'.components.foldl fold []) :
    path.normalize = path'.normalize := by
  rw [normalize, normalize, normalComponents, normalComponents, same]

/-! ## Folded paths -/

/-- No dot lies on a settled stack. -/
theorem Settled.noCurrent {stack : List Component} (settled : Settled stack) :
    .current ∉ stack := by
  induction settled with
  | root => decide
  | parents count => exact fun member => Component.noConfusion (List.eq_of_mem_replicate member)
  | name _ _ ih => simpa using ih

/-- On a settled stack, steps up come before everything else. -/
theorem Settled.pairwise {stack : List Component} (settled : Settled stack) :
    stack.Pairwise fun later earlier => later = .parent -> earlier = .parent := by
  induction settled with
  | root => exact List.pairwise_singleton ..
  | parents count => exact List.pairwise_replicate.2 (.inr id)
  | name _ _ ih =>
    exact List.pairwise_cons.2 ⟨fun _ _ impossible => Component.noConfusion impossible, ih⟩

/-- What is normalized is folded. -/
theorem isFolded_normalize (path : Path) : path.normalize.IsFolded := by
  have settled := settled_components path
  constructor
  · rw [components_normalize, List.mem_reverse]
    exact settled.noCurrent
  · rw [components_normalize, List.pairwise_reverse]
    exact settled.pairwise

/-- The root is the first component or none. -/
theorem pairwise_ne_root (path : Path) : path.components.Pairwise fun _ later => later ≠ .root := by
  have solid : ∀ component ∈ parts path.text, component ≠ .root := by
    intro component member
    rcases of_mem_parts member with rfl | ⟨name, rfl, -⟩ <;> exact Component.noConfusion
  have begins : path.front.Pairwise fun _ later => later ≠ .root := by
    rw [front]
    split
    · exact List.pairwise_singleton ..
    · split
      · exact List.pairwise_singleton ..
      · exact .nil
  exact List.pairwise_append.2 ⟨begins, List.pairwise_of_forall_mem_list fun _ _ => solid,
    fun _ _ => solid⟩

/-- A folded path is read onto a stack of all its components. -/
theorem IsFolded.foldl_components {path : Path} (isFolded : path.IsFolded) :
    path.components.foldl fold [] = path.components.reverse := by
  have onlyFirst := pairwise_ne_root path
  obtain ⟨noCurrent, climbsFirst⟩ := isFolded
  generalize path.components = components at *
  induction components using List.reverseRecOn with
  | nil => rfl
  | append_singleton components last ih =>
    obtain ⟨onlyFirst, -, notRoot⟩ := List.pairwise_append.1 onlyFirst
    obtain ⟨climbsFirst, -, climbs⟩ := List.pairwise_append.1 climbsFirst
    rw [List.foldl_append, ih onlyFirst (fun member => noCurrent (List.mem_append_left _ member))
      climbsFirst, List.reverse_append]
    cases last with
    | root =>
      have first : components = [] :=
        List.eq_nil_iff_forall_not_mem.2 fun other member =>
          notRoot other member .root (List.mem_singleton_self _) rfl
      subst first
      rfl
    | current => exact absurd (List.mem_append_right _ (List.mem_singleton_self _)) noCurrent
    | name _ => rfl
    | parent =>
      have parents : components = List.replicate components.length .parent :=
        List.eq_replicate_of_mem fun other member =>
          climbs other member .parent (List.mem_singleton_self _) rfl
      rw [parents, List.reverse_replicate]
      cases components.length <;> rfl

/-- Normalizing keeps the components of a path exactly if it is folded already. -/
theorem normalize_same_iff (path : Path) : path.normalize.same path = true ↔ path.IsFolded := by
  rw [same, decide_eq_true_iff]
  constructor
  · intro kept
    obtain ⟨noCurrent, climbsFirst⟩ := isFolded_normalize path
    rw [kept] at noCurrent climbsFirst
    exact ⟨noCurrent, climbsFirst⟩
  · intro isFolded
    rw [components_normalize, isFolded.foldl_components, List.reverse_reverse]

/-! ## The root -/

/-- An absolute path is one with a root. -/
theorem isAbsolute_iff (path : Path) : path.isAbsolute = true ↔ .root ∈ path.components := by
  have solid : .root ∉ parts path.text := by
    intro member
    rcases of_mem_parts member with impossible | ⟨name, impossible, -⟩ <;> cases impossible
  change _ ↔ .root ∈ path.front ++ parts path.text
  rw [List.mem_append, or_iff_left solid, front]
  cases path.isAbsolute with
  | true => simp
  | false =>
    rw [if_neg (by decide)]
    split <;> simp

/-- Nothing takes the root from a stack, or puts it there. -/
theorem root_mem_foldl {stack components : List Component}
    (areParts : ∀ component ∈ components,
      component = .parent ∨ ∃ name, component = .name name ∧ IsName name) :
    .root ∈ components.foldl fold stack ↔ .root ∈ stack := by
  induction components generalizing stack with
  | nil => exact Iff.rfl
  | cons component components ih =>
    rw [List.foldl_cons, ih fun other member => areParts other (List.mem_cons_of_mem _ member)]
    rcases areParts component (List.mem_cons_self ..) with rfl | ⟨name, rfl, -⟩
    · cases stack with
      | nil => simp [fold]
      | cons top below => cases top <;> simp [fold]
    · simp [fold]

/-- Normalizing keeps whether a path is absolute. -/
theorem isAbsolute_normalize (path : Path) : path.normalize.isAbsolute = path.isAbsolute := by
  rw [Bool.eq_iff_iff, isAbsolute_iff, components_normalize, List.mem_reverse, foldl_components,
    root_mem_foldl fun _ member => of_mem_parts member]
  cases path.isAbsolute <;> simp

/-- Nothing climbs in a folded absolute path. -/
theorem IsFolded.noParent {path : Path} (isFolded : path.IsFolded)
    (isAbsolute : path.isAbsolute = true) : .parent ∉ path.components := by
  have climbsFirst := isFolded.climbsFirst
  rw [components_of_isAbsolute isAbsolute] at climbsFirst ⊢
  rintro (_ | ⟨_, climbs⟩)
  exact Component.noConfusion ((List.pairwise_cons.1 climbsFirst).1 _ climbs rfl)

/-! ## The normal form -/

/-- A normal path is normal already and is folded. It is absolute if the path is, and then nothing
in it climbs. The paths that keep their components are exactly the folded ones. What is joined to a
path may be joined to its normal path. -/
theorem normalize_normalForm (path addition : Path) :
    path.normalize.normalize = path.normalize ∧
      path.normalize.IsFolded ∧
      path.normalize.isAbsolute = path.isAbsolute ∧
      (path.isAbsolute = true -> .parent ∉ path.normalize.components) ∧
      (path.normalize.same path = true ↔ path.IsFolded) ∧
      (path.join addition).normalize = (path.normalize.join addition).normalize := by
  have again := foldl_components_normalize path
  have isFolded := isFolded_normalize path
  have absolute := isAbsolute_normalize path
  refine ⟨normalize_congr again, isFolded, absolute,
    fun isAbsolute => isFolded.noParent (absolute.trans isAbsolute), normalize_same_iff path, ?_⟩
  cases isAbsolute : addition.isAbsolute with
  | true =>
    have alone (base : Path) : base.join addition = addition := by
      rw [join, isAbsolute, if_pos rfl]
    rw [alone, alone]
  | false =>
    apply normalize_congr
    rw [foldl_components_join path isAbsolute, foldl_components_join path.normalize isAbsolute,
      again]

/-- A name that is climbed out of leaves the empty path, which is joined to as if it were not
there. -/
example : (⟨"./a/.."⟩ : Path).normalize = ⟨""⟩ ∧
    ((⟨"./a/.."⟩ : Path).join ⟨"../b"⟩).normalize = ⟨"../b"⟩ := by decide

end Relink.Path
