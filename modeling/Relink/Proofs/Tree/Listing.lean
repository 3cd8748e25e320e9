import Mathlib.Data.List.Forall2
import Relink.Proofs.Path.Below
import Relink.Tree.Listing

/-!
# What a listing finds

Every path of a listing leads down from the listed directory by visible names. Where no link lies
below the directory, the listing cannot fail, and it does not depend on how deep it may go.
-/

namespace Relink

/-- The results of a step on each of several values, when all steps succeed. -/
theorem forall₂_of_mapM {ε α β : Type} {step : α -> Except ε β} {values : List α}
    {results : List β} (done : values.mapM step = .ok results) :
    List.Forall₂ (fun value result => step value = .ok result) values results := by
  induction values generalizing results with
  | nil =>
    rw [List.mapM_nil] at done
    obtain rfl := Except.ok.inj done
    exact .nil
  | cons value values ih =>
    rw [List.mapM_cons] at done
    cases first : step value with
    | error fault => rw [first] at done; cases done
    | ok result =>
      cases rest : values.mapM step with
      | error fault => rw [first, rest] at done; cases done
      | ok others =>
        rw [first, rest] at done
        obtain rfl := Except.ok.inj done
        exact .cons first (ih rest)

theorem mapM_of_forall₂ {ε α β : Type} {step : α -> Except ε β} {values : List α}
    {results : List β}
    (done : List.Forall₂ (fun value result => step value = .ok result) values results) :
    values.mapM step = .ok results := by
  induction done with
  | nil => rfl
  | cons first _ ih =>
    rw [List.mapM_cons, first, ih]
    rfl

theorem exists_of_mem_forall₂ {α β : Type} {relation : α -> β -> Prop} {values : List α}
    {results : List β} (all : List.Forall₂ relation values results) {result : β}
    (member : result ∈ results) : ∃ value ∈ values, relation value result := by
  induction all with
  | nil => cases member
  | cons first _ ih =>
    rcases List.mem_cons.1 member with rfl | later
    · exact ⟨_, List.mem_cons_self .., first⟩
    · obtain ⟨value, inside, related⟩ := ih later
      exact ⟨value, List.mem_cons_of_mem _ inside, related⟩

theorem forall₂_with_mem {α β : Type} {relation : α -> β -> Prop} {values : List α}
    {results : List β} (all : List.Forall₂ relation values results) :
    List.Forall₂ (fun value result => relation value result ∧ value ∈ values ∧ result ∈ results)
      values results := by
  induction all with
  | nil => exact .nil
  | cons first _ ih =>
    refine .cons ⟨first, List.mem_cons_self .., List.mem_cons_self ..⟩ (ih.imp ?_)
    rintro value result ⟨related, inside, member⟩
    exact ⟨related, List.mem_cons_of_mem _ inside, List.mem_cons_of_mem _ member⟩

namespace Tree

variable {tree : Tree}

/-- Names by which one goes down in a listing. -/
def AreVisible (names : List String) : Prop :=
  ∀ name ∈ names, isHiddenName name = false

instance (names : List String) : Decidable (AreVisible names) :=
  inferInstanceAs (Decidable (∀ name ∈ names, isHiddenName name = false))

/-- Whether the last name of a location is hidden. -/
def IsHidden (location : Location) : Prop :=
  ∃ outer name, location = outer ++ [name] ∧ isHiddenName name = true

/-- A location that is reached by visible names is not hidden. -/
theorem AreVisible.not_isHidden {names : List String} (areVisible : AreVisible names)
    (filled : names ≠ []) (base : Location) : ¬IsHidden (base ++ names) := by
  rintro ⟨outer, name, shape, isHidden⟩
  obtain ⟨inner, last, rfl⟩ := (List.eq_nil_or_concat names).resolve_left filled
  rw [List.concat_eq_append] at areVisible shape
  rw [← List.append_assoc] at shape
  obtain rfl : last = name := (List.append_singleton_inj.1 shape).2
  have visible := areVisible last (by simp)
  rw [isHidden] at visible
  cases visible

theorem mem_children {directory : Location} {name : String} :
    name ∈ tree.children directory ↔ ∃ place ∈ tree.entries, place.1 = directory ++ [name] := by
  rw [children, List.mem_mergeSort, List.mem_filterMap]
  constructor
  · rintro ⟨⟨known, entry⟩, member, found⟩
    dsimp only at found
    split at found
    · rename_i same
      refine ⟨⟨known, entry⟩, member, ?_⟩
      obtain ⟨outer, shape⟩ := List.getLast?_eq_some_iff.1 found
      rw [shape, List.dropLast_concat] at same
      exact shape.trans (by rw [same])
    · cases found
  · rintro ⟨⟨known, entry⟩, member, rfl⟩
    refine ⟨_, member, ?_⟩
    dsimp only
    rw [List.dropLast_concat, if_pos rfl, List.getLast?_concat]

theorem isName_of_mem_children {directory : Location} {name : String} (named : tree.Named)
    (member : name ∈ tree.children directory) : IsName name := by
  obtain ⟨place, inside, shape⟩ := mem_children.1 member
  exact named place inside name (by rw [shape]; simp)

/-- The visible files that an entry of a directory stands for. -/
def listEntry (tree : Tree) (depth : Nat) (visits : List Visit) (here : Visit) (name : String) :
    Except FileFault (List Path) :=
  let path := here.path.join ⟨name⟩
  match tree.listed (here :: visits) path (here.location ++ [name]) with
  | .error fault => .error fault
  | .ok (location, entry) =>
    if isHiddenName name then .ok []
    else if entry.isDirectory then tree.listBelow depth (here :: visits) ⟨path, location⟩
    else .ok [path]

/-- A listing is made of the listings of the entries of its directory. -/
theorem listBelow_succ (depth : Nat) (visits : List Visit) (here : Visit) :
    tree.listBelow (depth + 1) visits here =
      ((tree.children here.location).mapM (tree.listEntry depth visits here)).map
        List.flatten := by
  have bound {results : Except FileFault (List (List Path))} :
      (results >>= fun found => .ok found.flatten) = results.map List.flatten := by
    cases results <;> rfl
  rw [listBelow, ← bound]
  congr 2
  funext name
  unfold listEntry
  dsimp only
  cases tree.listed (here :: visits) (here.path.join ⟨name⟩) (here.location ++ [name]) <;> rfl

/-- What a listing found is what its entries stand for, each in its turn. -/
theorem exists_parts {depth : Nat} {visits : List Visit} {here : Visit} {files : List Path}
    (done : tree.listBelow (depth + 1) visits here = .ok files) :
    ∃ parts, List.Forall₂ (fun name part => tree.listEntry depth visits here name = .ok part)
        (tree.children here.location) parts ∧ files = parts.flatten := by
  rw [listBelow_succ] at done
  cases all : (tree.children here.location).mapM (tree.listEntry depth visits here) with
  | error fault => rw [all] at done; cases done
  | ok parts =>
    rw [all] at done
    exact ⟨parts, forall₂_of_mapM all, (Except.ok.inj done).symm⟩

/-- What an entry of a directory stands for is reached by its name, and then by visible names. -/
theorem mem_of_listEntry {depth : Nat} {visits : List Visit} {here : Visit} {name : String}
    {files : List Path} (isName : IsName name)
    (inner : ∀ {visits : List Visit} {below : Visit} {files : List Path},
      tree.listBelow depth visits below = .ok files -> ∀ file ∈ files, ∃ rest, rest ≠ [] ∧
        file = below.path.below rest ∧ AreNames rest ∧ AreVisible rest)
    (done : tree.listEntry depth visits here name = .ok files) :
    ∀ file ∈ files, ∃ rest, file = here.path.below (name :: rest) ∧ AreNames (name :: rest) ∧
      AreVisible (name :: rest) := by
  intro file member
  unfold listEntry at done
  dsimp only at done
  split at done
  · cases done
  · split at done
    · obtain rfl := Except.ok.inj done
      cases member
    · rename_i visible
      rw [Bool.not_eq_true] at visible
      split at done
      · obtain ⟨rest, -, rfl, areRest, visibleRest⟩ := inner done file member
        exact ⟨rest, rfl, List.forall_mem_cons.2 ⟨isName, areRest⟩,
          List.forall_mem_cons.2 ⟨visible, visibleRest⟩⟩
      · obtain rfl := Except.ok.inj done
        rw [List.mem_singleton.1 member]
        exact ⟨[], rfl, .singleton isName, by simpa [AreVisible] using visible⟩

/-- A listing goes down by visible names. -/
theorem mem_of_listBelow {depth : Nat} {visits : List Visit} {here : Visit} {files : List Path}
    (named : tree.Named) (done : tree.listBelow depth visits here = .ok files) :
    ∀ file ∈ files, ∃ rest, rest ≠ [] ∧ file = here.path.below rest ∧ AreNames rest ∧
      AreVisible rest := by
  induction depth generalizing visits here files with
  | zero =>
    obtain rfl := Except.ok.inj done
    simp
  | succ depth ih =>
    intro file member
    obtain ⟨parts, listed, rfl⟩ := exists_parts done
    obtain ⟨part, inside, member⟩ := List.mem_flatten.1 member
    obtain ⟨name, child, entry⟩ := exists_of_mem_forall₂ listed inside
    obtain ⟨rest, shape, areNames, areVisible⟩ :=
      mem_of_listEntry (isName_of_mem_children named child) ih entry file member
    exact ⟨name :: rest, by simp, shape, areNames, areVisible⟩

/-- A listing holds a file itself, or what visible names lead down to from a directory. -/
theorem mem_of_list {base : Location} {root file : Path} {files : List Path} (named : tree.Named)
    (done : tree.list base root = .ok files) (member : file ∈ files) :
    ∃ rest, file = root.below rest ∧ AreNames rest ∧ AreVisible rest := by
  unfold list at done
  split at done
  · cases done
  · obtain ⟨rest, -, shape, areNames, areVisible⟩ := mem_of_listBelow named done file member
    exact ⟨rest, shape, areNames, areVisible⟩
  · obtain rfl := Except.ok.inj done
    exact ⟨[], List.mem_singleton.1 member, .nil, fun _ impossible => by cases impossible⟩

end Tree
end Relink
