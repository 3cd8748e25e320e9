import Relink.Proofs.Tree.Reach
import Relink.Proofs.Tree.Removal
import Relink.Proofs.Tree.Stops
import Relink.Proofs.Tree.Visible

/-!
# What hidden entries do to a listing

A listing passes over what is hidden, but it finds it first, and it follows the links that it
meets. Apart from that a hidden entry does nothing: two trees that differ at a hidden location and
below it only have the same listing, as long as no visible link leads there and no hidden link
that is met breaks.
-/

namespace Relink

/-- Steps that find nothing can be left out, once they are known to succeed. -/
theorem map_flatten_mapM_filter {ε α β : Type} {keeps : α -> Bool}
    {step : α -> Except ε (List β)} {values : List α}
    (dropped : ∀ value ∈ values, keeps value = false -> step value = .ok []) :
    (values.mapM step).map List.flatten =
      ((values.filter keeps).mapM step).map List.flatten := by
  induction values with
  | nil => rfl
  | cons value values ih =>
    obtain ⟨here, later⟩ := List.forall_mem_cons.1 dropped
    replace ih := ih later
    rw [List.mapM_cons]
    by_cases kept : keeps value = true
    · rw [List.filter_cons_of_pos kept, List.mapM_cons]
      cases step value with
      | error fault => rfl
      | ok result =>
        generalize values.mapM step = all at ih ⊢
        generalize (values.filter keeps).mapM step = kept at ih ⊢
        cases all with
        | error fault =>
          cases kept with
          | error fault' => exact ih
          | ok _ => cases ih
        | ok found =>
          cases kept with
          | error _ => cases ih
          | ok found' =>
            refine congrArg Except.ok ?_
            exact congrArg (result ++ ·) (Except.ok.inj ih)
    · rw [List.filter_cons_of_neg kept, ← ih, here (by simpa using kept)]
      cases values.mapM step <;> rfl

theorem mapM_congr {ε α β : Type} {step step' : α -> Except ε β} {values : List α}
    (same : ∀ value ∈ values, step value = step' value) :
    values.mapM step = values.mapM step' := by
  induction values with
  | nil => rfl
  | cons value values ih =>
    obtain ⟨here, later⟩ := List.forall_mem_cons.1 same
    rw [List.mapM_cons, List.mapM_cons, here, ih later]

namespace Tree

variable {tree tree' : Tree} {here : Visit} {outer : List Visit} {hidden : Location}
  {name : String} {path : Path}

/-! ## What a listing meets -/

/-- Whether a listing comes to a directory, being in `outer` then. It goes on by visible names, and
through links. -/
inductive Visits (tree : Tree) (base : Location) (root : Path) : List Visit -> Visit -> Prop
  | start {location : Location} (holds : tree.status base root = .ok (location, .directory)) :
      Visits tree base root [] ⟨root, location⟩
  | enter {outer : List Visit} {here : Visit} {name : String} {location : Location}
      (visits : Visits tree base root outer here) (visible : isHiddenName name = false)
      (stands : tree.listed (here :: outer) (here.path.join ⟨name⟩) (here.location ++ [name]) =
        .ok (location, .directory)) :
      Visits tree base root (here :: outer) ⟨here.path.join ⟨name⟩, location⟩

/-- Whether an entry of a directory is a link that leads nowhere, or back to a directory that the
listing is in. -/
def Breaks (tree : Tree) (visits : List Visit) (directory : Location) (name : String) : Prop :=
  (∃ target, tree.lookup (directory ++ [name]) = some (.link target)) ∧
    ∀ location entry,
      tree.walk true linkLimit directory [.down name] = .ok ⟨location, some entry⟩ ->
        entry = .directory ∧ ∃ visit ∈ visits, visit.location = location

/-- An entry that does not break is found. -/
theorem exists_listed (path : Path) (child : name ∈ tree.children here.location)
    (sound : ¬tree.Breaks outer here.location name) :
    ∃ reached, tree.listed outer path (here.location ++ [name]) = .ok reached := by
  obtain ⟨entry, found⟩ := Option.isSome_iff_exists.1
    (lookup_isSome_of_mem (mem_locations.2 (mem_children.1 child)))
  unfold listed
  rw [found]
  cases entry with
  | directory => exact ⟨_, rfl⟩
  | file content executable => exact ⟨_, rfl⟩
  | link target =>
    rw [Breaks, not_and, not_forall] at sound
    obtain ⟨location, leads⟩ := sound ⟨target, found⟩
    obtain ⟨entry, leads⟩ := not_forall.1 leads
    obtain ⟨way, apart⟩ := Classical.not_imp.1 leads
    dsimp only
    rw [List.dropLast_concat, List.getLast?_concat, Option.getD_some, way]
    dsimp only
    split
    · rename_i visit isDirectory search
      refine absurd ⟨?_, visit, List.mem_of_find?_eq_some search, ?_⟩ apart
      · cases entry <;> first | rfl | cases isDirectory
      · simpa using List.find?_some search
    · exact ⟨_, rfl⟩

/-- A hidden entry that does not break adds nothing. -/
theorem listEntry_hidden {depth : Nat} (child : name ∈ tree.children here.location)
    (isHidden : isHiddenName name = true)
    (sound : ¬tree.Breaks (here :: outer) here.location name) :
    tree.listEntry depth outer here name = .ok [] := by
  obtain ⟨⟨location, entry⟩, stands⟩ := exists_listed (here.path.join ⟨name⟩) child sound
  unfold listEntry
  dsimp only
  rw [stands]
  exact if_pos isHidden

/-! ## Depth -/

/-- A listing that is deep enough does not depend on its depth, also where links are followed. -/
theorem listBelow_depth (proper : tree.IsProper) {depth depth' : Nat} {top : Location}
    {nest : List (Location × Location)} (isNest : tree.IsNest outer here top nest)
    (enough : tree.listingDepth < depth + nest.length)
    (enough' : tree.listingDepth < depth' + nest.length) :
    tree.listBelow depth outer here = tree.listBelow depth' outer here := by
  have bounded := isNest.length_le
  -- Neither depth runs out, since a nest is no longer than there are directories.
  induction depth generalizing depth' outer here top nest with
  | zero => omega
  | succ depth ih =>
    cases depth' with
    | zero => omega
    | succ depth' =>
      rw [listBelow_succ, listBelow_succ]
      refine congrArg _ (mapM_congr fun name child => ?_)
      unfold listEntry
      dsimp only
      cases stands : tree.listed (here :: outer) (here.path.join ⟨name⟩)
          (here.location ++ [name]) with
      | error fault => rfl
      | ok reached =>
        obtain ⟨location, entry⟩ := reached
        dsimp only
        cases entry with
        | file content executable => rfl
        | link target => rfl
        | directory =>
          obtain ⟨top', nest', isNest', deeper⟩ := isNest.enter proper stands
          have same := @ih _ _ depth' _ _ isNest' (by omega) (by omega) isNest'.length_le
          rw [same]

/-! ## Trees that differ at one location and below it -/

/-- Whether two trees hold the same everywhere but at a location and below it. -/
def DifferAt (tree tree' : Tree) (location : Location) : Prop :=
  ∀ other, ¬location <+: other -> tree'.lookup other = tree.lookup other

/-- A tree differs so from the tree without what lies there. -/
theorem differAt_without (filled : hidden ≠ []) : tree.DifferAt (tree.without hidden) hidden := by
  intro other aside
  rw [lookup_without filled, if_neg aside]

/-- A name in a directory that does not lie at or below a location leads to the location itself, or
past it. -/
theorem aside_concat {directory : Location} (aside : ¬hidden <+: directory)
    (other : directory ++ [name] ≠ hidden) : ¬hidden <+: directory ++ [name] := by
  intro below
  rcases List.prefix_concat_iff.1 below with same | above
  · exact other same.symm
  · exact aside above

/-- A visible name does not lead to a hidden location. -/
theorem IsHidden.concat_ne (isHidden : IsHidden hidden) (visible : isHiddenName name = false)
    (directory : Location) : directory ++ [name] ≠ hidden := by
  rintro rfl
  have areVisible : AreVisible [name] := by simpa [AreVisible] using visible
  exact areVisible.not_isHidden (by simp) directory isHidden

/-- A directory that does not lie there holds the same names in both trees, up to the location
itself. -/
theorem DifferAt.filter_children (differ : tree.DifferAt tree' hidden) (proper : tree.IsProper)
    (proper' : tree'.IsProper) {directory : Location} (aside : ¬hidden <+: directory) :
    ((tree'.children directory).filter fun name => directory ++ [name] != hidden) =
      (tree.children directory).filter fun name => directory ++ [name] != hidden := by
  have sorted (tree : Tree) : (tree.children directory).Pairwise fun first second =>
      Name.le first second = true := by
    rw [children_eq]
    exact Name.pairwise_mergeSort_le _
  have members (tree : Tree) (name : String) : name ∈ tree.children directory ↔
      (tree.lookup (directory ++ [name])).isSome := by
    rw [mem_children, ← mem_locations]
    constructor
    · exact lookup_isSome_of_mem
    · intro found
      obtain ⟨entry, found⟩ := Option.isSome_iff_exists.1 found
      exact mem_of_lookup (by simp) found
  refine List.Perm.eq_of_pairwise (fun _ _ _ _ => Name.le_antisymm) ((sorted tree').filter _)
    ((sorted tree).filter _) ?_
  rw [List.perm_ext_iff_of_nodup ((nodup_children proper'.nodup directory).filter _)
    ((nodup_children proper.nodup directory).filter _)]
  intro name
  rw [List.mem_filter, List.mem_filter, members, members]
  refine and_congr_left fun other => ?_
  rw [differ _ (aside_concat aside (by simpa using other))]

/-- Whether a listing leads past a location and what lies below it: the path of its root does, and
each link does that it meets elsewhere. -/
structure LeadsPast (tree : Tree) (base : Location) (root : Path) (location : Location) :
    Prop where
  path : ∀ stop ∈ tree.stopsOf base true root, ¬location <+: stop
  links : ∀ {outer here name target}, tree.Visits base root outer here ->
    tree.lookup (here.location ++ [name]) = some (.link target) ->
      here.location ++ [name] ≠ location ->
        ∀ stop ∈ tree.stops true linkLimit here.location [.down name], ¬location <+: stop

/-- Whether a listing finds what lies at a location whenever it meets it. -/
def IsUnbroken (tree : Tree) (base : Location) (root : Path) (location : Location) : Prop :=
  ∀ {outer here name}, tree.Visits base root outer here -> here.location ++ [name] = location ->
    ¬tree.Breaks (here :: outer) here.location name

variable {base : Location} {root : Path}

/-- A listing takes any other entry for the same in both trees. -/
theorem DifferAt.listed_eq (differ : tree.DifferAt tree' hidden)
    (past : tree.LeadsPast base root hidden) (visits : tree.Visits base root outer here)
    (aside : ¬hidden <+: here.location) (other : here.location ++ [name] ≠ hidden)
    (above : List Visit) (path : Path) :
    tree'.listed above path (here.location ++ [name]) =
      tree.listed above path (here.location ++ [name]) := by
  unfold listed
  rw [differ _ (aside_concat aside other)]
  cases found : tree.lookup (here.location ++ [name]) with
  | none => rfl
  | some entry =>
    cases entry with
    | directory => rfl
    | file content executable => rfl
    | link target =>
      have same := @walk_of_stops tree tree' true linkLimit here.location [.down name]
        fun stop looks => differ stop (past.links visits found other stop looks)
      dsimp only
      rw [List.dropLast_concat, List.getLast?_concat, Option.getD_some, same]

/-- A directory that a listing enters does not lie at or below the location. -/
theorem LeadsPast.aside (past : tree.LeadsPast base root hidden) (isHidden : IsHidden hidden)
    (visits : tree.Visits base root outer here) (aside : ¬hidden <+: here.location)
    (visible : isHiddenName name = false) {location : Location} {above : List Visit}
    (stands : tree.listed above path (here.location ++ [name]) = .ok (location, .directory)) :
    ¬hidden <+: location := by
  have other := isHidden.concat_ne visible here.location
  have filled : hidden ≠ [] := by
    obtain ⟨outer, name, rfl, -⟩ := isHidden
    simp
  rcases listed_inversion stands with ⟨rfl, -⟩ | ⟨⟨target, found⟩, way, -⟩
  · exact aside_concat aside other
  · refine @ground_of_walk tree (fun place => ¬hidden <+: place) _ _ _ _
      (fun below => filled (List.prefix_nil.1 below)) aside ?_ ?_ way
    · exact fun location aside below => aside (below.trans (List.dropLast_prefix location))
    · exact fun stop looks _ => past.links visits found other stop looks

/-- The hidden entry adds nothing to a listing that meets it. -/
theorem IsUnbroken.listEntry_eq (unbroken : tree.IsUnbroken base root hidden)
    (isHidden : IsHidden hidden) (visits : tree.Visits base root outer here) {depth : Nat}
    (child : name ∈ tree.children here.location)
    (dropped : (here.location ++ [name] != hidden) = false) :
    tree.listEntry depth outer here name = .ok [] := by
  have same := bne_eq_false_iff_eq.1 dropped
  refine listEntry_hidden child ?_ (unbroken visits same)
  by_contra visible
  exact isHidden.concat_ne (by simpa using visible) _ same

/-- Any other entry adds the same in both trees, if the directories that it leads to do. -/
theorem DifferAt.listEntry_eq (differ : tree.DifferAt tree' hidden)
    (past : tree.LeadsPast base root hidden) (visits : tree.Visits base root outer here)
    (aside : ¬hidden <+: here.location) (other : here.location ++ [name] ≠ hidden) {depth : Nat}
    (inner : ∀ location, isHiddenName name = false ->
      tree.listed (here :: outer) (here.path.join ⟨name⟩) (here.location ++ [name]) =
        .ok (location, .directory) ->
      tree'.listed (here :: outer) (here.path.join ⟨name⟩) (here.location ++ [name]) =
        .ok (location, .directory) ->
      tree'.listBelow depth (here :: outer) ⟨here.path.join ⟨name⟩, location⟩ =
        tree.listBelow depth (here :: outer) ⟨here.path.join ⟨name⟩, location⟩) :
    tree'.listEntry depth outer here name = tree.listEntry depth outer here name := by
  have same := differ.listed_eq past visits aside other (here :: outer) (here.path.join ⟨name⟩)
  unfold listEntry
  dsimp only
  rw [same] at inner ⊢
  cases stands : tree.listed (here :: outer) (here.path.join ⟨name⟩)
      (here.location ++ [name]) with
  | error fault => dsimp only
  | ok reached =>
    obtain ⟨location, entry⟩ := reached
    dsimp only
    split
    · rfl
    · rename_i visible
      split
      · rename_i isDirectory
        cases entry with
        | directory => exact inner location (by simpa using visible) stands stands
        | file content executable => cases isDirectory
        | link target => cases isDirectory
      · rfl

/-- What a listing finds is the same in both trees, however deep it goes. -/
theorem DifferAt.listBelow_eq (differ : tree.DifferAt tree' hidden) (proper : tree.IsProper)
    (proper' : tree'.IsProper) (isHidden : IsHidden hidden)
    (past : tree.LeadsPast base root hidden) (unbroken : tree.IsUnbroken base root hidden)
    (unbroken' : tree'.IsUnbroken base root hidden) {depth : Nat}
    (visits : tree.Visits base root outer here) (visits' : tree'.Visits base root outer here)
    (aside : ¬hidden <+: here.location) :
    tree'.listBelow depth outer here = tree.listBelow depth outer here := by
  induction depth generalizing outer here with
  | zero => rfl
  | succ depth ih =>
    rw [listBelow_succ, listBelow_succ,
      map_flatten_mapM_filter fun _ => unbroken.listEntry_eq isHidden visits,
      map_flatten_mapM_filter fun _ => unbroken'.listEntry_eq isHidden visits',
      differ.filter_children proper proper' aside]
    refine congrArg _ (mapM_congr fun name member => ?_)
    have other : here.location ++ [name] ≠ hidden := by simpa using (List.mem_filter.1 member).2
    refine differ.listEntry_eq past visits aside other fun location visible stands stands' => ?_
    exact ih (visits.enter visible stands) (visits'.enter visible stands')
      (past.aside isHidden visits aside visible stands)

/-- A listing does not depend on its depth, as long as it is deep enough. -/
theorem list_depth (proper : tree.IsProper) {location : Location} {depth : Nat}
    (found : tree.lookup location = some .directory) (enough : tree.listingDepth ≤ depth) :
    tree.listBelow tree.listingDepth [] ⟨root, location⟩ =
      tree.listBelow depth [] ⟨root, location⟩ := by
  have isNest := IsNest.start (⟨root, location⟩ : Visit) found
  exact listBelow_depth proper isNest (by simp) (by simp; omega)

/-- Two trees that differ at a hidden location and below it only, as where an entry was removed or
added there, have the same listing, and it fails in the same way or in neither. Links are followed,
so that neither the path of the directory nor a link that the listing meets elsewhere may lead
there, and a link that lies there must not break. -/
theorem list_hidden (proper : tree.IsProper) (proper' : tree'.IsProper)
    (begins : tree.lookup base = some .directory) (isHidden : IsHidden hidden)
    (differ : tree.DifferAt tree' hidden)
    (below : ∀ location, tree.status base root = .ok (location, .directory) ->
      ¬hidden <+: location)
    (past : tree.LeadsPast base root hidden) (unbroken : tree.IsUnbroken base root hidden)
    (unbroken' : tree'.IsUnbroken base root hidden) :
    tree'.list base root = tree.list base root := by
  have same : tree'.status base root = tree.status base root := by
    unfold status
    rw [resolve_of_stops fun stop looks => differ stop (past.path stop looks)]
  unfold list
  rw [same]
  cases holds : tree.status base root with
  | error cause => rfl
  | ok place =>
    obtain ⟨location, entry⟩ := place
    cases entry with
    | file content executable => rfl
    | link target => rfl
    | directory =>
      have aside := below location holds
      have found := proper.lookup_of_status begins holds
      have found' := (differ location aside).trans found
      dsimp only
      rw [list_depth proper found (Nat.le_max_left _ tree'.listingDepth),
        list_depth proper' found' (Nat.le_max_right tree.listingDepth _)]
      exact differ.listBelow_eq proper proper' isHidden past unbroken unbroken' (.start holds)
        (.start (same.trans holds)) aside

/-- A directory with a hidden one, and with a hidden and a visible link. -/
def prunedTree : Tree :=
  ⟨[(["d"], .directory),
    (["d", ".cache"], .directory),
    (["d", ".cache", "x.js"], .file ByteArray.empty false),
    (["d", ".keep"], .link ⟨"index.js"⟩),
    (["d", "index.js"], .file ByteArray.empty false),
    (["d", "lib"], .link ⟨"../e"⟩),
    (["e"], .directory),
    (["e", "y.js"], .file ByteArray.empty false)]⟩

theorem list_hidden_prunedTree :
    prunedTree.IsProper ∧ (prunedTree.without ["d", ".cache"]).IsProper ∧
      prunedTree.DifferAt (prunedTree.without ["d", ".cache"]) ["d", ".cache"] ∧
      prunedTree.LeadsPast [] ⟨"d"⟩ ["d", ".cache"] ∧
      prunedTree.IsUnbroken [] ⟨"d"⟩ ["d", ".cache"] ∧
      (prunedTree.without ["d", ".cache"]).IsUnbroken [] ⟨"d"⟩ ["d", ".cache"] ∧
      (prunedTree.without ["d", ".cache"]).list [] ⟨"d"⟩ = prunedTree.list [] ⟨"d"⟩ := by
  have proper : prunedTree.IsProper := by decide
  have differ := @differAt_without prunedTree ["d", ".cache"] (by simp)
  have places : ∀ {directory : Location} {name : String} {target : Path},
      prunedTree.lookup (directory ++ [name]) = some (.link target) ->
        directory = ["d"] ∧ (name = ".keep" ∨ name = "lib") := by
    intro directory name target found
    have shape (last : String) (same : directory ++ [name] = ["d", last]) :
        directory = ["d"] ∧ name = last := by
      obtain ⟨holder, names⟩ := List.append_inj' (same.trans (rfl : _ = ["d"] ++ [last])) rfl
      exact ⟨holder, List.singleton_inj.1 names⟩
    have member := mem_entries_of_lookup (by simp) found
    simp only [prunedTree, List.mem_cons, Prod.mk.injEq, reduceCtorEq, and_false, false_or,
      Entry.link.injEq, List.not_mem_nil, or_false] at member
    rcases member with ⟨same, -⟩ | ⟨same, -⟩
    · exact ⟨(shape _ same).1, .inl (shape _ same).2⟩
    · exact ⟨(shape _ same).1, .inr (shape _ same).2⟩
  have past : prunedTree.LeadsPast [] ⟨"d"⟩ ["d", ".cache"] := by
    refine ⟨by decide, fun _ found _ => ?_⟩
    obtain ⟨here, rfl | rfl⟩ := places found
    · rw [here]
      decide
    · rw [here]
      decide
  have unbroken : prunedTree.IsUnbroken [] ⟨"d"⟩ ["d", ".cache"] := by
    rintro outer here name - shape ⟨⟨target, found⟩, -⟩
    have isDirectory : prunedTree.lookup ["d", ".cache"] = some .directory := by decide
    rw [shape, isDirectory] at found
    cases found
  have unbroken' : (prunedTree.without ["d", ".cache"]).IsUnbroken [] ⟨"d"⟩ ["d", ".cache"] := by
    rintro outer here name - shape ⟨⟨target, found⟩, -⟩
    rw [shape, lookup_without (by simp), if_pos (List.prefix_refl _)] at found
    cases found
  have below : ∀ location, prunedTree.status [] ⟨"d"⟩ = .ok (location, .directory) ->
      ¬["d", ".cache"] <+: location := by
    intro location reached
    have same : prunedTree.status [] ⟨"d"⟩ = .ok (["d"], .directory) := by decide
    obtain ⟨rfl, -⟩ := Prod.mk.inj (Except.ok.inj (same.symm.trans reached))
    decide
  have proper' : (prunedTree.without ["d", ".cache"]).IsProper := proper.without (by simp)
  refine ⟨proper, proper', differ, past, unbroken, unbroken', ?_⟩
  exact list_hidden proper proper' rfl ⟨["d"], ".cache", rfl, by decide⟩ differ below past
    unbroken unbroken'

/-- A directory with a file, and with a hidden link that leads nowhere. -/
def brokenHidden : Tree :=
  ⟨[(["d"], .directory),
    (["d", ".broken"], .link ⟨"missing"⟩),
    (["d", "index.js"], .file ByteArray.empty false)]⟩

/-- A hidden link that leads nowhere fails the listing. Once it is gone, the file is listed. -/
theorem list_brokenHidden :
    brokenHidden.IsProper ∧ IsHidden ["d", ".broken"] ∧
      brokenHidden.list [] ⟨"d"⟩ = .error (.listing ⟨"d/.broken"⟩ .notFound) ∧
      (brokenHidden.without ["d", ".broken"]).list [] ⟨"d"⟩ = .ok [⟨"d/index.js"⟩] := by
  refine ⟨by decide, ⟨["d"], ".broken", rfl, by decide⟩, ?_, ?_⟩
  · have reached : brokenHidden.status [] ⟨"d"⟩ = .ok (["d"], .directory) := by decide
    have names : brokenHidden.children ["d"] = [".broken", "index.js"] :=
      children_of_sorted (by decide) (by decide)
    have hidden : brokenHidden.listEntry 15 [] ⟨⟨"d"⟩, ["d"]⟩ ".broken" =
        .error (.listing ⟨"d/.broken"⟩ .notFound) := by decide
    have deep : brokenHidden.listingDepth = 15 + 1 := rfl
    rw [list, reached]
    dsimp only
    rw [deep, listBelow_succ, names, List.mapM_cons, hidden]
    rfl
  · have reached : (brokenHidden.without ["d", ".broken"]).status [] ⟨"d"⟩ =
        .ok (["d"], .directory) := by decide
    have names : (brokenHidden.without ["d", ".broken"]).children ["d"] = ["index.js"] :=
      children_of_sorted (by decide) (by decide)
    have visible : (brokenHidden.without ["d", ".broken"]).listEntry 8 [] ⟨⟨"d"⟩, ["d"]⟩
        "index.js" = .ok [⟨"d/index.js"⟩] := by decide
    have deep : (brokenHidden.without ["d", ".broken"]).listingDepth = 8 + 1 := by decide
    rw [list, reached]
    dsimp only
    rw [deep, listBelow_succ, names, List.mapM_cons, visible]
    rfl

end Tree
end Relink
