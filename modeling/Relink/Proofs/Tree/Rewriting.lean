import Relink.Proofs.Tree.Visible

/-!
# Trees in which files are written anew

Work on a tree that writes files anew, and takes away temporary files that it made or found,
leaves every way in place: what was a directory or a link is one, and a path leads where it led.
Where every temporary file is hidden, a listing does not see that anything was done.
-/

namespace Relink

/-- What may become of what lies at a location: a file is written anew, or is taken away. -/
inductive Turns (isTemporary : Prop) (isNew : ByteArray -> Prop) :
    Option Entry -> Option Entry -> Prop
  | same (entry : Option Entry) : Turns isTemporary isNew entry entry
  | written {content content' : ByteArray} {executable executable' : Bool}
      (new : isNew content') :
      Turns isTemporary isNew (some (.file content executable)) (some (.file content' executable'))
  | gone {content : ByteArray} {executable : Bool} (temporary : isTemporary) :
      Turns isTemporary isNew (some (.file content executable)) none

/-- Two changes of an entry, one after the other, are such a change. -/
theorem Turns.trans {isTemporary : Prop} {isNew : ByteArray -> Prop}
    {entry entry' entry'' : Option Entry} (first : Turns isTemporary isNew entry entry')
    (second : Turns isTemporary isNew entry' entry'') : Turns isTemporary isNew entry entry'' := by
  cases first with
  | same => exact second
  | written new =>
    cases second with
    | same => exact .written new
    | written new => exact .written new
    | gone temporary => exact .gone temporary
  | gone temporary =>
    cases second with
    | same => exact .gone temporary

/-- What an entry may turn into may be more. -/
theorem Turns.mono {isTemporary isTemporary' : Prop} {isNew isNew' : ByteArray -> Prop}
    {entry entry' : Option Entry} (turns : Turns isTemporary isNew entry entry')
    (temporaries : isTemporary -> isTemporary')
    (news : ∀ content, isNew content -> isNew' content) :
    Turns isTemporary' isNew' entry entry' := by
  cases turns with
  | same => exact .same _
  | written new => exact .written (news _ new)
  | gone temporary => exact .gone (temporaries temporary)

/-- A tree after files were written anew and temporary files were taken away. -/
structure Tree.Rewrites (isTemporary : Location -> Prop) (isNew : Location -> ByteArray -> Prop)
    (tree tree' : Tree) : Prop where
  turns : ∀ location,
    Turns (isTemporary location) (isNew location) (tree.lookup location) (tree'.lookup location)
  locations : ∃ keep : Location -> Bool, tree'.locations = tree.locations.filter keep ∧
    ∀ location, keep location = false -> isTemporary location

namespace Tree

variable {tree tree' : Tree} {isTemporary : Location -> Prop}
  {isNew : Location -> ByteArray -> Prop}

theorem Rewrites.refl : Rewrites isTemporary isNew tree tree :=
  ⟨fun _ => .same _, fun _ => true, by simp, by simp⟩

/-- Two rewritings, one after the other, are such a rewriting. -/
theorem Rewrites.trans {tree'' : Tree} (first : Rewrites isTemporary isNew tree tree')
    (second : Rewrites isTemporary isNew tree' tree'') :
    Rewrites isTemporary isNew tree tree'' := by
  refine ⟨fun location => (first.turns location).trans (second.turns location), ?_⟩
  obtain ⟨keep, same, temporary⟩ := first.locations
  obtain ⟨keep', same', temporary'⟩ := second.locations
  refine ⟨fun location => keep location && keep' location, ?_, fun location dropped => ?_⟩
  · rw [same', same, List.filter_filter]
    apply List.filter_congr
    intro location _
    exact Bool.and_comm ..
  · rcases Bool.and_eq_false_iff.1 dropped with gone | gone
    · exact temporary location gone
    · exact temporary' location gone

/-- What a rewriting may do may be more. -/
theorem Rewrites.mono {isTemporary' : Location -> Prop} {isNew' : Location -> ByteArray -> Prop}
    (rewrites : Rewrites isTemporary isNew tree tree')
    (temporaries : ∀ location, isTemporary location -> isTemporary' location)
    (news : ∀ location content, isNew location content -> isNew' location content) :
    Rewrites isTemporary' isNew' tree tree' := by
  obtain ⟨keep, same, temporary⟩ := rewrites.locations
  refine ⟨fun location => ?_, keep, same, fun location gone => ?_⟩
  · exact (rewrites.turns location).mono (temporaries location) (news location)
  · exact temporaries location (temporary location gone)

/-- A rewriting keeps all directories and links. -/
theorem Rewrites.keeps (rewrites : Rewrites isTemporary isNew tree tree') : Keeps tree tree' := by
  constructor
  · intro location entry found other
    have turns := rewrites.turns location
    rw [found] at turns
    generalize tree'.lookup location = entry' at turns ⊢
    cases turns with
    | same => rfl
    | written _ => cases other
    | gone _ => cases other
  · intro location entry found isFile
    have turns := rewrites.turns location
    rw [found] at turns
    generalize tree'.lookup location = entry' at turns ⊢
    cases turns with
    | same => exact .inr ⟨entry, rfl, isFile⟩
    | written _ => exact .inr ⟨_, rfl, rfl⟩
    | gone _ => exact .inl rfl

/-- Where nothing was, nothing is. -/
theorem Rewrites.lookup_eq_none (rewrites : Rewrites isTemporary isNew tree tree')
    {location : Location} (none_ : tree.lookup location = none) :
    tree'.lookup location = none := by
  have turns := rewrites.turns location
  rw [none_] at turns
  generalize tree'.lookup location = entry at turns
  cases turns
  rfl

/-- A rewriting puts no links where there were none. -/
theorem Rewrites.linkFree (rewrites : Rewrites isTemporary isNew tree tree') {base : Location}
    (free : tree.LinkFree base) : tree'.LinkFree base := by
  intro names target filled found
  have turns := rewrites.turns (base ++ names)
  rw [found] at turns
  generalize found' : tree.lookup (base ++ names) = entry at turns
  cases turns with
  | same => exact free names target filled found'

/-- What a file system could have, it can have still. -/
theorem Rewrites.isProper (rewrites : Rewrites isTemporary isNew tree tree')
    (proper : tree.IsProper) : tree'.IsProper := by
  obtain ⟨keep, same, -⟩ := rewrites.locations
  have was {location : Location} (member : location ∈ tree'.locations) :
      location ∈ tree.locations := by
    rw [same] at member
    exact (List.mem_filter.1 member).1
  refine ⟨fun place inside => ?_, ?_, fun location member => ?_⟩
  · obtain ⟨place', inside', shape⟩ := List.mem_map.1 (was (List.mem_map_of_mem inside))
    rw [← shape]
    exact proper.named place' inside'
  · rw [same]
    exact proper.nodup.filter keep
  · obtain ⟨filled, holder⟩ := proper.rooted location (was member)
    have turns := rewrites.turns location.dropLast
    rw [holder] at turns
    generalize tree'.lookup location.dropLast = entry at turns ⊢
    cases turns
    exact ⟨filled, rfl⟩

/-! ## What paths lead to -/

/-- A file that a descent arrives at lies there. -/
theorem lookup_of_descend {followLast : Bool} {directory location : Location} {legs : List Leg}
    {content : ByteArray} {executable : Bool}
    (found : tree.descend followLast directory legs =
      .arrived ⟨location, some (.file content executable)⟩) :
    tree.lookup location = some (.file content executable) := by
  induction legs generalizing directory with
  | nil => cases found
  | cons leg legs ih =>
    cases leg with
    | stay => exact ih found
    | up => exact ih found
    | down name =>
      rw [descend] at found
      split at found
      · cases found
      · dsimp only at found
        split at found
        · split at found <;> cases found
        · exact ih found
        · rename_i there
          split at found
          · cases found
            exact there
          · cases found
        · split at found <;> cases found

/-- A file that a path names lies where it was found. -/
theorem lookup_of_status {base location : Location} {path : Path} {content : ByteArray}
    {executable : Bool}
    (found : tree.status base path = .ok (location, .file content executable)) :
    tree.lookup location = some (.file content executable) := by
  rw [status_eq_ok_iff] at found
  unfold resolve at found
  split at found
  · cases found
  split at found
  · cases found
  generalize linkLimit = links at found
  generalize (if path.isAbsolute then [] else base) = directory at found
  generalize path.legs = legs at found
  replace found := trail_of_walk found
  induction found with
  | arrived way => exact lookup_of_descend way
  | linked _ _ ih => exact ih

/-- A path to a directory leads there still. -/
theorem Rewrites.status_directory (rewrites : Rewrites isTemporary isNew tree tree')
    {base location : Location} {path : Path}
    (found : tree.status base path = .ok (location, .directory)) :
    tree'.status base path = .ok (location, .directory) :=
  status_eq_ok_iff.2 (rewrites.keeps.status found)

/-- A path to a file that is not taken away leads there still. The file may have been written. -/
theorem Rewrites.status_file (rewrites : Rewrites isTemporary isNew tree tree')
    {base location : Location} {path : Path} {content : ByteArray} {executable : Bool}
    (found : tree.status base path = .ok (location, .file content executable))
    (stays : ¬isTemporary location) :
    ∃ content' executable', tree'.lookup location = some (.file content' executable') ∧
      tree'.status base path = .ok (location, .file content' executable') ∧
        (content' = content ∨ isNew location content') := by
  have there := rewrites.keeps.status found
  have turns := rewrites.turns location
  rw [lookup_of_status found] at turns
  rw [within] at there
  simp only [status_eq_ok_iff]
  generalize tree'.lookup location = entry' at turns there ⊢
  cases turns with
  | same => exact ⟨_, _, rfl, there, .inl rfl⟩
  | written new => exact ⟨_, _, rfl, there, .inr new⟩
  | gone temporary => exact absurd temporary stays

/-! ## What a listing finds -/

/-- A rewriting whose temporary files are hidden leaves the listing. -/
theorem Rewrites.visibleBelow (rewrites : Rewrites isTemporary isNew tree tree')
    (hidden : ∀ location, isTemporary location -> IsHidden location) (path : Path)
    (location : Location) :
    tree'.visibleBelow tree'.listingDepth path location =
      tree.visibleBelow tree.listingDepth path location := by
  obtain ⟨keep, same, temporary⟩ := rewrites.locations
  have names (directory : Location) :=
    visibleChildren_congr directory same fun location gone => hidden _ (temporary location gone)
  have fewer : tree'.countBelow location ≤ tree.countBelow location := by
    rw [countBelow, same, countBelow]
    exact List.filter_sublist.countP_le
  rw [visibleBelow_eq path (countBelow_le location) (fewer.trans (countBelow_le location))]
  refine visibleBelow_congr names (fun directory name member => ?_) _ path location
  have turns := rewrites.turns (directory ++ [name])
  have visible := (List.mem_filter.1 member).2
  generalize tree.lookup (directory ++ [name]) = entry at turns ⊢
  generalize tree'.lookup (directory ++ [name]) = entry' at turns ⊢
  cases turns with
  | same => rfl
  | written _ => rfl
  | gone temporary =>
    have areVisible : AreVisible [name] := by simpa [AreVisible] using visible
    exact absurd (hidden _ temporary) (areVisible.not_isHidden (by simp) directory)

/-- A listing of a directory without links finds what it found. -/
theorem Rewrites.list (rewrites : Rewrites isTemporary isNew tree tree')
    (hidden : ∀ location, isTemporary location -> IsHidden location) {base location : Location}
    {root : Path} (free : tree.LinkFree location)
    (found : tree.status base root = .ok (location, .directory)) :
    tree'.list base root = tree.list base root := by
  rw [free.list found, (rewrites.linkFree free).list (rewrites.status_directory found),
    rewrites.visibleBelow hidden]

end Tree
end Relink
