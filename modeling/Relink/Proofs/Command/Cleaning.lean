import Relink.Proofs.Command.Steps
import Relink.Proofs.Output
import Relink.Proofs.Tree.Reach
import Relink.Proofs.Tree.Removal

/-!
# Cleaning the output that a pass reads

A pass folds the path of the output before it follows it, while cleaning follows the path as it is
written. Where the path is straight, they mean one directory: what a pass reads is what cleaning
removes, and where a pass finds nothing, cleaning removes nothing.
-/

namespace Relink

/-- A way down to a directory of a tree leads there. -/
theorem Tree.IsProper.descend_directory {tree : Tree} (proper : tree.IsProper) (followLast : Bool)
    {base : Location} {names : List String}
    (found : tree.lookup (base ++ names) = some .directory)
    (fits : ∀ name ∈ names, Name.size name ≤ nameLimit) :
    tree.descend followLast base (names.map .down) = .arrived ⟨base ++ names, some .directory⟩ := by
  induction names generalizing base with
  | nil =>
    rw [List.append_nil]
    rfl
  | cons name names ih =>
    obtain ⟨short, fits⟩ := List.forall_mem_cons.1 fits
    rw [List.append_cons] at found ⊢
    have here : tree.lookup (base ++ [name]) = some .directory := by
      by_cases last : names = []
      · rwa [last, List.append_nil] at found
      · exact proper.lookup_outer last found
    rw [List.map_cons, descend, if_neg (by omega)]
    dsimp only
    rw [here]
    exact ih found fits

namespace Host

variable {host : Host} {path : Path} {location : Location}

/-- Whether a process can see a host: its tree is one of a file system, and its working directory
is a directory of the tree. -/
structure IsGrounded (host : Host) : Prop where
  proper : host.tree.IsProper
  begins : host.tree.lookup host.directory = some .directory
  fits : ∀ name ∈ host.directory, Name.size name ≤ nameLimit

/-- The working directory of a grounded host is told by names. -/
theorem IsGrounded.areNames (grounded : host.IsGrounded) : AreNames host.directory := by
  by_cases top : host.directory = []
  · rw [top]
    exact .nil
  · obtain ⟨place, member, same⟩ :=
      Tree.mem_locations.1 (Tree.mem_of_lookup top grounded.begins)
    exact same ▸ grounded.proper.named place member

/-- A path is followed from the root, after the names of the directory it is read from. -/
theorem IsGrounded.resolve_eq (grounded : host.IsGrounded) (filled : path.text ≠ "")
    (short : Name.size path.text < pathLimit) (followLast : Bool) :
    host.tree.resolve host.directory followLast path =
      host.tree.walk followLast linkLimit []
        ((if path.isAbsolute then [] else host.directory).map .down ++ path.legs) := by
  have isFilled : path.text.isEmpty = false := by
    rwa [Bool.eq_false_iff, ne_eq, String.isEmpty_iff]
  have arrives : host.tree.descend true [] (host.directory.map .down) =
      .arrived ⟨host.directory, some .directory⟩ :=
    grounded.proper.descend_directory true grounded.begins grounded.fits
  rw [Tree.resolve, isFilled, if_neg (by decide), if_neg (by omega)]
  cases path.isAbsolute with
  | true => rfl
  | false =>
    rw [if_neg (by decide), Tree.walk, Tree.walk,
      Tree.descend_append followLast [] _ (Path.legs_ne_nil path), arrives]

/-- Whether a path means the same as it is written and folded, and its entry can be removed.
-/
structure IsStraight (host : Host) (path : Path) : Prop where
  filled : path.text ≠ ""
  /-- It is too long exactly if its folded form is. -/
  short_iff : Name.size path.text < pathLimit ↔
    Name.size (host.absolutize path).text < pathLimit
  /-- No `..` leaves a link, or something that is no directory. -/
  climbs : host.tree.Climbs (if path.isAbsolute then [] else host.directory) path.legs
  /-- A link that it names leads somewhere. -/
  leads : ∀ location target,
    host.tree.resolve host.directory false path = .ok ⟨location, some (.link target)⟩ ->
      host.isDirectory path = true ∨ host.isFile path = true
  /-- A directory that it names bears the name that it ends in, and still does when it is
  empty. -/
  bears : ∀ location,
    host.tree.resolve host.directory false path = .ok ⟨location, some .directory⟩ ->
      (host.tree.eraseBelow location).IsNamedBy host.directory path location

/-- A straight path names the directory that its folded form names. -/
theorem IsStraight.resolve_directory_iff (straight : host.IsStraight path)
    (grounded : host.IsGrounded) :
    host.tree.resolve host.directory true path = .ok ⟨location, some .directory⟩ ↔
      host.tree.resolve host.directory true (host.absolutize path) =
        .ok ⟨location, some .directory⟩ := by
  have short_iff := straight.short_iff
  rw [absolutize_eq grounded.areNames] at short_iff ⊢
  rw [Tree.resolve_path host.directory true (areNames_folded grounded.areNames path)]
  by_cases short : Name.size path.text < pathLimit
  · rw [if_neg (by omega), grounded.resolve_eq straight.filled short]
    exact straight.climbs.walk_directory_iff
  · rw [if_pos (by omega), Tree.resolve]
    split
    · simp
    · rw [if_pos (by omega)]

/-- A path is a directory if it leads to one. -/
theorem isDirectory_iff : host.isDirectory path = true ↔
    ∃ location, host.tree.resolve host.directory true path = .ok ⟨location, some .directory⟩ := by
  rw [isDirectory, Tree.isDirectory]
  split
  · rename_i place found
    exact ⟨fun _ => ⟨place, Tree.status_eq_ok_iff.1 found⟩, fun _ => rfl⟩
  · rename_i other
    refine ⟨fun impossible => (by cases impossible), ?_⟩
    rintro ⟨place, found⟩
    exact absurd (Tree.status_eq_ok_iff.2 found) (other place)

/-- A straight path is a directory exactly if its absolute form is. -/
theorem IsStraight.isDirectory_absolutize (straight : host.IsStraight path)
    (grounded : host.IsGrounded) :
    host.isDirectory (host.absolutize path) = host.isDirectory path := by
  rw [Bool.eq_iff_iff, isDirectory_iff, isDirectory_iff]
  exact exists_congr fun location => (straight.resolve_directory_iff grounded).symm

/-- A path that leads anywhere is short enough. -/
theorem short_of_resolve {followLast : Bool} {place : Place}
    (found : host.tree.resolve host.directory followLast path = .ok place) :
    Name.size path.text < pathLimit := by
  unfold Tree.resolve at found
  split at found
  · cases found
  · split at found
    · cases found
    · omega

/-- Whether a tree has no directory where the folded form of a path leads. -/
theorem isDirectory_folded_eq_false {tree : Tree} (areNames : AreNames host.directory)
    (nowhere : ∀ location,
      tree.walk true linkLimit [] ((host.folded path).map .down) ≠
        .ok ⟨location, some .directory⟩) :
    tree.isDirectory host.directory (host.absolutize path) = false := by
  rw [Tree.isDirectory]
  split
  · rename_i location found
    rw [Tree.status_eq_ok_iff, absolutize_eq areNames,
      Tree.resolve_path host.directory true (areNames_folded areNames path)] at found
    split at found
    · cases found
    · exact absurd found (nowhere location)
  · rfl

/-- The directory that a straight path names is removed, and the folded path does not find it any
more. -/
theorem IsStraight.removeAll (straight : host.IsStraight path) (grounded : host.IsGrounded)
    (isDirectory : host.isDirectory path = true) :
    (host.tree.removeAll host.directory path).1 = .ok () ∧
      (host.tree.removeAll host.directory path).2.1.isDirectory host.directory
        (host.absolutize path) = false := by
  obtain ⟨location, found⟩ := isDirectory_iff.1 isDirectory
  have resolves := grounded.resolve_eq straight.filled (short_of_resolve found)
  rw [resolves] at found
  have begins : host.tree.lookup [] = some .directory := rfl
  rcases Tree.walk_false_of_directory found with direct | ⟨place, target, linked⟩
  · have isNamed := straight.bears location (by rw [resolves, direct])
    have filled : location ≠ [] := isNamed.ne_nil
    obtain ⟨done, left⟩ := Tree.removeAll_directory (by rw [resolves, direct])
      (grounded.proper.lookup_of_walk begins found) isNamed
    refine ⟨done, left ▸ isDirectory_folded_eq_false grounded.areNames fun other found' => ?_⟩
    have ground : (host.tree.without location).IsGroundOf host.tree :=
      Tree.isGroundOf_without filled
    rw [straight.climbs.walk_directory_iff] at found
    obtain ⟨rfl, -⟩ := Place.mk.inj (Tree.walk_unique found (ground.walk found'))
    have there := (grounded.proper.without filled).lookup_of_walk rfl found'
    rw [Tree.lookup_without filled, if_pos (List.prefix_refl location)] at there
    cases there
  · obtain ⟨done, left⟩ := Tree.removeAll_link (by rw [resolves, linked])
    refine ⟨done, left ▸ isDirectory_folded_eq_false grounded.areNames fun other => ?_⟩
    have climbs := straight.climbs
    -- A way that ends in a link ends in a name, and so does its folded form.
    obtain ⟨front, name, legs⟩ : ∃ front name, path.legs = front ++ [.down name] := by
      obtain ⟨before, name, whole⟩ := Tree.exists_down_of_link linked
      rcases List.eq_nil_or_concat path.legs with none_ | ⟨front, last, legs⟩
      · exact absurd none_ path.legs_ne_nil
      · rw [List.concat_eq_append] at legs
        rw [legs, ← List.append_assoc] at whole
        rw [(List.append_inj' whole rfl).2] at legs
        exact ⟨front, name, legs⟩
    rw [legs] at linked climbs
    rw [climbs.left.walk false (by simp)] at linked
    obtain ⟨holder, -, -, rfl, -⟩ := Tree.exists_holder_of_walk linked
    rw [folded, legs, List.foldl_append, List.foldl_cons, List.foldl_nil, Leg.follow,
      List.map_append, List.map_singleton]
    have filled : holder ++ [name] ≠ [] := by simp
    refine Tree.walk_of_gone (Tree.isGroundOf_erase filled) linked ?_
    rw [Tree.lookup_erase _ filled, if_pos rfl]

/-- Where a straight path names neither a directory nor a file, nothing is removed. -/
theorem IsStraight.removeAll_nothing (straight : host.IsStraight path)
    (grounded : host.IsGrounded) (noDirectory : host.isDirectory path = false)
    (noFile : host.isFile path = false) :
    (host.tree.removeAll host.directory path).2.1 = host.tree := by
  have direct {location : Location}
      (found : host.tree.resolve host.directory false path = .ok ⟨location, some .directory⟩) :
      False := by
    have resolves := grounded.resolve_eq straight.filled (short_of_resolve found)
    rw [resolves] at found
    have isDirectory := isDirectory_iff.2
      ⟨location, (resolves true).trans (Tree.walk_true_of_directory found)⟩
    rw [noDirectory] at isDirectory
    cases isDirectory
  have removal := Tree.removal_removeAll host.tree host.directory path
  generalize (host.tree.removeAll host.directory path).1 = result at removal
  generalize (host.tree.removeAll host.directory path).2.1 = after at removal ⊢
  cases removal with
  | nothing cause => rfl
  | link found =>
    have leads := straight.leads _ _ found
    rw [noDirectory, noFile] at leads
    simp at leads
  | directory found isNamed => exact (direct found).elim
  | emptied result found => exact (direct found).elim

/-- A directory by a straight path is removed, and is none by its absolute form either. -/
theorem IsStraight.removeDirectoryTree (straight : host.IsStraight path)
    (grounded : host.IsGrounded) (isDirectory : host.isDirectory path = true) :
    (host.removeDirectoryTree path).1 = .ok true ∧
      (host.removeDirectoryTree path).2.isDirectory (host.absolutize path) = false := by
  obtain ⟨done, gone⟩ := straight.removeAll grounded isDirectory
  unfold Host.removeDirectoryTree
  generalize host.tree.removeAll host.directory path = removal at done gone
  obtain ⟨result, after, changes⟩ := removal
  obtain rfl : result = .ok () := done
  exact ⟨rfl, gone⟩

end Host

/-- What is told about a cleaning. -/
def Console.cleaned (console : Console) (config : Config) (removed : Bool) : Console :=
  if config.jsonLogs then
    console.emit (.text .output ((Verdict.cleaned config.outputPath removed).value.render ++ "\n"))
  else
    console.tell
      { severity := .info
        message := if removed then "Removed output directory" else "Nothing to clean"
        fields := [("path", .plain config.outputPath.shown)] }

namespace Command

/-- What `clean` does is the host's removal of the output directory. -/
theorem clean_eq (config : Config) (scene : Scene) :
    clean config scene =
      match scene.host.removeDirectoryTree config.outputPath with
      | (.ok removed, host) => (.ok true, { host, console := scene.console.cleaned config removed })
      | (.error cause, host) => (.error (.system cause), { scene with host }) := by
  have deleted := deleteOutput_eq config scene
  generalize scene.host.removeDirectoryTree config.outputPath = removal at deleted ⊢
  obtain ⟨result, after⟩ := removal
  unfold clean
  cases result with
  | error cause => exact Task.bind_error _ deleted
  | ok removed =>
    rw [Task.bind_ok _ deleted]
    unfold Console.cleaned
    cases config.jsonLogs with
    | true => rfl
    | false => cases removed <;> rfl

/-- Where the path of the output is straight, cleaning removes what a pass reads. After it a pass
finds no output. Where a pass finds none, and the path is not one of a file, cleaning leaves the
tree as it is. -/
theorem clean_outputDirectory {config : Config} {layout : Layout} {scene : Scene}
    (grounded : scene.host.IsGrounded) (straight : scene.host.IsStraight config.outputPath) :
    (¬FindsNoOutput scene.host config layout ->
      ∃ host, clean config scene =
          (.ok true, { host, console := scene.console.cleaned config true }) ∧
        FindsNoOutput host config layout) ∧
    (FindsNoOutput scene.host config layout -> scene.host.isFile config.outputPath = false ->
      (clean config scene).2.host.tree = scene.host.tree) := by
  have same : Snapshot.outputDirectory scene.host config =
      scene.host.absolutize config.outputPath :=
    (Host.outputDirectory_eq grounded.areNames config).trans
      (Host.absolutize_eq grounded.areNames _).symm
  rw [findsNoOutput_iff, same, straight.isDirectory_absolutize grounded, Bool.not_eq_false]
  constructor
  · intro isDirectory
    obtain ⟨done, gone⟩ := straight.removeDirectoryTree grounded isDirectory
    have stays := scene.host.directory_removeDirectoryTree config.outputPath
    rw [clean_eq]
    generalize scene.host.removeDirectoryTree config.outputPath = removal at done gone stays
    obtain ⟨result, after⟩ := removal
    obtain rfl : result = .ok true := done
    refine ⟨after, rfl, findsNoOutput_iff.2 ?_⟩
    rwa [Snapshot.outputDirectory, Host.absolutize, Host.workingPath, stays, ← Host.workingPath,
      ← Host.absolutize, ← Snapshot.outputDirectory, same]
  · intro noDirectory noFile
    have kept := straight.removeAll_nothing grounded noDirectory noFile
    rw [← Host.tree_removeDirectoryTree] at kept
    rw [clean_eq]
    generalize scene.host.removeDirectoryTree config.outputPath = removal at kept
    obtain ⟨result, after⟩ := removal
    cases result <;> exact kept

theorem samplePackage_isGrounded : Snapshot.samplePackage.IsGrounded where
  proper := by decide
  begins := by decide
  fits := by decide

/-- In the small package the output may be spelled in a roundabout way. -/
theorem clean_outputDirectory_samplePackage :
    Snapshot.samplePackage.IsStraight ⟨"./dist/../dist"⟩ ∧
    ¬FindsNoOutput Snapshot.samplePackage { directory := ⟨"."⟩, output := ⟨"dist/../dist"⟩ } {} ∧
    ∃ host, (clean { directory := ⟨"."⟩, output := ⟨"dist/../dist"⟩ }
        { host := Snapshot.samplePackage }).2.host = host ∧
      FindsNoOutput host { directory := ⟨"."⟩, output := ⟨"dist/../dist"⟩ } {} := by
  have leads : Snapshot.samplePackage.tree.resolve Snapshot.samplePackage.directory false
      ⟨"./dist/../dist"⟩ = .ok ⟨["p", "dist"], some .directory⟩ := by decide
  have plain : Snapshot.samplePackage.tree.walk false linkLimit []
      (["p", "dist"].map .down) = .ok ⟨["p", "dist"], some .directory⟩ := by decide
  have legs : Path.legs ⟨"./dist/../dist"⟩ = [.stay, .down "dist", .up, .down "dist"] := by
    decide
  have straight : Snapshot.samplePackage.IsStraight ⟨"./dist/../dist"⟩ := by
    constructor
    case filled => decide
    case short_iff => decide
    case climbs =>
      rw [legs]
      exact ⟨⟨_, plain⟩, trivial⟩
    case leads =>
      intro location target found
      cases leads.symm.trans found
    case bears =>
      intro location found
      obtain ⟨rfl, -⟩ := Place.mk.inj (Except.ok.inj (leads.symm.trans found))
      exact ⟨["p"], "dist", false, by decide, rfl⟩
  have finds : ¬FindsNoOutput Snapshot.samplePackage
      { directory := ⟨"."⟩, output := ⟨"dist/../dist"⟩ } {} := by
    rw [findsNoOutput_iff]
    decide
  obtain ⟨host, cleaned, gone⟩ := (@clean_outputDirectory
    { directory := ⟨"."⟩, output := ⟨"dist/../dist"⟩ } {} { host := Snapshot.samplePackage }
    samplePackage_isGrounded straight).1 finds
  exact ⟨straight, finds, host, by rw [cleaned], gone⟩

/-- A path that climbs out of a directory that does not exist is folded, but cannot be followed:
a pass reads the output, and cleaning finds nothing to remove. -/
theorem clean_missing_directory :
    ¬∀ (config : Config) (layout : Layout) (scene : Scene), scene.host.IsGrounded ->
      ¬FindsNoOutput scene.host config layout ->
        ∃ host, clean config scene =
          (.ok true, { host, console := scene.console.cleaned config true }) := by
  intro all
  have finds : ¬FindsNoOutput Snapshot.samplePackage
      { directory := ⟨"."⟩, output := ⟨"missing/../dist"⟩ } {} := by
    rw [findsNoOutput_iff]
    decide
  obtain ⟨host, cleaned⟩ := all { directory := ⟨"."⟩, output := ⟨"missing/../dist"⟩ } {}
    { host := Snapshot.samplePackage } samplePackage_isGrounded finds
  have told := congrArg (fun ended => ended.2.console) cleaned
  dsimp only at told
  revert told
  decide

end Command
end Relink
