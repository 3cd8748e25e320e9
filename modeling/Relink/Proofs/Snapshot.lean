import Relink.Proofs.Tree.Listing
import Relink.Snapshot

/-!
# What a snapshot holds

A snapshot that was taken tells of the tree that it was taken of: its tracked files lie below the
output directory, reached by visible names, and each is a file that was read as text.
-/

namespace Relink

namespace Snapshot

theorem exists_absolutize (host : Host) (path : Path) :
    ∃ names, AreNames names ∧ host.absolutize path = Location.path names := by
  unfold Host.absolutize Path.absolutize
  split
  · rename_i isAbsolute
    exact Path.exists_location_of_isAbsolute isAbsolute
  · exact Path.exists_location_of_isAbsolute (Path.isAbsolute_join (Location.path_isAbsolute _))

/-- The location of a configuration's output, as it is written. -/
theorem exists_outputDirectory (host : Host) (config : Config) :
    ∃ output, AreNames output ∧ outputDirectory host config = Location.path output := by
  obtain ⟨names, -, shape⟩ := exists_absolutize host config.directory
  rw [outputDirectory, shape]
  exact Path.exists_location_of_isAbsolute (Path.isAbsolute_join (Location.path_isAbsolute names))

/-- The directory of an entry module is the path of a location. -/
theorem exists_rootOf {names : List String} (areNames : AreNames names) (entry : String) :
    ∃ root, AreNames root ∧ rootOf (Location.path names) entry = Location.path root := by
  obtain ⟨inner, areInner, same⟩ := Path.exists_location_of_isAbsolute
    (@Path.isAbsolute_join _ (.ofText entry) (Location.path_isAbsolute names))
  rw [rootOf, same]
  rcases List.eq_nil_or_concat inner with rfl | ⟨outer, last, rfl⟩
  · exact ⟨names, areNames, rfl⟩
  · rw [List.concat_eq_append] at areInner ⊢
    rw [Location.parent?_path areInner]
    exact ⟨outer, areInner.left, rfl⟩

/-- What it takes to take a snapshot. -/
structure Taken (host : Host) (config : Config) (layout : Layout) (snapshot : Snapshot) : Prop where
  isDirectory : host.isDirectory (outputDirectory host config) = true
  manifest : readManifest host (host.absolutize config.manifestPath) = .ok snapshot.manifest
  entry : ∃ entry, snapshot.manifest.entry = some entry ∧
    snapshot.root = rootOf (host.absolutize config.directory) entry
  layout_eq : snapshot.layout = layout
  files : listOutput host (outputDirectory host config) = .ok snapshot.files
  tracked : ∀ role, readFiles host
    (snapshot.files.filter fun file => roleOf? layout file = some role) =
      .ok (snapshot.tracked role)

theorem bind_eq_ok_iff {ε α β : Type} {first : Except ε α} {next : α -> Except ε β} {result : β} :
    (first >>= next) = .ok result ↔ ∃ value, first = .ok value ∧ next value = .ok result := by
  cases first <;> simp [bind, Except.bind]

theorem entryOf_eq_ok_iff {manifest : Manifest} {path : Path} {entry : String} :
    entryOf manifest path = .ok entry ↔ manifest.entry = some entry := by
  unfold entryOf
  cases manifest.entry <;> simp

theorem take_eq_ok_iff {host : Host} {config : Config} {layout : Layout} {snapshot : Snapshot} :
    take host config layout = .ok snapshot ↔ Taken host config layout snapshot := by
  unfold take
  dsimp only
  by_cases isDirectory : host.isDirectory (outputDirectory host config) = true
  · simp only [isDirectory, Bool.not_true, Bool.false_eq_true, if_false, bind_eq_ok_iff,
      entryOf_eq_ok_iff]
    constructor
    · rintro ⟨manifest, read, entry, named, files, listed, declared, declarations, emitted, scripts,
        made⟩
      simp only [pure, Except.pure, Except.ok.injEq] at made
      subst made
      refine ⟨isDirectory, read, ⟨entry, named, ?_⟩, ?_, listed, fun role => ?_⟩
      · dsimp only
      · dsimp only
      · cases role
        · exact scripts
        · exact declarations
    · rintro ⟨-, read, ⟨entry, named, rooted⟩, laid, listed, tracked⟩
      refine ⟨_, read, entry, named, _, listed, _, tracked .declaration, _, tracked .script, ?_⟩
      cases snapshot
      simp only [pure, Except.pure, Except.ok.injEq, Snapshot.mk.injEq, true_and]
      exact ⟨rooted.symm, laid.symm, rfl, rfl⟩
  · rw [Bool.not_eq_true] at isDirectory
    simp only [isDirectory, Bool.not_false, if_true]
    constructor
    · intro impossible
      cases impossible
    · intro taken
      rw [taken.isDirectory] at isDirectory
      cases isDirectory

/-- Nothing is known of a package whose manifest cannot be read. -/
theorem take_of_readManifest {host : Host} {config : Config} {layout : Layout} {problem : Problem}
    (isDirectory : host.isDirectory (outputDirectory host config) = true)
    (fails : readManifest host (host.absolutize config.manifestPath) = .error problem) :
    take host config layout = .error problem := by
  unfold take
  dsimp only
  simp only [isDirectory, Bool.not_true, Bool.false_eq_true, if_false, fails]
  rfl

/-- The root of a snapshot is the path of a location. -/
theorem Taken.exists_root {host : Host} {config : Config} {layout : Layout} {snapshot : Snapshot}
    (taken : Taken host config layout snapshot) :
    ∃ root, AreNames root ∧ snapshot.root = Location.path root := by
  obtain ⟨entry, -, rooted⟩ := taken.entry
  obtain ⟨names, areNames, shape⟩ := exists_absolutize host config.directory
  rw [rooted, shape]
  exact exists_rootOf areNames entry

/-! ## Tracked files -/

/-- A file whose text can be read. -/
theorem readText_eq_ok_iff {host : Host} {path : Path} {text : String} :
    host.readText path = .ok text ↔ ∃ location content executable,
      host.tree.status host.directory path = .ok (location, .file content executable) ∧
        Utf8.text? content = some text := by
  unfold Host.readText Host.readBytes Tree.read
  cases host.tree.status host.directory path with
  | error cause => simp
  | ok place =>
    obtain ⟨location, entry⟩ := place
    cases entry with
    | directory => simp
    | link target => simp
    | file content executable =>
      dsimp only
      cases text : Utf8.text? content <;> simp [text]

theorem readText_of_status {host : Host} {path : Path} {location : Location} {text : String}
    {executable : Bool} (found : host.tree.status host.directory path =
      .ok (location, .file text.toByteArray executable)) : host.readText path = .ok text :=
  readText_eq_ok_iff.2 ⟨_, _, _, found, Utf8.text?_toByteArray text⟩

/-- A manifest is read from a text. -/
theorem readManifest_eq_ok_iff {path : Path} {manifest : Manifest} :
    readManifest host path = .ok manifest ↔
      ∃ text, host.readText path = .ok text ∧ Manifest.parse text = .ok manifest := by
  unfold readManifest Host.readText
  cases host.readBytes path with
  | error cause => cases cause <;> simp
  | ok bytes =>
    dsimp only
    cases Utf8.text? bytes with
    | none => simp
    | some text =>
      dsimp only
      cases parsed : Manifest.parse text <;> simp [parsed]

/-- Texts are read when each of them is. -/
theorem readTexts_eq_ok_iff {host : Host} {files : List Path} {texts : List String} :
    readTexts host files = .ok texts ↔
      List.Forall₂ (fun file text => host.readText file = .ok text) files texts := by
  refine ⟨fun read => (forall₂_of_mapM read).imp fun file text step => ?_,
    fun read => mapM_of_forall₂ (read.imp fun file text found => ?_)⟩
  · cases found : host.readText file with
    | error fault =>
      rw [found] at step
      cases step
    | ok written =>
      rw [found] at step
      exact congrArg Except.ok (Except.ok.inj step)
  · rw [found]

/-- Files are read when each of them is, and each is paired with its own text. -/
theorem readFiles_eq_ok_iff {host : Host} {files : List Path} {set : FileSet} :
    readFiles host files = .ok set ↔
      List.Forall₂ (fun file pair => pair.1 = file ∧ host.readText file = .ok pair.2)
        files set.files := by
  have both : readFiles host files = .ok set ↔
      set.listed = files ∧ readTexts host files = .ok set.texts := by
    unfold readFiles
    constructor
    · intro same
      split at same
      · rename_i texts read
        obtain rfl := Except.ok.inj same
        exact ⟨rfl, read⟩
      · cases same
    · rintro ⟨listed, read⟩
      split
      · rename_i texts read'
        obtain rfl := Except.ok.inj (read'.symm.trans read)
        exact congrArg Except.ok (FileSet.ext (by rw [FileSet.files, FileSet.files, listed]))
      · rename_i problem failed
        cases failed.symm.trans read
  rw [both, readTexts_eq_ok_iff, ← set.map_snd_files, ← set.map_fst_files]
  constructor
  · rintro ⟨rfl, read⟩
    rw [List.forall₂_map_left_iff, List.forall₂_map_right_iff, List.forall₂_same] at read
    rw [List.forall₂_map_left_iff, List.forall₂_same]
    exact fun pair member => ⟨rfl, read pair member⟩
  · intro pairs
    refine ⟨?_, List.forall₂_map_right_iff.2 (pairs.imp fun _ _ pair => pair.2)⟩
    exact (List.forall₂_eq_eq_eq ▸ List.forall₂_map_right_iff.2
      (pairs.imp fun _ _ pair => pair.1.symm) : files = set.files.map Prod.fst).symm

theorem forall₂_readFiles {host : Host} {files : List Path} {set : FileSet}
    (read : readFiles host files = .ok set) :
    List.Forall₂ (fun file pair => pair.1 = file ∧ host.readText file = .ok pair.2)
      files set.files :=
  readFiles_eq_ok_iff.1 read

/-- A tracked file: where it is written, and what it is. -/
structure IsTracked (host : Host) (layout : Layout) (output : List String) (role : FileRole)
    (file : Path) (text : String) (rest : List String) : Prop where
  ne_nil : rest ≠ []
  path : file = Location.path (output ++ rest)
  areNames : AreNames (output ++ rest)
  areVisible : Tree.AreVisible rest
  role : roleOf? layout file = some role
  text : host.readText file = .ok text

/-- There is one place for a tracked file below the output directory. -/
theorem IsTracked.rest_eq {host : Host} {layout : Layout} {output rest rest' : List String}
    {role : FileRole} {file : Path} {text : String}
    (isTracked : IsTracked host layout output role file text rest)
    (areNames : AreNames (output ++ rest')) (same : file = Location.path (output ++ rest')) :
    rest' = rest := by
  have components := congrArg Path.components (same.symm.trans isTracked.path)
  exact List.append_cancel_left (Location.path_inj areNames isTracked.areNames components)

/-- Every tracked file of a snapshot lies below the output directory. -/
theorem Taken.isTracked {host : Host} {config : Config} {layout : Layout} {snapshot : Snapshot}
    (taken : Taken host config layout snapshot) (named : host.tree.Named)
    {output : List String} (areOutput : AreNames output)
    (output_eq : outputDirectory host config = Location.path output) {role : FileRole}
    {pair : Path × String} (member : pair ∈ (snapshot.tracked role).files) :
    ∃ rest, IsTracked host layout output role pair.1 pair.2 rest := by
  have listing : ∀ file ∈ snapshot.files, ∃ rest, rest ≠ [] ∧
      file = Location.path (output ++ rest) ∧ AreNames rest ∧ Tree.AreVisible rest := by
    have listed := taken.files
    have isDirectory := taken.isDirectory
    rw [output_eq] at listed isDirectory
    unfold listOutput Host.visibleFiles Tree.list at listed
    unfold Host.isDirectory Tree.isDirectory at isDirectory
    split at isDirectory
    · rename_i location found
      rw [found] at listed
      dsimp only at listed
      split at listed
      · rename_i files done
        obtain rfl := Except.ok.inj listed
        intro file member
        obtain ⟨rest, filled, rfl, areRest, areVisible⟩ := Tree.mem_of_listBelow named done file member
        exact ⟨rest, filled, Location.below_path (areOutput.append areRest), areRest, areVisible⟩
      · cases listed
    · cases isDirectory
  obtain ⟨file, inside, same, read⟩ :=
    exists_of_mem_forall₂ (forall₂_readFiles (taken.tracked role)) member
  obtain ⟨inside, hasRole⟩ := List.mem_filter.1 inside
  rw [← same] at inside hasRole read
  obtain ⟨rest, filled, shape, areNames, areVisible⟩ := listing _ inside
  exact ⟨rest, filled, shape, areOutput.append areNames, areVisible, by simpa using hasRole, read⟩

/-- The name of a tracked file is Unicode. -/
theorem isUnicode_of_roleOf? {names : List String} {name : String} {role : FileRole}
    {layout : Layout} (areNames : AreNames (names ++ [name]))
    (hasRole : roleOf? layout (Location.path (names ++ [name])) = some role) :
    Name.isUnicode name = true := by
  by_contra stray
  rw [roleOf?, Location.fileName?_path areNames, Option.bind_some, Name.text?,
    if_neg stray] at hasRole
  cases hasRole

/-- The name of a tracked file has the ending of its role. -/
theorem endsWith_of_roleOf? {names : List String} {name : String} {role : FileRole}
    {layout : Layout} (areNames : AreNames (names ++ [name]))
    (hasRole : roleOf? layout (Location.path (names ++ [name])) = some role) :
    Text.endsWith (Name.shown name) (match role with
      | .script => layout.scriptEnding
      | .declaration => layout.declarationEnding) = true := by
  have isUnicode := isUnicode_of_roleOf? areNames hasRole
  rw [roleOf?, Location.fileName?_path areNames, Option.bind_some, Name.text?,
    if_pos isUnicode] at hasRole
  dsimp only at hasRole
  split at hasRole
  · rename_i ends
    obtain rfl := Option.some.inj hasRole
    exact ends
  · split at hasRole
    · rename_i ends
      obtain rfl := Option.some.inj hasRole
      exact ends
    · cases hasRole

/-- No tracked file is a directory on the way to another one. -/
theorem IsTracked.not_above {host : Host} {layout : Layout} {output : List String}
    {role role' : FileRole} {file file' : Path} {text text' : String} {rest rest' : List String}
    (above : IsTracked host layout output role file text rest)
    (below : IsTracked host layout output role' file' text' rest') {more : List String}
    (filled : more ≠ []) : output ++ rest' ≠ output ++ rest ++ more := by
  intro same
  obtain ⟨location, content, executable, isFile, -⟩ := readText_eq_ok_iff.1 above.text
  obtain ⟨location', content', executable', found, -⟩ := readText_eq_ok_iff.1 below.text
  have areNames := below.areNames
  rw [above.path] at isFile
  rw [below.path, same] at found
  rw [same] at areNames
  exact Tree.status_below_file areNames filled isFile found

end Snapshot
end Relink
