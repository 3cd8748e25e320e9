import Relink.Proofs.Tracked

/-!
# Taking stock of a package

A snapshot is taken in stages, each of which can fail. It is all or nothing: where no stage
fails, the snapshot holds every tracked file once, with the text of that file; otherwise there is
no snapshot, and the first stage that fails is the one that is told.
-/

namespace Relink.Snapshot

variable {host : Host} {config : Config} {layout : Layout} {snapshot : Snapshot}

/-- The stages in which stock of a package is taken. -/
inductive Stage where
  | output
  | manifest
  | entry
  | listing
  /-- The texts of the tracked files of a role. -/
  | texts (role : FileRole)
deriving DecidableEq, Repr

/-- The stages in their order. -/
def stages : List Stage :=
  [.output, .manifest, .entry, .listing, .texts .declaration, .texts .script]

/-- Whether the name of a file is Unicode and has an ending. -/
def hasEnding (file : Path) (ending : String) : Bool :=
  (file.fileName?.bind Name.text?).any fun name => Text.endsWith name ending

/-- Whether a file has a role. What ends as a declaration is no script. -/
def isOfRole (layout : Layout) (role : FileRole) (file : Path) : Bool :=
  match role with
  | .declaration => hasEnding file layout.declarationEnding
  | .script => hasEnding file layout.scriptEnding && !hasEnding file layout.declarationEnding

/-- How a stage fails. Of several texts that cannot be read, any one may be told. -/
inductive Fails (host : Host) (config : Config) (layout : Layout) : Stage -> Problem -> Prop
  | outputMissing (missing : host.isDirectory (outputDirectory host config) = false) :
      Fails host config layout .output (.outputMissing (outputDirectory host config))
  | manifestMissing
      (missing : host.readText (host.absolutize config.manifestPath) =
        .error (.system .notFound)) :
      Fails host config layout .manifest
        (.manifestMissing (host.absolutize config.manifestPath))
  | manifestUnreadable {cause : Cause}
      (failed : host.readText (host.absolutize config.manifestPath) = .error (.system cause))
      (there : cause ≠ .notFound) :
      Fails host config layout .manifest
        (.manifestUnreadable (host.absolutize config.manifestPath) cause.message)
  | manifestNotText {offset : Nat}
      (failed : host.readText (host.absolutize config.manifestPath) = .error (.notText offset)) :
      Fails host config layout .manifest
        (.manifestUnreadable (host.absolutize config.manifestPath)
          "stream did not contain valid UTF-8")
  | manifestRefused {text : String} {fault : Manifest.Fault}
      (read : host.readText (host.absolutize config.manifestPath) = .ok text)
      (refused : Manifest.parse text = .error fault) :
      Fails host config layout .manifest
        (.manifestUnreadable (host.absolutize config.manifestPath) fault.message)
  | entryMissing {text : String} {manifest : Manifest}
      (read : host.readText (host.absolutize config.manifestPath) = .ok text)
      (parsed : Manifest.parse text = .ok manifest) (missing : manifest.entry = none) :
      Fails host config layout .entry (.entryMissing (host.absolutize config.manifestPath))
  | listing {fault : FileFault}
      (failed : host.visibleFiles (outputDirectory host config) = .error fault) :
      Fails host config layout .listing
        (.contentUnreadable (outputDirectory host config) fault.message)
  | text {role : FileRole} {files : List Path} {file : Path} {fault : FileFault}
      (listed : host.visibleFiles (outputDirectory host config) = .ok files)
      (member : file ∈ files) (ofRole : isOfRole layout role file = true)
      (failed : host.readText file = .error fault) :
      Fails host config layout (.texts role) (.contentUnreadable file fault.message)

/-- What it takes for a package that stock of it can be taken. -/
structure IsReady (host : Host) (config : Config) (layout : Layout) : Prop where
  isDirectory : host.isDirectory (outputDirectory host config) = true
  manifest : ∃ text manifest entry,
    host.readText (host.absolutize config.manifestPath) = .ok text ∧
      Manifest.parse text = .ok manifest ∧ manifest.entry = some entry
  files : ∃ files, host.visibleFiles (outputDirectory host config) = .ok files ∧
    ∀ role, ∀ file ∈ files, isOfRole layout role file = true ->
      ∃ text, host.readText file = .ok text

/-- What a snapshot holds of a package: the tracked files in the order of the listing, each once
and in one role, with its own text, and no other file. -/
structure IsExact (host : Host) (config : Config) (layout : Layout) (snapshot : Snapshot) :
    Prop where
  listed : host.visibleFiles (outputDirectory host config) = .ok snapshot.files
  paths : ∀ role, (snapshot.tracked role).files.map Prod.fst =
    snapshot.files.filter (isOfRole layout role)
  texts : ∀ role, ∀ pair ∈ (snapshot.tracked role).files, host.readText pair.1 = .ok pair.2
  once : ∀ role, ((snapshot.tracked role).files.map Prod.fst).Nodup
  apart : ((snapshot.tracked .declaration).files.map Prod.fst).Disjoint
    ((snapshot.tracked .script).files.map Prod.fst)
  known : ∀ role path, (snapshot.tracked role).paths.contains path = true ↔
    ∃ pair ∈ (snapshot.tracked role).files, pair.1.components = path.components

/-! ## Roles -/

/-- The role that is told for a file is the only one that it has. -/
theorem isOfRole_iff {role : FileRole} {file : Path} :
    isOfRole layout role file = true ↔ roleOf? layout file = some role := by
  unfold isOfRole hasEnding roleOf?
  cases file.fileName?.bind Name.text? with
  | none => cases role <;> simp
  | some name =>
    cases role with
    | declaration => grind
    | script => grind

/-- The files that are read for a role are those of the role. -/
theorem filter_isOfRole (layout : Layout) (role : FileRole) (files : List Path) :
    (files.filter fun file => roleOf? layout file = some role) =
      files.filter (isOfRole layout role) := by
  apply List.filter_congr
  intro file _
  rw [Bool.eq_iff_iff, isOfRole_iff, decide_eq_true_iff]

/-! ## How stages fail -/

theorem bind_eq_error_iff {ε α β : Type} {first : Except ε α} {next : α -> Except ε β}
    {fault : ε} :
    (first >>= next) = .error fault ↔
      first = .error fault ∨ ∃ value, first = .ok value ∧ next value = .error fault := by
  cases first <;> simp [bind, Except.bind]

/-- The output directory is listed exactly if its visible files are. -/
theorem listOutput_eq_ok_iff {output : Path} {files : List Path} :
    listOutput host output = .ok files ↔ host.visibleFiles output = .ok files := by
  unfold listOutput
  cases host.visibleFiles output <;> simp

/-- A manifest that is not read fails its stage. -/
theorem fails_manifest {problem : Problem}
    (failed : readManifest host (host.absolutize config.manifestPath) = .error problem) :
    Fails host config layout .manifest problem := by
  unfold readManifest at failed
  split at failed
  · rename_i gone
    obtain rfl := Except.error.inj failed
    exact .manifestMissing (by rw [Host.readText, gone])
  · rename_i cause there unread
    obtain rfl := Except.error.inj failed
    exact .manifestUnreadable (by rw [Host.readText, unread]) there
  · rename_i bytes read
    split at failed
    · rename_i undecoded
      obtain rfl := Except.error.inj failed
      exact .manifestNotText (by rw [Host.readText, read]; dsimp only; rw [undecoded])
    · rename_i text decoded
      have readText : host.readText (host.absolutize config.manifestPath) = .ok text := by
        rw [Host.readText, read]
        dsimp only
        rw [decoded]
      split at failed
      · rename_i fault refused
        obtain rfl := Except.error.inj failed
        exact .manifestRefused readText refused
      · cases failed

/-- An entry that is not found fails its stage. -/
theorem fails_entry {manifest : Manifest} {problem : Problem}
    (read : readManifest host (host.absolutize config.manifestPath) = .ok manifest)
    (failed : entryOf manifest (host.absolutize config.manifestPath) = .error problem) :
    Fails host config layout .entry problem := by
  obtain ⟨text, readText, parsed⟩ := readManifest_eq_ok_iff.1 read
  unfold entryOf at failed
  split at failed
  · cases failed
  · rename_i missing
    obtain rfl := Except.error.inj failed
    exact .entryMissing readText parsed missing

/-- A listing that fails is a stage that fails. -/
theorem fails_listing {problem : Problem}
    (failed : listOutput host (outputDirectory host config) = .error problem) :
    Fails host config layout .listing problem := by
  unfold listOutput at failed
  split at failed
  · cases failed
  · rename_i fault unlisted
    obtain rfl := Except.error.inj failed
    exact .listing unlisted

/-- Texts cannot be read when one of them cannot. -/
theorem exists_of_readTexts {files : List Path} {problem : Problem}
    (failed : readTexts host files = .error problem) :
    ∃ file ∈ files, ∃ fault, host.readText file = .error fault ∧
      problem = .contentUnreadable file fault.message := by
  unfold readTexts at failed
  induction files with
  | nil => cases failed
  | cons file files ih =>
    rw [List.mapM_cons, bind_eq_error_iff] at failed
    rcases failed with failed | ⟨text, -, failed⟩
    · split at failed
      · cases failed
      · rename_i fault unread
        exact ⟨file, List.mem_cons_self .., fault, unread, (Except.error.inj failed).symm⟩
    · rw [bind_eq_error_iff] at failed
      rcases failed with failed | ⟨texts, -, failed⟩
      · obtain ⟨file', member, unread⟩ := ih failed
        exact ⟨file', List.mem_cons_of_mem _ member, unread⟩
      · cases failed

/-- Texts are not read where the files of a role are not. -/
theorem readTexts_of_readFiles {files : List Path} {problem : Problem}
    (failed : readFiles host files = .error problem) : readTexts host files = .error problem := by
  unfold readFiles at failed
  split at failed
  · cases failed
  · rename_i problem' unread
    exact unread.trans (congrArg Except.error (Except.error.inj failed))

/-- Files of a role that cannot be read are a stage that fails. -/
theorem fails_texts {role : FileRole} {files : List Path} {problem : Problem}
    (listed : host.visibleFiles (outputDirectory host config) = .ok files)
    (failed : readFiles host (files.filter fun file => roleOf? layout file = some role) =
      .error problem) :
    Fails host config layout (.texts role) problem := by
  obtain ⟨file, member, fault, unread, rfl⟩ := exists_of_readTexts (readTexts_of_readFiles failed)
  rw [filter_isOfRole, List.mem_filter] at member
  exact .text listed member.1 member.2 unread

/-! ## Stages that do not fail -/

/-- Whether a stage does not fail. -/
def Passes (host : Host) (config : Config) (layout : Layout) (stage : Stage) : Prop :=
  ∀ problem, ¬Fails host config layout stage problem

/-- Where the output directory is one, the first stage does not fail. -/
theorem passes_output (isDirectory : host.isDirectory (outputDirectory host config) = true) :
    Passes host config layout .output := by
  intro problem fails
  cases fails with
  | outputMissing missing => cases isDirectory.symm.trans missing

/-- A manifest that is read and parsed does not fail. -/
theorem passes_manifest {text : String} {manifest : Manifest}
    (read : host.readText (host.absolutize config.manifestPath) = .ok text)
    (parsed : Manifest.parse text = .ok manifest) : Passes host config layout .manifest := by
  intro problem fails
  cases fails with
  | manifestMissing missing => cases read.symm.trans missing
  | manifestUnreadable failed _ => cases read.symm.trans failed
  | manifestNotText failed => cases read.symm.trans failed
  | manifestRefused read' refused =>
    obtain rfl := Except.ok.inj (read.symm.trans read')
    cases parsed.symm.trans refused

/-- A manifest that names an entry does not fail. -/
theorem passes_entry {text entry : String} {manifest : Manifest}
    (read : host.readText (host.absolutize config.manifestPath) = .ok text)
    (parsed : Manifest.parse text = .ok manifest) (named : manifest.entry = some entry) :
    Passes host config layout .entry := by
  intro problem fails
  cases fails with
  | entryMissing read' parsed' missing =>
    obtain rfl := Except.ok.inj (read.symm.trans read')
    obtain rfl := Except.ok.inj (parsed.symm.trans parsed')
    cases named.symm.trans missing

/-- A directory that is listed does not fail. -/
theorem passes_listing {files : List Path}
    (listed : host.visibleFiles (outputDirectory host config) = .ok files) :
    Passes host config layout .listing := by
  intro problem fails
  cases fails with
  | listing failed => cases listed.symm.trans failed

/-- Texts of a role that can all be read do not fail. -/
theorem passes_texts {role : FileRole} {files : List Path}
    (listed : host.visibleFiles (outputDirectory host config) = .ok files)
    (readable : ∀ file ∈ files, isOfRole layout role file = true ->
      ∃ text, host.readText file = .ok text) : Passes host config layout (.texts role) := by
  intro problem fails
  cases fails with
  | text listed' member ofRole failed =>
    obtain rfl := Except.ok.inj (listed.symm.trans listed')
    obtain ⟨text, read⟩ := readable _ member ofRole
    cases read.symm.trans failed

/-- Where a package is ready, no stage fails. -/
theorem IsReady.passes (isReady : IsReady host config layout) (stage : Stage) :
    Passes host config layout stage := by
  obtain ⟨isDirectory, ⟨text, manifest, entry, read, parsed, named⟩, files, listed, readable⟩ :=
    isReady
  cases stage with
  | output => exact passes_output isDirectory
  | manifest => exact passes_manifest read parsed
  | entry => exact passes_entry read parsed named
  | listing => exact passes_listing listed
  | texts role => exact passes_texts listed (readable role)

/-- Where files are read, each of them is. -/
theorem readable_of_readFiles {role : FileRole} {files : List Path} {set : FileSet}
    (read : readFiles host (files.filter fun file => roleOf? layout file = some role) = .ok set) :
    ∀ file ∈ files, isOfRole layout role file = true -> ∃ text, host.readText file = .ok text := by
  intro file member ofRole
  rw [filter_isOfRole] at read
  obtain ⟨pair, -, -, found⟩ := exists_of_mem_forall₂ (forall₂_readFiles read).flip
    (List.mem_filter.2 ⟨member, ofRole⟩)
  exact ⟨pair.2, found⟩

/-- Stock is not taken when a stage fails, and the first one that does is told. -/
theorem exists_stage_of_take {problem : Problem}
    (failed : take host config layout = .error problem) :
    ∃ earlier stage later, stages = earlier ++ stage :: later ∧
      (∀ passed ∈ earlier, Passes host config layout passed) ∧
      Fails host config layout stage problem := by
  -- One step of `take` after the other: it fails there, or it is a stage that passes.
  unfold take at failed
  dsimp only at failed
  by_cases isDirectory : host.isDirectory (outputDirectory host config) = true
  · have output := @passes_output host config layout isDirectory
    simp only [isDirectory, Bool.not_true, Bool.false_eq_true, if_false, bind_eq_error_iff,
      entryOf_eq_ok_iff, listOutput_eq_ok_iff] at failed
    rcases failed with failed | ⟨manifest, read, failed⟩
    · exact ⟨[.output], .manifest, _, rfl, by simp [output], fails_manifest failed⟩
    obtain ⟨text, readText, parsed⟩ := readManifest_eq_ok_iff.1 read
    have manifest := @passes_manifest host config layout _ _ readText parsed
    rcases failed with failed | ⟨entry, named, failed⟩
    · exact ⟨[.output, .manifest], .entry, _, rfl, by simp [output, manifest],
        fails_entry read failed⟩
    have entry := @passes_entry host config layout _ _ _ readText parsed named
    rcases failed with failed | ⟨files, listed, failed⟩
    · exact ⟨[.output, .manifest, .entry], .listing, _, rfl, by simp [output, manifest, entry],
        fails_listing failed⟩
    have listing := @passes_listing host config layout _ listed
    rcases failed with failed | ⟨declarations, read, failed⟩
    · exact ⟨[.output, .manifest, .entry, .listing], .texts .declaration, _, rfl,
        by simp [output, manifest, entry, listing], fails_texts listed failed⟩
    have texts := @passes_texts host config layout _ _ listed (readable_of_readFiles read)
    rcases failed with failed | ⟨scripts, -, failed⟩
    · exact ⟨[.output, .manifest, .entry, .listing, .texts .declaration], .texts .script, _, rfl,
        by simp [output, manifest, entry, listing, texts], fails_texts listed failed⟩
    · cases failed
  · rw [Bool.not_eq_true] at isDirectory
    simp only [isDirectory, Bool.not_false, if_true] at failed
    obtain rfl := Except.error.inj failed
    exact ⟨[], .output, _, rfl, by simp, .outputMissing isDirectory⟩

/-! ## All or nothing -/

/-- A snapshot is taken of a package that is ready only. -/
theorem Taken.isReady (taken : Taken host config layout snapshot) :
    IsReady host config layout := by
  obtain ⟨text, read, parsed⟩ := readManifest_eq_ok_iff.1 taken.manifest
  obtain ⟨entry, named, -⟩ := taken.entry
  exact ⟨taken.isDirectory, ⟨text, _, entry, read, parsed, named⟩, snapshot.files,
    listOutput_eq_ok_iff.1 taken.files, fun role => readable_of_readFiles (taken.tracked role)⟩

/-- What is taken holds what there is. -/
theorem Taken.isExact (taken : Taken host config layout snapshot)
    (proper : host.tree.IsProper) : IsExact host config layout snapshot := by
  have paths (role : FileRole) := (taken.map_fst_tracked role).trans (filter_isOfRole layout role _)
  have nodup := taken.nodup_files proper
  refine ⟨listOutput_eq_ok_iff.1 taken.files, paths, fun role pair member => ?_, fun role => ?_,
    ?_, fun role path => ?_⟩
  · obtain ⟨file, -, rfl, read⟩ :=
      exists_of_mem_forall₂ (forall₂_readFiles (taken.tracked role)) member
    exact read
  · rw [paths]
    exact nodup.filter _
  · rw [paths, paths]
    intro file declared emitted
    have declaration := (List.mem_filter.1 declared).2
    have script := (List.mem_filter.1 emitted).2
    rw [isOfRole_iff] at declaration script
    cases declaration.symm.trans script
  · rw [(snapshot.tracked role).paths_eq_ofList, PathSet.contains_ofList]
    simp

/-- Stock is taken of a package exactly when it is ready for that. Then the snapshot holds the
tracked files and nothing else, and otherwise the first stage that fails is told. -/
theorem take_allOrNothing (proper : host.tree.IsProper) :
    ((∃ snapshot, take host config layout = .ok snapshot) ↔ IsReady host config layout) ∧
      (∀ snapshot, take host config layout = .ok snapshot ->
        IsExact host config layout snapshot) ∧
      ∀ problem, take host config layout = .error problem ->
        ∃ earlier stage later, stages = earlier ++ stage :: later ∧
          (∀ passed ∈ earlier, Passes host config layout passed) ∧
          Fails host config layout stage problem := by
  refine ⟨⟨?_, fun isReady => ?_⟩, fun snapshot taken => ?_, fun problem => exists_stage_of_take⟩
  · rintro ⟨snapshot, taken⟩
    exact (take_eq_ok_iff.1 taken).isReady
  · cases taken : take host config layout with
    | ok snapshot => exact ⟨snapshot, rfl⟩
    | error problem =>
      obtain ⟨_, stage, _, -, -, fails⟩ := exists_stage_of_take taken
      exact absurd fails (isReady.passes stage problem)
  · exact (take_eq_ok_iff.1 taken).isExact proper

/-- Stock is taken of the small package: its two scripts and its declaration are held with their
texts. -/
theorem take_allOrNothing_samplePackage :
    samplePackage.tree.IsProper ∧ take samplePackage sampleConfig {} = .ok sampleSnapshot ∧
      IsReady samplePackage sampleConfig {} ∧
      IsExact samplePackage sampleConfig {} sampleSnapshot := by
  have proper : samplePackage.tree.IsProper := by decide
  obtain ⟨ready, exact, -⟩ := @take_allOrNothing samplePackage sampleConfig {} proper
  exact ⟨proper, samplePackage_take, ready.1 ⟨_, samplePackage_take⟩,
    exact _ samplePackage_take⟩

/-! ## A script that is passed over -/

/-- A package with a script whose name is not Unicode. -/
def passedPackage : Host where
  tree := ⟨[(["p"], .directory),
    (["p", "package.json"], .file "\x7b\"main\":\"dist/index.js\"\x7d".toByteArray false),
    (["p", "dist"], .directory),
    (["p", "dist", "index.js"], .file "".toByteArray false),
    (["p", "dist", strayName ++ ".js"], .file "".toByteArray false)]⟩
  directory := ["p"]

/-- What is known of the package. -/
def passedSnapshot : Snapshot where
  root := ⟨"/p/dist"⟩
  layout := {}
  manifest := { entry := some "dist/index.js" }
  files := [⟨"/p/dist/index.js"⟩, ⟨"/p/dist/" ++ strayName ++ ".js"⟩]
  scripts := .ofFiles [(⟨"/p/dist/index.js"⟩, "")]
  declarations := .ofFiles []

theorem passedPackage_children :
    passedPackage.tree.children ["p", "dist"] = ["index.js", strayName ++ ".js"] := by
  rw [Tree.children, show passedPackage.tree.entries.filterMap _ = _ from
    (by decide : _ = ["index.js", strayName ++ ".js"])]
  exact List.mergeSort_of_pairwise (by decide)

/-- A file whose name ends as those of scripts do is listed, but is no script if its name is not
Unicode. -/
theorem take_passedPackage :
    passedPackage.tree.IsProper ∧ take passedPackage sampleConfig {} = .ok passedSnapshot ∧
      ∃ file ∈ passedSnapshot.files, ∃ name, file.fileName? = some name ∧
        Name.bytes ".js" <:+ Name.bytes name ∧ ¬Name.bytes ".d.ts" <:+ Name.bytes name ∧
        file ∉ passedSnapshot.scripts.files.map Prod.fst := by
  refine ⟨by decide, ?_, ⟨"/p/dist/" ++ strayName ++ ".js"⟩, by decide, strayName ++ ".js",
    by decide, by decide, by decide, by decide⟩
  have listed : passedPackage.visibleFiles ⟨"/p/dist"⟩ = .ok passedSnapshot.files :=
    visibleFiles_of_children rfl (by decide) passedPackage_children (by decide : _ = 35 + 1)
      (by decide)
  have script : passedPackage.readText ⟨"/p/dist/index.js"⟩ = .ok "" :=
    @readText_of_status _ _ ["p", "dist", "index.js"] _ false (by decide)
  have manifest : passedPackage.readText ⟨"/p/package.json"⟩ =
      .ok "\x7b\"main\":\"dist/index.js\"\x7d" :=
    @readText_of_status _ _ ["p", "package.json"] _ false (by decide)
  refine take_of_visibleFiles rfl rfl (by decide) manifest (by decide) rfl (by decide) listed
    fun role => ?_
  cases role with
  | script =>
    rw [show passedSnapshot.files.filter _ = _ from (by decide : _ = [⟨"/p/dist/index.js"⟩])]
    exact .cons ⟨rfl, script⟩ .nil
  | declaration =>
    rw [show passedSnapshot.files.filter _ = _ from (by decide : _ = [])]
    exact .nil

end Relink.Snapshot
