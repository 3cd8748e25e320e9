import Relink.Config
import Relink.Layout
import Relink.Manifest
import Relink.Problem
import Relink.Specifier.Candidate
import Relink.Tree.Listing

/-!
# Snapshots

The facts that a pass resolves specifiers against: the package's manifest and its compiled
output. A snapshot holds the text of every tracked file, or there is none.
-/

namespace Relink

/-- The two roles of a tracked file. -/
inductive FileRole where
  /-- An emitted script. -/
  | script
  /-- A type declaration. -/
  | declaration
deriving DecidableEq, Repr

/-- Listed files, their texts in the same order, and the set of their paths. -/
structure FileSet where
  listed : List Path
  texts : List String
  /-- No file is without its text, and no text without its file. -/
  aligned : texts.length = listed.length
  paths : PathSet := PathSet.ofList listed
  paths_eq : paths = PathSet.ofList listed := by rfl

namespace FileSet

/-- The files with their texts. -/
def files (set : FileSet) : List (Path × String) :=
  set.listed.zip set.texts

/-- The set of files that are given with their texts. -/
def ofFiles (files : List (Path × String)) : FileSet where
  listed := files.map Prod.fst
  texts := files.map Prod.snd
  aligned := by rw [List.length_map, List.length_map]

@[simp] theorem files_ofFiles (files : List (Path × String)) : (ofFiles files).files = files :=
  (List.zip_of_prod rfl rfl).symm

/-- The files of a set are those that were listed: pairing them with their texts loses none. -/
theorem map_fst_files (set : FileSet) : set.files.map Prod.fst = set.listed :=
  List.map_fst_zip (Nat.le_of_eq set.aligned.symm)

theorem map_snd_files (set : FileSet) : set.files.map Prod.snd = set.texts :=
  List.map_snd_zip (Nat.le_of_eq set.aligned)

theorem paths_eq_ofList (set : FileSet) : set.paths = .ofList (set.files.map Prod.fst) := by
  rw [set.paths_eq, map_fst_files]

/-- A set is given by its files with their texts. -/
theorem ext {set set' : FileSet} (same : set.files = set'.files) : set = set' := by
  have listed := congrArg (List.map Prod.fst) same
  have texts := congrArg (List.map Prod.snd) same
  rw [map_fst_files, map_fst_files] at listed
  rw [map_snd_files, map_snd_files] at texts
  obtain ⟨_, _, _, paths, paths_eq⟩ := set
  obtain ⟨_, _, _, paths', paths_eq'⟩ := set'
  subst listed texts paths_eq paths_eq'
  rfl

end FileSet

/-- What a pass knows. -/
structure Snapshot where
  /-- The directory of the entry module, from which aliased specifiers are read. -/
  root : Path
  layout : Layout
  manifest : Manifest
  /-- Every visible file of the output, tracked or not. -/
  files : List Path
  scripts : FileSet
  declarations : FileSet

namespace Snapshot

/-- The tracked files of a role. -/
def tracked (snapshot : Snapshot) : FileRole -> FileSet
  | .script => snapshot.scripts
  | .declaration => snapshot.declarations

/-- The ending of the files of a role. -/
def ending (snapshot : Snapshot) : FileRole -> String
  | .script => snapshot.layout.scriptEnding
  | .declaration => snapshot.layout.declarationEnding

/-- The role of a file, if it is tracked. What ends as a declaration is one, even if it ends as
a script too. A name that is not Unicode has no role. -/
def roleOf? (layout : Layout) (file : Path) : Option FileRole :=
  match file.fileName?.bind Name.text? with
  | none => none
  | some name =>
    if Text.endsWith name layout.declarationEnding then some .declaration
    else if Text.endsWith name layout.scriptEnding then some .script
    else none

/-- The manifest at a path. -/
def readManifest (host : Host) (path : Path) : Except Problem Manifest :=
  match host.readBytes path with
  | .error .notFound => .error (.manifestMissing path)
  | .error cause => .error (.manifestUnreadable path cause.message)
  | .ok bytes =>
    match Utf8.text? bytes with
    | none => .error (.manifestUnreadable path "stream did not contain valid UTF-8")
    | some text =>
      match Manifest.parse text with
      | .error fault => .error (.manifestUnreadable path fault.message)
      | .ok manifest => .ok manifest

/-- The entry module of a manifest. `path` is where the manifest was found. -/
def entryOf (manifest : Manifest) (path : Path) : Except Problem String :=
  match manifest.entry with
  | some entry => .ok entry
  | none => .error (.entryMissing path)

/-- The texts of files. The first one that cannot be read fails them all. -/
def readTexts (host : Host) (files : List Path) : Except Problem (List String) :=
  files.mapM fun file =>
    match host.readText file with
    | .ok text => .ok text
    | .error fault => .error (.contentUnreadable file fault.message)

theorem length_readTexts {host : Host} {files : List Path} {texts : List String}
    (read : readTexts host files = .ok texts) : texts.length = files.length := by
  unfold readTexts at read
  induction files generalizing texts with
  | nil =>
    obtain rfl := Except.ok.inj read
    rfl
  | cons file files ih =>
    rw [List.mapM_cons] at read
    cases first : host.readText file with
    | error fault =>
      rw [first] at read
      cases read
    | ok text =>
      rw [first] at read
      cases others : files.mapM fun file => (match host.readText file with
          | .ok text => .ok text
          | .error fault => .error (.contentUnreadable file fault.message) :
            Except Problem String) with
      | error problem =>
        rw [others] at read
        cases read
      | ok rest =>
        rw [others] at read
        obtain rfl := Except.ok.inj read
        rw [List.length_cons, List.length_cons, ih others]

/-- Files with their texts. -/
def readFiles (host : Host) (listed : List Path) : Except Problem FileSet :=
  match read : readTexts host listed with
  | .ok texts => .ok { listed, texts, aligned := length_readTexts read }
  | .error problem => .error problem

/-- The visible files of a directory. -/
def listOutput (host : Host) (output : Path) : Except Problem (List Path) :=
  match host.visibleFiles output with
  | .ok files => .ok files
  | .error fault => .error (.contentUnreadable output fault.message)

/-- The directory that a configuration's output is read from. -/
def outputDirectory (host : Host) (config : Config) : Path :=
  ((host.absolutize config.directory).join config.output).normalize

/-- The directory of an entry module. -/
def rootOf (directory : Path) (entry : String) : Path :=
  (directory.join (.ofText entry)).normalize.parent?.getD directory

/-- The snapshot of a package. -/
def take (host : Host) (config : Config) (layout : Layout) : Except Problem Snapshot := do
  let directory := host.absolutize config.directory
  let output := outputDirectory host config
  if !host.isDirectory output then throw (.outputMissing output)
  let manifestPath := host.absolutize config.manifestPath
  let manifest ← readManifest host manifestPath
  let entry ← entryOf manifest manifestPath
  let files ← listOutput host output
  let declarations ← readFiles host (files.filter fun file => roleOf? layout file = some .declaration)
  let scripts ← readFiles host (files.filter fun file => roleOf? layout file = some .script)
  return { root := rootOf directory entry, layout, manifest, files, scripts, declarations }

end Snapshot
end Relink
