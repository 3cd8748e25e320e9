import Relink.Proofs.Script.Data
import Relink.Proofs.Settled

/-!
# Relinking a text again

When a text is relinked, its pieces stay where they are and only specifiers change. Every changed
one is settled, and every other one is judged as before, so that relinking the text again changes
nothing and tells the same.
-/

namespace Relink

open Script

namespace Snapshot

variable {host : Host} {config : Config} {snapshot : Snapshot}

/-- What a tracked file holds once the files in `written` were written. -/
def textAfter (snapshot : Snapshot) (written : List Path) (role : FileRole) (file : Path)
    (text : String) : String :=
  if file ∈ written then (snapshot.relinkText role file text).text else text

/-- The snapshot after tracked files were written: those in `written`. -/
def rewritten (snapshot : Snapshot) (written : List Path) : Snapshot :=
  { snapshot with
    scripts := .ofFiles (snapshot.scripts.files.map fun (file, text) =>
      (file, snapshot.textAfter written .script file text))
    declarations := .ofFiles (snapshot.declarations.files.map fun (file, text) =>
      (file, snapshot.textAfter written .declaration file text)) }

variable {written : List Path}

/-- The files that are tracked after a pass, with their new texts. -/
theorem tracked_rewritten (role : FileRole) :
    ((snapshot.rewritten written).tracked role).files =
      (snapshot.tracked role).files.map fun (file, text) =>
        (file, snapshot.textAfter written role file text) := by
  cases role <;> exact FileSet.files_ofFiles _

/-- A pass leaves the paths that are tracked. -/
theorem paths_rewritten (role : FileRole) :
    ((snapshot.rewritten written).tracked role).paths = (snapshot.tracked role).paths := by
  rw [FileSet.paths_eq_ofList, FileSet.paths_eq_ofList, tracked_rewritten, List.map_map]
  rfl

/-- What becomes of a specifier does not depend on the texts of the tracked files. -/
theorem relinkSpecifier_rewritten (role : FileRole) (file : Path) (specifier : String) :
    (snapshot.rewritten written).relinkSpecifier role file specifier =
      snapshot.relinkSpecifier role file specifier := by
  have resolved : (snapshot.rewritten written).resolve? role file specifier =
      snapshot.resolve? role file specifier := by
    unfold resolve?
    rw [paths_rewritten]
    cases role <;> rfl
  unfold relinkSpecifier relinkLocal
  rw [resolved]
  cases role <;> rfl

/-- How a text is relinked does not depend on what was written. -/
theorem relinkText_rewritten (role : FileRole) (file : Path) (text : String) :
    (snapshot.rewritten written).relinkText role file text =
      snapshot.relinkText role file text := by
  unfold relinkText
  dsimp only
  simp only [relinkSpecifier_rewritten]
  congr 2
  apply List.flatMap_congr
  intro piece _
  cases piece with
  | plain text => rfl
  | site form specifier => rw [relinkPiece, relinkPiece, relinkSpecifier_rewritten]

/-! ## Judging a specifier again -/

/-- What stands for a specifier after its file was relinked. -/
def settle (snapshot : Snapshot) (role : FileRole) (file : Path) (specifier : List Char) :
    List Char :=
  (snapshot.relinkSpecifier role file (String.ofList specifier)).applyTo specifier

/-- A piece is relinked by settling its specifier. -/
theorem relinkPiece_eq (role : FileRole) (file : Path) (piece : Piece) :
    snapshot.relinkPiece role file piece = (piece.replace (snapshot.settle role file)).text := by
  cases piece <;> rfl

/-- Specifiers that are judged again are judged as before, or were replaced and are settled. -/
def Settles (snapshot : Snapshot) (role : FileRole) (file : Path) (specifier : List Char) : Prop :=
  (∃ next, snapshot.relinkSpecifier role file (String.ofList specifier) = .replaced next ∧
      snapshot.settle role file specifier = next.toList ∧
      snapshot.relinkSpecifier role file next = .unchanged) ∨
    ((snapshot.relinkSpecifier role file (String.ofList specifier)).isReplaced = false ∧
      snapshot.settle role file specifier = specifier)

/-- In a snapshot that was taken, every specifier of a file settles. -/
theorem settles (taken : Taken host config {} snapshot) (named : host.tree.Named)
    {role : FileRole} {file directory : Path} {text : String}
    (member : (file, text) ∈ (snapshot.tracked role).files)
    (parent : file.parent? = some directory) (unicode : directory.HasUnicodeWay snapshot.root)
    (specifier : List Char) : Settles snapshot role file specifier := by
  cases outcome : snapshot.relinkSpecifier role file (String.ofList specifier) with
  | replaced next =>
    have settled := relinkSpecifier_settled taken named member parent unicode outcome
    refine .inl ⟨next, outcome, ?_, settled⟩
    rw [settle, outcome]
    rfl
  | unchanged =>
    refine .inr ⟨by rw [outcome]; rfl, ?_⟩
    rw [settle, outcome]
    rfl
  | reported concern =>
    refine .inr ⟨by rw [outcome]; rfl, ?_⟩
    rw [settle, outcome]
    rfl

/-- What is settled is settled once and for all. -/
theorem Settles.settle_settle {role : FileRole} {file : Path} {specifier : List Char}
    (settles : Settles snapshot role file specifier) :
    snapshot.settle role file (snapshot.settle role file specifier) =
      snapshot.settle role file specifier := by
  rcases settles with ⟨next, -, same, settled⟩ | ⟨-, same⟩
  · rw [same, settle, String.ofList_toList, settled]
    rfl
  · rw [same, same]

/-- The outcomes for the specifiers of pieces. -/
def outcomes (snapshot : Snapshot) (role : FileRole) (file : Path) (offset line : Nat)
    (found : List Piece) : List (Occurrence × Outcome) :=
  (occurrencesFrom offset line found).map fun occurrence =>
    (occurrence, snapshot.relinkSpecifier role file occurrence.specifier)

/-- A text is relinked piece by piece. -/
theorem relinkText_eq (role : FileRole) (file : Path) {text : String} {found : List Piece}
    (scanned : pieces text.toList = found) :
    snapshot.relinkText role file text =
      ⟨String.ofList ((found.map (Piece.replace (snapshot.settle role file))).flatMap Piece.text),
        (snapshot.outcomes role file 0 1 found).countP fun (_, outcome) => outcome.isReplaced,
        (snapshot.outcomes role file 0 1 found).filterMap fun (occurrence, outcome) =>
          outcome.warning? file occurrence⟩ := by
  subst scanned
  rw [relinkText, List.flatMap_map]
  congr 2
  exact List.flatMap_congr fun piece _ => relinkPiece_eq role file piece

/-- When specifiers are judged again, none is replaced, and the same is told of them. -/
theorem outcomes_replace {role : FileRole} {file : Path} {found : List Piece}
    (settles : ∀ form specifier, .site form specifier ∈ found ->
      Settles snapshot role file specifier) (offset offset' line : Nat) :
    let again := snapshot.outcomes role file offset' line
      (found.map (Piece.replace (snapshot.settle role file)))
    (again.countP fun (_, outcome) => outcome.isReplaced) = 0 ∧
      (again.filterMap fun (found, outcome) => outcome.warning? file found) =
        (snapshot.outcomes role file offset line found).filterMap fun (found, outcome) =>
          outcome.warning? file found := by
  induction found generalizing offset offset' line with
  | nil => exact ⟨rfl, rfl⟩
  | cons piece found ih =>
    replace ih := ih fun form specifier member =>
      settles form specifier (List.mem_cons_of_mem _ member)
    cases piece with
    | plain text => exact ih _ _ _
    | site form specifier =>
      obtain ⟨none_, told⟩ := ih (offset + Text.byteLength specifier)
        (offset' + Text.byteLength (snapshot.settle role file specifier)) line
      have here := settles form specifier (List.mem_cons_self ..)
      unfold outcomes at none_ told ⊢
      dsimp only at none_ told ⊢
      rw [List.map_cons, Piece.replace, occurrencesFrom, occurrencesFrom, List.map_cons,
        List.map_cons, List.countP_cons, none_, List.filterMap_cons, List.filterMap_cons, told]
      rcases here with ⟨next, replaced, same, settled⟩ | ⟨notReplaced, same⟩
      · rw [same, String.ofList_toList, settled, replaced]
        exact ⟨rfl, rfl⟩
      · rw [same, notReplaced]
        refine ⟨rfl, ?_⟩
        cases snapshot.relinkSpecifier role file (String.ofList specifier) <;> rfl

/-- When what is added to the specifiers of a text can be quoted, the relinked text has the pieces
of the text, with specifiers that were replaced. -/
theorem pieces_relinkText (taken : Taken host config {} snapshot) (named : host.tree.Named)
    {tracked role : FileRole} {file directory : Path} {content text : String}
    (member : (file, content) ∈ (snapshot.tracked tracked).files)
    (parent : file.parent? = some directory)
    (adds : ∀ form specifier, .site form specifier ∈ pieces text.toList ->
      snapshot.AddsQuotable directory (String.ofList specifier)) :
    pieces (snapshot.relinkText role file text).text.toList =
      (pieces text.toList).map (Piece.replace (snapshot.settle role file)) := by
  rw [relinkText_eq role file rfl, String.toList_ofList]
  refine pieces_replace fun form specifier inside => ?_
  have isSpecifier := (scan_pieces text.toList).isSpecifier inside
  rw [settle]
  cases outcome : snapshot.relinkSpecifier role file (String.ofList specifier) with
  | unchanged => exact isSpecifier
  | reported concern => exact isSpecifier
  | replaced next =>
    refine isSpecifier_of_replaced taken named member parent ?_ (adds form specifier inside) outcome
    intro character here
    rw [String.toList_ofList] at here
    exact isSpecifier.characters character here

/-- Relinking a relinked text changes nothing, and tells what relinking the text told. -/
theorem relinkText_again (taken : Taken host config {} snapshot) (named : host.tree.Named)
    {role : FileRole} {file directory : Path} {text : String}
    (member : (file, text) ∈ (snapshot.tracked role).files)
    (parent : file.parent? = some directory)
    (unicode : directory.HasUnicodeWay snapshot.root)
    (adds : ∀ specifier, snapshot.AddsQuotable directory specifier) :
    snapshot.relinkText role file (snapshot.relinkText role file text).text =
      ⟨(snapshot.relinkText role file text).text, 0,
        (snapshot.relinkText role file text).warnings⟩ := by
  have settles_ := settles taken named member parent unicode
  have first := @relinkText_eq snapshot role file text _ rfl
  have found := @pieces_relinkText _ _ _ taken named _ role _ _ _ text member parent
    fun _ specifier _ => adds (String.ofList specifier)
  obtain ⟨none_, told⟩ := @outcomes_replace snapshot role file (pieces text.toList)
    (fun form specifier _ => settles_ specifier) 0 0 1
  have same : ((pieces text.toList).map (Piece.replace (snapshot.settle role file))).map
      (Piece.replace (snapshot.settle role file)) =
        (pieces text.toList).map (Piece.replace (snapshot.settle role file)) := by
    rw [List.map_map]
    apply List.map_congr_left
    intro piece _
    cases piece with
    | plain text => rfl
    | site form specifier =>
      exact congrArg (Piece.site form) (settles_ specifier).settle_settle
  rw [relinkText_eq role file found, same, none_, told, first]

/-- Relinking a manifest changes nothing. -/
theorem relinkText_manifest {text : String} {manifest : Manifest} (role : FileRole) (file : Path)
    (parsed : Manifest.parse text = .ok manifest) :
    (snapshot.relinkText role file text).text = text := by
  obtain ⟨parts, plain⟩ := pieces_of_parse parsed
  have whole := (scan_pieces text.toList).flatMap_text
  rw [plain] at whole
  rw [relinkText_eq role file plain]
  dsimp only
  have same : Piece.replace (snapshot.settle role file) ∘ Piece.plain = Piece.plain := rfl
  rw [List.map_map, same, whole, String.ofList_toList]

end Snapshot
end Relink
