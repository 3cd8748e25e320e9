import Relink.Proofs.Frame
import Relink.Proofs.Stock
import Relink.Proofs.Tree.Folding

/-!
# The output directory

A pass reads the output from the folded form of the configured path. It finds no output exactly
where that form names no directory, and it tells so by a message that no other pass tells.
-/

namespace Relink

/-- What is read from a relative path is relative. -/
theorem Path.isAbsolute_join_of_isRelative {base addition : Path} (relative : base.isAbsolute = false)
    (relative' : addition.isAbsolute = false) : (base.join addition).isAbsolute = false := by
  rw [join, relative', if_neg (by decide)]
  by_cases empty : base.text = ""
  · rw [empty]
    exact relative'
  · obtain ⟨first, rest, written⟩ := List.exists_cons_of_ne_nil
      fun none_ => empty (String.toList_eq_nil_iff.1 none_)
    rw [isAbsolute, written] at relative
    split <;> rw [isAbsolute] <;>
      simp only [String.toList_append, written, List.cons_append, List.head?_cons] at relative ⊢ <;>
      exact relative

namespace Host

variable {host : Host}

/-- The names that a path comes to when it is folded from the directory it is read from. -/
def folded (host : Host) (path : Path) : List String :=
  path.legs.foldl Leg.follow (if path.isAbsolute then [] else host.directory)

theorem areNames_folded (areNames : AreNames host.directory) (path : Path) :
    AreNames (host.folded path) := by
  rw [folded, Path.foldl_follow_legs]
  refine Path.areNames_follow ?_ fun component member => of_mem_parts member
  split
  · exact .nil
  · exact areNames

theorem absolutize_eq (areNames : AreNames host.directory) (path : Path) :
    host.absolutize path = Location.path (host.folded path) := by
  rw [absolutize, Path.absolutize, folded, Path.foldl_follow_legs]
  split
  · rename_i isAbsolute
    exact Path.normalize_of_isAbsolute isAbsolute
  · rename_i relative
    exact Path.normalize_join areNames (Bool.eq_false_iff.2 relative)

/-- The output directory is the folded form of its path, as every command spells it. -/
theorem outputDirectory_eq (areNames : AreNames host.directory) (config : Config) :
    Snapshot.outputDirectory host config = Location.path (host.folded config.outputPath) := by
  rw [Snapshot.outputDirectory, absolutize_eq areNames]
  have areNames' := areNames_folded areNames config.directory
  cases isAbsolute : config.output.isAbsolute with
  | true =>
    have itself (base : Path) : base.join config.output = config.output := by
      rw [Path.join, if_pos isAbsolute]
    rw [itself, Config.outputPath, itself, folded, Path.foldl_follow_legs, if_pos isAbsolute]
    exact Path.normalize_of_isAbsolute isAbsolute
  | false =>
    rw [Path.normalize_join areNames' isAbsolute, folded, folded, Path.foldl_follow_legs,
      Path.foldl_follow_legs, Config.outputPath,
      show (config.directory.join config.output).text =
        (config.directory.join ⟨config.output.text⟩).text from rfl,
      Path.parts_join config.directory isAbsolute, List.foldl_append]
    cases rooted : config.directory.isAbsolute with
    | true => rw [Path.isAbsolute_join rooted]
    | false => rw [Path.isAbsolute_join_of_isRelative rooted isAbsolute]

end Host

namespace Snapshot

variable {host : Host} {config : Config} {layout : Layout}

/-- Where there is an output directory, nothing that goes wrong is told as its absence. -/
theorem ne_outputMissing_of_take {problem : Problem}
    (isDirectory : host.isDirectory (outputDirectory host config) = true)
    (failed : take host config layout = .error problem) (path : Path) :
    problem ≠ .outputMissing path := by
  rintro rfl
  obtain ⟨_, stage, _, -, -, fails⟩ := exists_stage_of_take failed
  cases fails with
  | outputMissing missing => cases isDirectory.symm.trans missing

end Snapshot

/-- That there is no output is told in other words than that it cannot be read. -/
theorem Problem.message_ne (path path' : Path) (reason : String) :
    (contentUnreadable path reason).message ≠ (outputMissing path').message := by
  intro same
  change "Failed to read " ++ path.shown ++ ": " ++ reason =
    "Output directory not found: " ++ path'.shown at same
  have first := congrArg (fun text : String => text.toList.head?) same
  simp [String.toList_append] at first

/-- Whether a pass is skipped because there is no output directory. -/
def FindsNoOutput (host : Host) (config : Config) (layout : Layout) : Prop :=
  relinkOutput host config layout =
    (.ok (Report.ofSkipped
      (Problem.outputMissing (Snapshot.outputDirectory host config)).message), host)

theorem reason_eq_of_ofSkipped {host host' : Host} {reason reason' : String}
    (same : ((.ok (Report.ofSkipped reason), host) : Except Problem Report × Host) =
      (.ok (Report.ofSkipped reason'), host')) : reason = reason' :=
  Option.some.inj (congrArg Report.skipped (Except.ok.inj (Prod.mk.inj same).1))

/-- A pass finds no output exactly where its path, folded, names no directory. -/
theorem findsNoOutput_iff {host : Host} {config : Config} {layout : Layout} :
    FindsNoOutput host config layout ↔
      host.isDirectory (Snapshot.outputDirectory host config) = false := by
  constructor
  · intro finds
    rw [FindsNoOutput] at finds
    by_contra found
    rw [Bool.not_eq_false] at found
    cases taken : Snapshot.take host config layout with
    | ok snapshot =>
      have skipped := @Snapshot.isSkipped_relinkAll host snapshot
      generalize all : snapshot.relinkAll host = pass at skipped
      rw [relinkOutput_of_take taken all] at finds
      rw [Except.ok.inj (Prod.mk.inj finds).1] at skipped
      cases skipped
    | error problem =>
      have other := Snapshot.ne_outputMissing_of_take found taken
      unfold relinkOutput at finds
      rw [taken] at finds
      dsimp only at finds
      cases problem with
      | outputMissing path => exact other path rfl
      | contentUnreadable path reason =>
        rw [if_pos (show (Problem.contentUnreadable path reason).isSoft = true from rfl)] at finds
        exact Problem.message_ne path _ reason (reason_eq_of_ofSkipped finds)
      | manifestMissing _ | manifestUnreadable _ _ | entryMissing _ | writeFailed _ _ =>
        cases (Prod.mk.inj finds).1
  · intro none_
    unfold FindsNoOutput relinkOutput Snapshot.take
    dsimp only
    rw [none_]
    rfl

end Relink
