import Relink.Proofs.Resolution
import Relink.Proofs.Script.Reference
import Relink.Proofs.Splice

/-!
# Arguments of calls

The scan takes the specifier of a call from the quotes after the bracket and looks no further.
So a specifier that is found at a call is its whole first argument exactly if the text after the
quote ends the argument, at every call that the scan comes to. Where an expression goes on after
the quote, a part of it is found and replaced.
-/

namespace Relink.Script

/-- Whether a specifier is the argument of a call. -/
def Form.isCall : Form -> Bool
  | .dynamicImport | .requireCall => true
  | .staticImport | .exportFrom => false

/-- A text that ends an argument: blanks and comments, and then a comma or the bracket of the
call. -/
def EndsArgument (text : List Char) : Prop :=
  ∃ gap next rest, Gap gap ∧ (next = ')' ∨ next = ',') ∧ text = gap ++ next :: rest

/-- An occurrence that is a whole argument: the text after its quote ends the argument. -/
def Occurrence.IsArgument (script : List Char) (found : Occurrence) : Prop :=
  ∃ kept quote rest, script = kept ++ quote :: rest ∧ Text.byteLength kept = found.stop ∧
    EndsArgument rest

/-- Whether the argument of every call that the scan of a script comes to ends after its quote. -/
def ArgumentsEnd (script : List Char) : Prop :=
  ∀ reference : Reference [] script, reference.form.isCall = true -> EndsArgument reference.rest

theorem endsArgument_iff {text : List Char} :
    EndsArgument text ↔
      (text.drop (triviaLength text)).head? = some ')' ∨
        (text.drop (triviaLength text)).head? = some ',' := by
  constructor
  · rintro ⟨gap, next, rest, isGap, ends, rfl⟩
    have solid : triviaLength (next :: rest) = 0 := by
      rcases ends with rfl | rfl
      · exact triviaLength_solid (by decide) (commentLength?_eq_none rest (by decide))
      · exact triviaLength_solid (by decide) (commentLength?_eq_none rest (by decide))
    rw [triviaLength_gap _ isGap, solid, Nat.add_zero, List.drop_left, List.head?_cons]
    simpa using ends
  · have cut {next : Char} (ends : next = ')' ∨ next = ',')
        (found : (text.drop (triviaLength text)).head? = some next) : EndsArgument text := by
      obtain ⟨gap, rest, same, isGap, -⟩ := exists_gap_of_triviaLength found
      exact ⟨gap, next, rest, isGap, ends, same⟩
    rintro (found | found)
    · exact cut (.inl rfl) found
    · exact cut (.inr rfl) found

instance (text : List Char) : Decidable (EndsArgument text) :=
  decidable_of_iff _ endsArgument_iff.symm

/-- Whether an occurrence is a whole argument is told by any cut of the script at its quote. -/
theorem Occurrence.isArgument_iff {script kept rest : List Char} {quote : Char}
    {found : Occurrence} (whole : script = kept ++ quote :: rest)
    (size : Text.byteLength kept = found.stop) :
    found.IsArgument script ↔ EndsArgument rest := by
  constructor
  · rintro ⟨kept', quote', rest', whole', size', ends⟩
    obtain ⟨-, same⟩ :=
      append_inj_of_byteLength (whole.symm.trans whole') (size.trans size'.symm)
    rwa [(List.cons.inj same).2]
  · intro ends
    exact ⟨kept, quote, rest, whole, size, ends⟩

/-- The specifier of a reference is a whole argument exactly if the text after its quote ends the
argument. -/
theorem Reference.isArgument_iff {script : List Char} (reference : Reference [] script)
    (line : Nat) :
    (reference.occurrence 0 line).IsArgument script ↔ EndsArgument reference.rest := by
  have whole : script = (reference.lead ++ reference.specifier) ++
      reference.quote :: reference.rest := by
    rw [List.append_assoc, ← reference.text_eq_lead]
  refine Occurrence.isArgument_iff whole ?_
  rw [Text.byteLength_append]
  simp [Reference.occurrence]

theorem isArgument_occurrences_iff (script : String) :
    (∀ found ∈ occurrences script, found.form.isCall = true -> found.IsArgument script.toList) ↔
      ArgumentsEnd script.toList := by
  constructor
  · intro areArguments reference isCall
    exact (reference.isArgument_iff 1).1
      (areArguments _ (mem_occurrences_iff.2 ⟨reference, rfl⟩) isCall)
  · intro end_ found member isCall
    obtain ⟨reference, rfl⟩ := mem_occurrences_iff.1 member
    exact (reference.isArgument_iff 1).2 (end_ reference isCall)

/-! ## Scripts of statements -/

theorem EndsArgument.append {text : List Char} (ends : EndsArgument text) (later : List Char) :
    EndsArgument (text ++ later) := by
  obtain ⟨gap, next, rest, isGap, isEnd, rfl⟩ := ends
  exact ⟨gap, next, rest ++ later, isGap, isEnd, by simp⟩

theorem Closing.endsArgument {form : Form} {closing : List Char} (closes : Closing form closing)
    (isCall : form.isCall = true) : EndsArgument closing := by
  cases closes with
  | staticImport | exportFrom => cases isCall
  | dynamicImport isInner _ | requireCall isInner _ =>
    exact ⟨_, ')', _, isInner, .inl rfl, rfl⟩

theorem isArgument_of_mem_rendered {sentences : List Sentence} (kept : List Char) (line : Nat)
    {found : Occurrence} (member : found ∈ rendered (Text.byteLength kept) line sentences)
    (isCall : found.form.isCall = true) : found.IsArgument (kept ++ render sentences) := by
  induction sentences generalizing kept line with
  | nil => cases member
  | cons sentence rest ih =>
    rw [render, ← List.append_assoc]
    rcases List.mem_append.1 member with here | later
    · obtain ⟨item, gap, isGap⟩ := sentence
      cases item with
      | noise => cases here
      | reference form opening quote specifier closing opens isQuote isSpecifier closes =>
        obtain rfl := List.mem_singleton.1 here
        have whole : kept ++ (opening ++ quote :: (specifier ++ quote :: closing) ++ ';' :: gap) ++
            render rest = (kept ++ (opening ++ ([quote] ++ specifier))) ++
              quote :: (closing ++ (';' :: gap ++ render rest)) := by simp
        refine (Occurrence.isArgument_iff whole ?_).2 ((closes.endsArgument isCall).append _)
        simp only [Text.byteLength_append, byteLength_quote isQuote, Nat.add_assoc]
    · rw [← Text.byteLength_append] at later
      exact ih _ _ later

/-- In a script that is put together from statements, every argument ends after its quote. -/
theorem argumentsEnd_render (sentences : List Sentence) : ArgumentsEnd (render sentences) := by
  obtain ⟨found, scan, same⟩ := exists_scan_render sentences [] nofun
  intro reference isCall
  have member := scan.mem_of_reference reference 0 1
  rw [same] at member
  exact (reference.isArgument_iff 1).1 (isArgument_of_mem_rendered [] 1 member isCall)

end Relink.Script

namespace Relink.Snapshot

open Script

/-- Relinking a text exchanges spans of specifiers that are found in it. -/
theorem exists_edits (snapshot : Snapshot) (role : FileRole) (file : Path) (text : String) :
    ∃ edits, bytes (snapshot.relinkText role file text).text = splice (bytes text) 0 edits ∧
      ∀ edit ∈ edits, ∃ found ∈ occurrences text,
        edit.start = found.start ∧ edit.stop = found.stop := by
  refine ⟨(occurrences text).filterMap fun found =>
    edit? found (snapshot.relinkSpecifier role file found.specifier), ?_, fun edit member => ?_⟩
  · have run := splice_pieces snapshot role file [] [] 1 (pieces text.toList)
    rw [(scan_pieces text.toList).flatMap_text, ← bytes_eq] at run
    rw [relinkText, bytes_ofList]
    exact run.symm
  · obtain ⟨found, here, exchanged⟩ := List.mem_filterMap.1 member
    refine ⟨found, here, ?_⟩
    cases outcome : snapshot.relinkSpecifier role file found.specifier with
    | replaced next =>
      rw [outcome, edit?_replaced, Option.some.injEq] at exchanged
      exact exchanged ▸ ⟨rfl, rfl⟩
    | unchanged => rw [outcome, edit?_unchanged] at exchanged; cases exchanged
    | reported concern => rw [outcome, edit?_reported] at exchanged; cases exchanged

/-- The specifiers found at calls are whole arguments exactly if every call that the scan comes to
ends its argument after the quote. Then relinking exchanges nothing at a call but whole
arguments. -/
theorem relinkText_arguments (snapshot : Snapshot) (role : FileRole) (file : Path)
    (text : String) :
    ((∀ found ∈ occurrences text, found.form.isCall = true -> found.IsArgument text.toList) ↔
        ArgumentsEnd text.toList) ∧
      (ArgumentsEnd text.toList -> ∃ edits,
        bytes (snapshot.relinkText role file text).text = splice (bytes text) 0 edits ∧
          ∀ edit ∈ edits, ∃ found ∈ occurrences text,
            edit.start = found.start ∧ edit.stop = found.stop ∧
              (found.form.isCall = true -> found.IsArgument text.toList)) := by
  refine ⟨isArgument_occurrences_iff text, fun end_ => ?_⟩
  obtain ⟨edits, spliced, spans⟩ := snapshot.exists_edits role file text
  refine ⟨edits, spliced, fun edit member => ?_⟩
  obtain ⟨found, here, start, stop⟩ := spans edit member
  exact ⟨found, here, start, stop, (isArgument_occurrences_iff text).2 end_ found here⟩

/-- A call with a comment after its argument is one statement whose argument ends after the quote,
and the whole argument is exchanged. -/
theorem relinkText_arguments_comment :
    ArgumentsEnd "require('./b' /* b */);".toList ∧
      (⟨"./b", 9, 12, .requireCall, 1⟩ : Occurrence).IsArgument
        "require('./b' /* b */);".toList ∧
      ∃ edits, bytes (sampleSnapshot.relinkText .script ⟨"/p/dist/index.js"⟩
          "require('./b' /* b */);").text = splice (bytes "require('./b' /* b */);") 0 edits := by
  have isGap : Gap " /* b */".toList :=
    .blank (by decide) (.comment (@Comment.block " b ".toList (by decide)) .nil)
  have end_ : ArgumentsEnd "require('./b' /* b */);".toList :=
    argumentsEnd_render [⟨.reference .requireCall "require(".toList '\'' "./b".toList
      " /* b */)".toList (.requireCall .nil .nil) (by decide) (by decide) (.requireCall isGap .nil),
      [], .nil⟩]
  obtain ⟨whole, exchanges⟩ := relinkText_arguments sampleSnapshot .script ⟨"/p/dist/index.js"⟩
    "require('./b' /* b */);"
  obtain ⟨edits, spliced, -⟩ := exchanges end_
  exact ⟨end_, whole.2 end_ _ (by decide) rfl, edits, spliced⟩

/-- An argument that goes on after its literal is found and replaced in part. -/
theorem relinkText_partial :
    take samplePackage sampleConfig {} = .ok sampleSnapshot ∧
      occurrences "require(\"./b\" + name)" = [⟨"./b", 9, 12, .requireCall, 1⟩] ∧
      ¬ (⟨"./b", 9, 12, .requireCall, 1⟩ : Occurrence).IsArgument
        "require(\"./b\" + name)".toList ∧
      (sampleSnapshot.relinkText .script ⟨"/p/dist/index.js"⟩ "require(\"./b\" + name)").text =
        "require(\"./b.js\" + name)" := by
  refine ⟨samplePackage_take, by decide, ?_, ?_⟩
  · have cut : "require(\"./b\" + name)".toList =
        "require(\"./b".toList ++ '"' :: " + name)".toList := rfl
    rw [Occurrence.isArgument_iff cut (by decide)]
    decide
  · rw [@relinkText_of_pieces _ _ _ _ "require(\"" _ _ ["\"", " ", "+", " ", "n", "a", "m", "e", ")"]
      .requireCall (by decide) relinkSpecifier_sampleScript]
    rfl

end Relink.Snapshot
