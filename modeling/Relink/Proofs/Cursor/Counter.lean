import Mathlib.Data.List.Count
import Relink.Proofs.Cursor.Span
import Relink.Proofs.Script.Reference

/-!
# The line at the cursor

The loop over a script counts the lines that it passes, in a counter of 32 bits: at a line feed, at
what it skips, and before and after a specifier. Keywords and other single units are passed over
without a count. The counter tells the line of the cursor wherever the loop is, so that it does not
run over in a script of fewer lines than it can tell, and the line of a specifier is exact.
-/

namespace Relink.Script

/-- The line after some units, whose line feeds are counted modulo `UInt32.size`. The sum fails
where the counter would run over. -/
def lineAfter? (line : Nat) (passed : List Char) : Option Nat :=
  let next := line + Text.lineFeeds passed % UInt32.size
  if next < UInt32.size then some next else none

/-- The specifiers of a script from `i` on, found by the loop with a counter of 32 bits. -/
def scanCounting : List Char -> (Nat -> Nat -> Option String) -> Nat -> Nat ->
    Option (List Occurrence) :=
  scanWith lineAfter?

/-- A counter that tells the line of the cursor at `i`. -/
def Counts (script : List Char) (line i : Nat) : Prop :=
  line = 1 + Text.lineFeeds (script.take i)

section Counter

variable {script passed rest : List Char} {cut : Nat -> Nat -> Option String} {unit : Char}
  {line i : Nat}

theorem counts_zero (script : List Char) : Counts script 1 0 :=
  rfl

/-! ## What the counter passes -/

theorem Counts.skip (counts : Counts script line i) (reads : Reads script i (passed ++ rest)) :
    Counts script (line + Text.lineFeeds passed) (i + passed.length) := by
  rw [Counts, List.take_add, reads.drop_eq, List.take_left, lineFeeds_append, ← Nat.add_assoc,
    ← counts]

/-- The units of a cut stand at the cursor. -/
theorem exists_of_between? {stop : Nat} (cut : between? script i stop = some passed) :
    ∃ rest, Reads script i (passed ++ rest) ∧ stop = i + passed.length := by
  obtain ⟨⟨ordered, within⟩, same⟩ := Option.ite_none_right_eq_some.1 cut
  obtain rfl := Option.some.inj same
  refine ⟨(script.drop i).drop (stop - i), ⟨ordered.trans within, ?_⟩, ?_⟩
  · rw [List.drop_take, List.take_append_drop]
  · rw [List.length_drop, List.length_take_of_le within]
    omega

/-- A counter goes on from one position to another by the line feeds between them. -/
theorem Counts.between (counts : Counts script line i) {stop : Nat}
    (cut : between? script i stop = some passed) :
    Counts script (line + Text.lineFeeds passed) stop := by
  obtain ⟨rest, reads, rfl⟩ := exists_of_between? cut
  exact counts.skip reads

/-- A keyword holds no line feed. -/
theorem Counts.keyword {length : Nat} {found : Found} (counts : Counts script line i)
    (inside : i ≤ script.length)
    (stated : statementAt script i = some (some (length, found))) :
    Counts script line (i + length) := by
  have reads := Reads.here inside
  rw [statementAt_eq reads, Option.some.injEq] at stated
  obtain ⟨length', known, same⟩ := Option.map_eq_some_iff.1 stated
  obtain ⟨rfl, -⟩ := Prod.mk.inj same
  obtain ⟨word, following, split, rfl, -, isWord_⟩ := exists_word_of_keywordLength? known
  rw [split] at reads
  simpa [lineFeeds_of_isWord isWord_] using counts.skip reads

theorem Counts.solid (counts : Counts script line i) (reads : Reads script i (unit :: rest))
    (solid : unit ≠ '\n') : Counts script line (i + 1) := by
  have := @Counts.skip _ [unit] _ _ _ counts reads
  simpa [Text.lineFeeds, solid] using this

/-- The counter does not run over in a script of few lines. -/
theorem Counts.lineAfter?_eq {next : Nat} (few : Text.lineFeeds script < UInt32.size - 1)
    (counts : Counts script (line + Text.lineFeeds passed) next) :
    lineAfter? line passed = some (line + Text.lineFeeds passed) := by
  have fewer : Text.lineFeeds (script.take next) ≤ Text.lineFeeds script :=
    (List.take_sublist next script).count_le '\n'
  rw [Counts] at counts
  rw [lineAfter?, Nat.mod_eq_of_lt (by omega)]
  exact if_pos (by omega)

/-! ## The loop -/

/-- Two counters that tell the line of the cursor wherever it is find the same. -/
theorem scanWith_eq {count count' : Nat -> List Char -> Option Nat}
    (same : ∀ {line next passed}, Counts script (line + Text.lineFeeds passed) next ->
      count line passed = some (line + Text.lineFeeds passed) ∧
        count' line passed = some (line + Text.lineFeeds passed))
    (counts : Counts script line i) :
    scanWith count script cut line i = scanWith count' script cut line i := by
  -- The induction is on what is left of the script, and `Counts` is what it carries along.
  induction size : script.length - i using Nat.strong_induction_on generalizing line i with
  | _ size ih =>
    subst size
    have goesOn {line next : Nat} (inside : i < script.length) (further : i < next)
        (counts : Counts script line next) :
        scanWith count script cut line next = scanWith count' script cut line next :=
      ih _ (by omega) counts rfl
    by_cases inside : i < script.length
    · obtain ⟨unit, rest, reads⟩ := Reads.exists_cons inside
      rw [scanWith.eq_def count, scanWith.eq_def count', if_pos inside, if_pos inside, reads.unit_eq]
      simp only [Option.bind_eq_bind, Option.bind_some]
      by_cases feed : unit = '\n'
      · subst feed
        have next := @Counts.skip _ ['\n'] _ _ _ counts reads
        rw [if_pos rfl, if_pos rfl, (same next).1, (same next).2]
        exact goesOn inside (Nat.lt_succ_self i) next
      rw [if_neg feed, if_neg feed]
      cases lexeme : lexemeEnd? script i with
      | none => rfl
      | some reached =>
        cases reached with
        | some stop =>
          refine Option.bind_congr fun passed cut => ?_
          rw [(same (counts.between cut)).1, (same (counts.between cut)).2]
          exact goesOn inside (lt_lexemeEnd? inside lexeme) (counts.between cut)
        | none =>
          cases stated : statementAt script i with
          | none => rfl
          | some statement =>
            rcases statement with _ | ⟨length, _ | ⟨form, span⟩⟩
            · exact goesOn inside (Nat.lt_succ_self i) (counts.solid reads feed)
            · have further := keyword_pos inside stated
              exact goesOn inside (by omega) (counts.keyword inside.le stated)
            · refine Option.bind_congr fun lead cut => ?_
              rw [(same (counts.between cut)).1, (same (counts.between cut)).2, Option.bind_some,
                Option.bind_some]
              refine Option.bind_congr fun specifier _ => ?_
              refine Option.bind_congr fun passed cut => ?_
              rw [(same (counts.between cut)).1, (same (counts.between cut)).2, Option.bind_some,
                Option.bind_some, goesOn inside (lt_statement inside stated) (counts.between cut)]
    · rw [scanWith.eq_def count, scanWith.eq_def count', if_neg inside, if_neg inside]

/-- A counter of 32 bits does not run over in a script of few lines. -/
theorem scanCounting_eq (few : Text.lineFeeds script < UInt32.size - 1)
    (counts : Counts script line i) :
    scanCounting script cut line i = scanFrom script cut line i :=
  scanWith_eq (fun counts => ⟨counts.lineAfter?_eq few, rfl⟩) counts

end Counter

/-! ## The line of a specifier -/

theorem lineFeeds_map_ofUInt8 (data : List UInt8) :
    Text.lineFeeds (data.map Char.ofUInt8) = data.count 10 := by
  have injective : Function.Injective Char.ofUInt8 := fun first second same =>
    UInt8.toNat_inj.1 (by rw [← toNat_ofUInt8, ← toNat_ofUInt8, same])
  exact List.count_map_of_injective data _ injective 10

/-- A counter that tells the line of a byte counts the line feeds before it. -/
theorem counts_units_iff {script : String} {line start : Nat} :
    Counts (units script) line start ↔ line = 1 + ((bytes script).take start).count 10 := by
  rw [Counts, units, ← List.map_take, lineFeeds_map_ofUInt8]

theorem counts_of_split {script : String} {lead rest : List Char}
    (whole : script.toList = lead ++ rest) :
    Counts (units script) (1 + Text.lineFeeds lead) (Text.byteLength lead) := by
  rw [Counts, units_eq, whole, encode_append, ← length_encode_eq, List.take_left, lineFeeds_encode]

theorem counts_of_mem_occurrences {script : String} {found : Occurrence}
    (member : found ∈ occurrences script) : Counts (units script) found.line found.start := by
  obtain ⟨reference, rfl⟩ := mem_occurrences_iff.1 member
  simp only [Reference.occurrence, Nat.zero_add]
  exact counts_of_split reference.text_eq_lead

/-- In a script of fewer than `UInt32.size - 1` line feeds, the counter of the loop does not run
over, the loop finds the specifiers of the script, and the line of each is exact: there are as many
line feeds before it as there are lines before its line. -/
theorem scanCounting_line (script : String) (few : (bytes script).count 10 < UInt32.size - 1) :
    scanCounting (units script) (cutText script) 1 0 = some (occurrences script) ∧
      ∀ found ∈ occurrences script,
        found.line = 1 + ((bytes script).take found.start).count 10 := by
  refine ⟨?_, fun found member => counts_units_iff.1 (counts_of_mem_occurrences member)⟩
  have fewUnits : Text.lineFeeds (units script) < UInt32.size - 1 := by
    rwa [units, lineFeeds_map_ofUInt8]
  rw [scanCounting_eq fewUnits (counts_zero _)]
  exact scanBytes_eq script

/-- Line feeds in a template, after a backslash in a string, after a quote that is not closed and
after a keyword that names no module are all counted. -/
theorem scanCounting_line_skipped :
    let script := "\x60\n\x60 'a\\\n' 'b\nimport\n.c;require('./d')"
    (bytes script).count 10 < UInt32.size - 1 ∧
      occurrences script = [⟨"./d", 32, 35, .requireCall, 5⟩] ∧
      scanCounting (units script) (cutText script) 1 0 =
        some [⟨"./d", 32, 35, .requireCall, 5⟩] ∧
      5 = 1 + ((bytes script).take 32).count 10 := by
  intro script
  have few : (bytes script).count 10 < UInt32.size - 1 := by decide
  have found : occurrences script = [⟨"./d", 32, 35, .requireCall, 5⟩] := by decide
  obtain ⟨scanned, exact_⟩ := scanCounting_line script few
  rw [found] at scanned exact_
  exact ⟨few, found, scanned, exact_ _ (List.mem_singleton_self _)⟩

end Relink.Script
