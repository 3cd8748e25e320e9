import Relink.Proofs.Attempt
import Relink.Proofs.Literal

/-!
# Counted replacements change the text

A text is changed exactly if a replacement is counted, so that a file is written exactly if one is.
The text could only be spelled as before if a replacement began with its specifier and the quote
that closes the literal, with the text after it moved on. A replacement has a quote only from the
name of the directory that its specifier refers to, and a part of that name refers to something
else.
-/

namespace Relink

open Script

/-! ## Quotes in a text -/

/-- What is exchanged before a quote shows, unless what comes instead begins with what stood there
and the quote. -/
theorem eq_of_append_quote {quote : Char} {next specifier rest rest' : List Char}
    (absent : quote ∉ specifier) (apart : ¬specifier ++ [quote] <+: next)
    (same : next ++ quote :: rest' = specifier ++ quote :: rest) : next = specifier := by
  rcases List.append_eq_append_iff.1 same with ⟨more, longer, ahead⟩ | ⟨more, longer, ahead⟩
  · cases more with
    | nil => simpa using longer.symm
    | cons first more =>
      obtain ⟨rfl, -⟩ := List.cons.inj ahead
      exact absurd (by simp [longer]) absent
  · cases more with
    | nil => simpa using longer
    | cons first more =>
      obtain ⟨rfl, -⟩ := List.cons.inj ahead
      exact absurd ⟨more, by simp [longer]⟩ apart

/-- A beginning with a quote goes past what has no quote. -/
theorem exists_of_prefix_append {quote : Char} {word lead text : List Char}
    (absent : quote ∉ lead) (isPrefix : word ++ [quote] <+: lead ++ text) :
    ∃ part, word = lead ++ part ∧ part ++ [quote] <+: text := by
  have among {text : List Char} (inside : word ++ [quote] <+: text) : quote ∈ text :=
    inside.subset (by simp)
  rcases List.prefix_or_prefix_of_prefix isPrefix (List.prefix_append lead text) with
    short | long
  · exact absurd (among short) absent
  · rcases List.prefix_concat_iff.1 long with rfl | ⟨part, rfl⟩
    · exact absurd (by simp) absent
    · rw [List.append_assoc, List.prefix_append_right_inj] at isPrefix
      exact ⟨part, rfl, isPrefix⟩

/-- A beginning with a quote ends before what has no quote. -/
theorem prefix_of_prefix_append {quote : Char} {word text tail : List Char}
    (absent : quote ∉ tail) (isPrefix : word ++ [quote] <+: text ++ tail) :
    word ++ [quote] <+: text := by
  rcases List.prefix_or_prefix_of_prefix isPrefix (List.prefix_append text tail) with
    short | long
  · exact short
  · rcases List.prefix_concat_iff.1 long with rfl | ⟨more, rfl⟩
    · exact List.prefix_refl _
    · rw [List.append_assoc, List.prefix_append_right_inj] at isPrefix
      exact absurd (isPrefix.subset (by simp)) absent

/-! ## References to the directory itself -/

/-- A directory is entered from its parent. -/
theorem Reference.lead_itself {source target lead : List String} {name : String}
    (reference : Reference source target lead [name]) (same : target = source) :
    lead = [".."] := by
  generalize down_eq : [name] = down at reference
  cases reference with
  | below filled => exact absurd (List.append_right_eq_self.1 same) filled
  | above _ =>
    rw [← List.append_cancel_left same, ← down_eq]
    rfl
  | top => rfl

namespace Path

/-- The parent of a directory leads to the directory by its name only. -/
theorem normalize_join_sibling {outer : List String} {last name : String}
    (areNames : AreNames (outer ++ [last])) (noSlash : '/' ∉ name.toList)
    (leads : ((Location.path (outer ++ [last])).join ⟨"../" ++ name⟩).normalize =
      Location.path (outer ++ [last])) : name = last := by
  have slashes : ∀ step ∈ ["..", name], '/' ∉ step.toList := by
    simpa using noSlash
  have follows := normalize_join_way areNames rfl slashes
  have parts : ∀ component ∈ ["..", name].filterMap fun step => Component.ofSegment? step.toList,
      component = .parent ∨ ∃ name, component = .name name ∧ IsName name := by
    intro component member
    obtain ⟨step, inside, found⟩ := List.mem_filterMap.1 member
    exact Component.ofSegment?_eq_some found (slashes step inside)
  have same := Location.path_inj (areNames_follow areNames parts) areNames
    (congrArg components (follows.symm.trans leads))
  have size := congrArg List.length same
  rw [List.filterMap_cons, show Component.ofSegment? "..".toList = some .parent from rfl] at same size
  rw [List.filterMap_cons] at same size
  cases part : Component.ofSegment? name.toList with
  | none => simp [part, follow] at size
  | some component =>
    rcases Component.ofSegment?_eq_some part noSlash with rfl | ⟨text, rfl, -⟩
    · simp [part, follow] at size
    · have written := Component.ofSegment?_eq_name part
      simpa [part, follow, written] using same

end Path

namespace Snapshot

variable {host : Host} {config : Config} {snapshot : Snapshot}

/-! ## Replacements of a specifier -/

/-- What a specifier is replaced by is another text. -/
theorem ne_of_replaced {role : FileRole} {file : Path} {specifier next : String}
    (replaced : snapshot.relinkSpecifier role file specifier = .replaced next) :
    next ≠ specifier := by
  obtain ⟨isLocal, resolution, resolved, rfl⟩ := exists_resolution replaced
  intro same
  unfold relinkSpecifier relinkLocal at replaced
  dsimp only at replaced
  rw [if_pos isLocal, resolved] at replaced
  dsimp only at replaced
  rw [if_pos same] at replaced
  split at replaced <;> cases replaced

section

variable {role : FileRole} {specifier candidate : String}
  {source meant target lead down found : List String}

/-- What a specifier is replaced by is the reference, with an end that can be quoted. -/
theorem Resolves.exists_tail
    (resolves : Resolves snapshot role specifier candidate source meant target lead down found)
    (layout_eq : snapshot.layout = {}) :
    ∃ tail, Relink.IsQuotable tail ∧
      replacement role ⟨candidate, shownWay lead down⟩ = shownWay lead down ++ tail := by
  have ending : Relink.IsQuotable (snapshot.ending role) := by
    unfold Snapshot.ending
    rw [layout_eq]
    cases role <;> decide
  cases role with
  | script =>
    rcases resolves.cases with ⟨rfl, -⟩ | ⟨rfl, -⟩ | ⟨rfl, -⟩
    · exact ⟨"", by decide, String.append_empty.symm⟩
    · exact ⟨_, ending, rfl⟩
    · exact ⟨_, .append (by decide : Relink.IsQuotable "/index") ending, String.append_assoc ..⟩
  | declaration => exact ⟨"", by decide, String.append_empty.symm⟩

/-- What replaces a reference of a directory to itself does not begin with the reference and a
quote: the name of the directory would be shown beyond the quote, and a part of what is shown leads
to something else. -/
theorem Resolves.not_prefix_itself {quote : Char}
    (resolves : Resolves snapshot role specifier candidate source meant target lead down found)
    (layout_eq : snapshot.layout = {}) (itself : meant = source)
    (leads : Location.path meant = ((Location.path source).join (.ofText specifier)).normalize)
    (quoted : isQuote quote = true) :
    ¬specifier.toList ++ [quote] <+:
      (replacement role ⟨candidate, shownWay lead down⟩).toList := by
  intro isPrefix
  obtain ⟨tail, plain, shape⟩ := resolves.exists_tail layout_eq
  have down_eq := resolves.enters.itself itself
  have reference := resolves.reference
  rw [down_eq] at reference
  have upward : quote ∉ "../".toList :=
    IsQuotable.not_mem (by decide : Relink.IsQuotable "../") quoted
  rw [shape, shownWay, down_eq, reference.lead_itself itself, List.map_singleton,
    List.singleton_append, way_cons_cons, String.toList_append] at isPrefix
  replace isPrefix := prefix_of_prefix_append (plain.not_mem quoted) isPrefix
  rw [String.toList_append] at isPrefix
  -- The specifier would be `../` and the beginning of the directory's name, but it leads to all of
  -- it.
  obtain ⟨part, specifier_eq, begins⟩ : ∃ part, specifier.toList = "../".toList ++ part ∧
      part ++ [quote] <+: (Name.shown (source.getLast?.getD "")).toList :=
    exists_of_prefix_append upward isPrefix
  rcases List.eq_nil_or_concat source with rfl | ⟨outer, last, rfl⟩
  · exact absurd (List.prefix_nil.1 begins) (by simp)
  · rw [List.concat_eq_append, List.getLast?_concat, Option.getD_some] at begins
    have areNames := resolves.areSource
    rw [List.concat_eq_append] at areNames itself leads
    have isShown := (areNames last (by simp)).shown
    have noSlash : '/' ∉ (Name.ofText (String.ofList part)).toList := by
      rw [Name.slash_mem_ofText_iff, String.toList_ofList]
      exact fun member => isShown.noSlash (begins.subset (List.mem_append_left _ member))
    have written : specifier = "../" ++ String.ofList part := by
      rw [← String.toList_inj, specifier_eq, String.toList_append, @String.toList_ofList part]
    rw [itself, Path.ofText, written, Name.ofText_append,
      show Name.ofText "../" = "../" by decide] at leads
    have same := Path.normalize_join_sibling areNames noSlash leads.symm
    rw [← same, Name.shown_ofText, String.toList_ofList] at begins
    exact absurd begins.length_le (by simp)

end

/-- No replacement begins with its specifier and a quote. -/
theorem not_prefix_of_replaced (taken : Taken host config {} snapshot) (named : host.tree.Named)
    {tracked role : FileRole} {file : Path} {text specifier next : String} {quote : Char}
    (member : (file, text) ∈ (snapshot.tracked tracked).files)
    (isSpecifier : IsSpecifier specifier.toList) (quoted : isQuote quote = true)
    (replaced : snapshot.relinkSpecifier role file specifier = .replaced next) :
    ¬specifier.toList ++ [quote] <+: next.toList := by
  obtain ⟨candidate, source, meant, target, lead, down, found, resolves, parent, next_eq⟩ :=
    exists_resolves taken named member replaced
  have refers := resolves.refers
  generalize meant_eq : Location.path meant = path at refers
  cases refers with
  | aliased isAliased shape =>
    -- An alias does not begin as a replacement does.
    intro isPrefix
    have starts := resolves.startsWith_replacement
    rw [← next_eq, Text.startsWith, List.isPrefixOf_iff_prefix] at starts
    rw [shape, String.toList_append] at isPrefix
    have first := (List.prefix_append _ _).trans ((List.prefix_append _ _).trans isPrefix)
    have same := List.prefix_of_prefix_length_le first starts (by decide)
    exact absurd same (by decide)
  | relative isRelative =>
    by_cases itself : meant = source
    · rw [next_eq]
      exact resolves.not_prefix_itself taken.layout_eq itself meant_eq quoted
    · have adds : snapshot.AddsQuotable (Location.path source) specifier := by
        refine ⟨fun same => ?_, fun isAliased => ?_⟩
        · rw [resolves.refers.targetOf_eq taken.layout_eq] at same
          exact absurd (Location.path_inj resolves.areMeant resolves.areSource
            (congrArg Path.components same)) itself
        · rw [taken.layout_eq, isRelative] at isAliased
          cases isAliased
      have plain := isSpecifier_of_replaced taken named member parent isSpecifier.characters adds
        replaced
      intro isPrefix
      exact quote_not_mem quoted plain.characters (isPrefix.subset (by simp))

/-! ## Texts -/

/-- Pieces spell the text as before exactly if no specifier in them is replaced. -/
theorem flatMap_relinkPiece_eq_iff (taken : Taken host config {} snapshot)
    (named : host.tree.Named) {tracked : FileRole} {file : Path} {content : String}
    (member : (file, content) ∈ (snapshot.tracked tracked).files) (role : FileRole)
    {before text : List Char} {found : List Piece} (scan : Scan before text found)
    (offset line : Nat) :
    found.flatMap (snapshot.relinkPiece role file) = text ↔
      ((snapshot.outcomes role file offset line found).countP fun (_, outcome) =>
        outcome.isReplaced) = 0 := by
  unfold outcomes
  induction scan generalizing offset line with
  | done => exact iff_of_true rfl rfl
  | plain _ _ _ _ ih =>
    rw [List.flatMap_cons, relinkPiece, List.append_right_inj, occurrencesFrom]
    exact ih _ _
  | @site before lead specifier rest quote form found here _ ih =>
    obtain ⟨opening, rfl, -, -, quoted, isSpecifier⟩ := exists_opening_of_site here
    have kept : specifier ++ quote :: found.flatMap (snapshot.relinkPiece role file) =
        specifier ++ quote :: rest ↔ found.flatMap (snapshot.relinkPiece role file) = rest := by
      rw [List.append_right_inj, List.cons.injEq, and_iff_right rfl]
    simp only [List.flatMap_cons, relinkPiece, occurrencesFrom, List.map_cons, List.countP_cons,
      List.append_right_inj, List.singleton_append]
    cases outcome : snapshot.relinkSpecifier role file (String.ofList specifier) with
    | unchanged => exact kept.trans (ih _ _)
    | reported concern => exact kept.trans (ih _ _)
    | replaced next =>
      have apart := not_prefix_of_replaced taken named member
        (by rwa [String.toList_ofList]) quoted outcome
      rw [String.toList_ofList] at apart
      refine iff_of_false (fun same => ne_of_replaced outcome ?_) (by simp [Outcome.isReplaced])
      rw [← String.toList_inj, String.toList_ofList]
      exact eq_of_append_quote (quote_not_mem quoted isSpecifier.characters) apart same

/-- Relinking changes a text exactly if it counts a replacement, and a file is written exactly
then. -/
theorem relinkText_counts (taken : take host config {} = .ok snapshot) (named : host.tree.Named)
    {tracked : FileRole} {file : Path} {content : String}
    (member : (file, content) ∈ (snapshot.tracked tracked).files) (role : FileRole)
    (text : String) :
    let result := snapshot.relinkText role file text
    (result.text ≠ text ↔ 1 ≤ result.replacements) ∧
      ∀ now : Host, snapshot.relinkFile now role file text =
        if 1 ≤ result.replacements then
          match now.writeWhole file result.text.toByteArray with
          | (.ok (), after) =>
            (.ok ⟨file, role, result.replacements, true, result.warnings⟩, after)
          | (.error cause, after) => (.error ⟨file, cause.message⟩, after)
        else (.ok ⟨file, role, 0, false, result.warnings⟩, now) := by
  have counts : (snapshot.relinkText role file text).text ≠ text ↔
      1 ≤ (snapshot.relinkText role file text).replacements := by
    have same := flatMap_relinkPiece_eq_iff (take_eq_ok_iff.1 taken) named member role
      (scan_pieces text.toList) 0 1
    rw [Nat.one_le_iff_ne_zero, ne_eq, ne_eq, not_iff_not, ← String.toList_inj]
    exact (congrArg (· = text.toList) String.toList_ofList).to_iff.trans same
  refine ⟨counts, fun now => (attempt_eq now ⟨role, file, text⟩).trans ?_⟩
  unfold changes outcomeOf contentOf changes relinkTask
  dsimp only
  by_cases counted : 1 ≤ (snapshot.relinkText role file text).replacements
  · have changed : ((snapshot.relinkText role file text).text != text) = true :=
      bne_iff_ne.2 (counts.2 counted)
    generalize now.writeWhole file (snapshot.relinkText role file text).text.toByteArray = written
    obtain ⟨result, after⟩ := written
    cases result <;> simp only [if_pos counted, changed, if_true]
  · have unchanged : ((snapshot.relinkText role file text).text != text) = false :=
      bne_eq_false_iff_eq.2 (by_contra fun changed => counted (counts.1 changed))
    have none_ : (snapshot.relinkText role file text).replacements = 0 := by omega
    rw [if_neg counted, unchanged, none_]
    rfl

/-- In the directory with a quote in its name, a replacement with the quote is counted, and the text
is another one. -/
theorem relinkText_counts_quotedPackage :
    take quotedPackage sampleConfig {} = .ok quotedSnapshot ∧ quotedPackage.tree.Named ∧
      (⟨"/p/dist/it's/x.js"⟩, "import '.';") ∈ quotedSnapshot.scripts.files ∧
      let result := quotedSnapshot.relinkText .script ⟨"/p/dist/it's/x.js"⟩ "import '.';"
      1 ≤ result.replacements ∧ result.text ≠ "import '.';" := by
  have named : quotedPackage.tree.Named := by decide
  have member : (⟨"/p/dist/it's/x.js"⟩, "import '.';") ∈ quotedSnapshot.scripts.files := by
    decide
  have counted : 1 ≤ (quotedSnapshot.relinkText .script ⟨"/p/dist/it's/x.js"⟩
      "import '.';").replacements := by rw [relinkText_quotedScript]
  obtain ⟨counts, -⟩ := @relinkText_counts _ _ _ quotedPackage_take named .script _ _ member .script
    "import '.';"
  exact ⟨quotedPackage_take, named, member, counted, counts.2 counted⟩

end Snapshot

end Relink
