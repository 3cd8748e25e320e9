import Relink.Proofs.Quoting

/-!
# Replacements are settled

What a specifier is replaced by is not replaced again: in a script it has an ending, and in a
declaration it refers to what the specifier referred to.
-/

namespace Relink.Snapshot

variable {host : Host} {config : Config} {snapshot : Snapshot}

/-- A specifier that begins with a point refers to a file. -/
theorem classify_point {text : String} (starts : Text.startsWith text "." = true) :
    Specifier.classify {} text = .relative := by
  rw [Specifier.classify, if_pos starts]

theorem relinkSpecifier_point (layout_eq : snapshot.layout = {}) (role : FileRole) (file : Path)
    {text : String} (starts : Text.startsWith text "." = true) :
    snapshot.relinkSpecifier role file text = snapshot.relinkLocal role file text := by
  unfold relinkSpecifier
  rw [layout_eq, classify_point starts]
  exact if_pos rfl

theorem startsWith_point {text lead : String} (starts : Text.startsWith text lead = true)
    (begins : Text.startsWith lead "." = true) : Text.startsWith text "." = true := by
  rw [Text.startsWith, List.isPrefixOf_iff_prefix] at starts begins ⊢
  exact begins.trans starts

/-- What a specifier is replaced by begins with a point. -/
theorem Resolves.startsWith_replacement {role : FileRole} {specifier candidate : String}
    {source meant target lead down found : List String}
    (resolves : Resolves snapshot role specifier candidate source meant target lead down found) :
    Text.startsWith (replacement role ⟨candidate, shownWay lead down⟩) "." = true := by
  cases role with
  | script =>
    rcases resolves.candidate_startsWith with starts | starts
    · exact startsWith_point starts (by decide)
    · exact startsWith_point starts (by decide)
  | declaration =>
    dsimp only [replacement]
    rcases Path.shownWay_reference resolves.reference with ⟨upward, -⟩ | starts | starts
    · rw [upward]
      decide
    · exact startsWith_point starts (by decide)
    · exact startsWith_point starts (by decide)

/-- What is read where a reference is shown has the same candidates as what the specifier means, if
the way to the root is Unicode. -/
theorem Resolves.candidates_eq {role : FileRole} {specifier candidate : String}
    {source meant target lead down found : List String}
    (resolves : Resolves snapshot role specifier candidate source meant target lead down found)
    (taken : Taken host config {} snapshot)
    (unicode : (Location.path source).HasUnicodeWay snapshot.root) (ending : String) :
    Specifier.candidates ((Location.path source).relative (Location.path target))
        (Location.path target) ending =
      Specifier.candidates ((Location.path source).relative (Location.path meant))
        (Location.path meant) ending := by
  rcases resolves.target_cases taken fun _ => unicode with
    rfl | ⟨outer, last, rfl, rfl, other, itself⟩
  · rfl
  · rw [itself]
    exact Path.candidates_seen resolves.areSource other ending

/-- What a specifier is replaced by is left as it is, if the way to the root is Unicode. -/
theorem relinkSpecifier_settled (taken : Taken host config {} snapshot) (named : host.tree.Named)
    {role : FileRole} {file directory : Path} {text specifier next : String}
    (member : (file, text) ∈ (snapshot.tracked role).files)
    (parent : file.parent? = some directory) (unicode : directory.HasUnicodeWay snapshot.root)
    (replaced : snapshot.relinkSpecifier role file specifier = .replaced next) :
    snapshot.relinkSpecifier role file next = .unchanged := by
  obtain ⟨-, resolution, resolved, next_eq⟩ := exists_resolution replaced
  obtain ⟨candidate, source, meant, target, lead, down, found, resolves, parent', rfl⟩ :=
    exists_resolves taken named member replaced
  obtain rfl := Option.some.inj (parent.symm.trans parent')
  have starts := resolves.startsWith_replacement
  -- In a script the ending shows that nothing is left to do; in a declaration the same file is
  -- found again.
  cases role with
  | script =>
    have ends := resolves.candidate_endsWith
    rw [Snapshot.ending] at ends
    rw [relinkSpecifier_point taken.layout_eq _ _ starts, relinkLocal]
    exact if_pos ends
  | declaration =>
    rw [replacement] at starts
    have leads : snapshot.targetOf (Location.path source) (shownWay lead down) =
        Location.path target := by
      rw [targetOf, taken.layout_eq, classify_point starts]
      exact resolves.leads_bare
    have resolved' : snapshot.resolve? .declaration file (shownWay lead down) =
        some resolution := by
      rw [← resolved, resolve?, resolve?, parent]
      dsimp only
      rw [leads, resolves.refers.targetOf_eq taken.layout_eq,
        resolves.candidates_eq taken unicode]
    rw [replacement, relinkSpecifier_point taken.layout_eq _ _ starts, relinkLocal]
    split
    · rfl
    · rw [resolved']
      dsimp only
      rw [← next_eq]
      exact if_pos rfl

end Relink.Snapshot
