import Relink.Snapshot
import Relink.Path.Relative
import Relink.Script.Piece
import Relink.Specifier.Class
import Relink.Warning

/-!
# Outcomes

A local specifier is resolved against the files of a snapshot and replaced by a path that needs no
further search. Every other specifier is checked and left as it is. Nothing is dropped or
guessed: what cannot be resolved is reported, and its text stays.
-/

namespace Relink

/-- What becomes of a specifier. -/
inductive Outcome where
  | unchanged
  | replaced (text : String)
  /-- It is left as it is, and reported. -/
  | reported (concern : Concern)
deriving DecidableEq, Repr

/-- A local specifier that was resolved. -/
structure Resolution where
  /-- The candidate that names a known file. -/
  candidate : String
  /-- The path without an added ending. -/
  bare : String
deriving DecidableEq, Repr

namespace Snapshot

/-- The path that a local specifier of a file in `directory` refers to. An aliased one is read
from the root of the package. -/
def targetOf (snapshot : Snapshot) (directory : Path) (specifier : String) : Path :=
  match Specifier.classify snapshot.layout specifier with
  | .aliased =>
    let rest := (Text.after? specifier snapshot.layout.aliasMarker).getD ""
    (snapshot.root.join (.ofText ("." ++ rest))).normalize
  | _ => (directory.join (.ofText specifier)).normalize

/-- The known file of a role that a local specifier refers to, as seen from a file. -/
def resolve? (snapshot : Snapshot) (role : FileRole) (file : Path) (specifier : String) :
    Option Resolution :=
  match file.parent? with
  | none => none
  | some directory =>
    let target := snapshot.targetOf directory specifier
    let relative := directory.relative target
    let candidates := Specifier.candidates relative target (snapshot.ending role)
    (Specifier.probe directory candidates (snapshot.tracked role).paths).map fun candidate =>
      ⟨candidate, candidates.head?.getD ""⟩

/-- What a resolved specifier is replaced by. A script names the very file; a declaration leaves
endings to those who read it. -/
def replacement (role : FileRole) (resolution : Resolution) : String :=
  match role with
  | .script => resolution.candidate
  | .declaration => resolution.bare

/-- What becomes of a local specifier. One that ends as a script does is complete. -/
def relinkLocal (snapshot : Snapshot) (role : FileRole) (file : Path) (specifier : String) :
    Outcome :=
  if Text.endsWith specifier snapshot.layout.scriptEnding then .unchanged
  else
    match snapshot.resolve? role file specifier with
    | none => .reported .unresolved
    | some resolution =>
      let next := replacement role resolution
      if next = specifier then .unchanged else .replaced next

/-- What becomes of a specifier in a script that does not refer to a file. -/
def checkForeign (snapshot : Snapshot) (specifier : String) : Specifier.Class -> Outcome
  | .bareBuiltin => .reported (.bareBuiltin (snapshot.layout.builtinMarker ++ specifier))
  | .builtin name => if Specifier.isBuiltin name then .unchanged else .reported .unknownBuiltin
  | .dependency package =>
    if snapshot.manifest.declares package then .unchanged
    else .reported (.unknownDependency package)
  | .invalid => .reported .invalidSpecifier
  | _ => .unchanged

/-- What becomes of a specifier in a file. A declaration refers to other packages for their types
only, and that is not checked. -/
def relinkSpecifier (snapshot : Snapshot) (role : FileRole) (file : Path) (specifier : String) :
    Outcome :=
  let kindOfSpecifier := Specifier.classify snapshot.layout specifier
  if kindOfSpecifier.isLocal then snapshot.relinkLocal role file specifier
  else
    match role with
    | .script => snapshot.checkForeign specifier kindOfSpecifier
    | .declaration => .unchanged

end Snapshot

/-- The text of a file after relinking, with what is to be told about it. -/
structure RelinkedText where
  text : String
  replacements : Nat
  warnings : List Warning
deriving DecidableEq, Repr

namespace Outcome

def isReplaced : Outcome -> Bool
  | replaced _ => true
  | _ => false

/-- What stands for a specifier afterwards. -/
def applyTo (specifier : List Char) : Outcome -> List Char
  | replaced text => text.toList
  | _ => specifier

/-- The warning about a specifier that was found in a file. -/
def warning? (file : Path) (found : Script.Occurrence) : Outcome -> Option Warning
  | reported concern => some ⟨file, found.specifier, found.line, concern⟩
  | _ => none

end Outcome

namespace Snapshot

/-- A piece of a file after relinking. -/
def relinkPiece (snapshot : Snapshot) (role : FileRole) (file : Path) : Script.Piece -> List Char
  | .plain text => text
  | .site _ specifier =>
    (snapshot.relinkSpecifier role file (String.ofList specifier)).applyTo specifier

/-- Relink every specifier of a text. -/
def relinkText (snapshot : Snapshot) (role : FileRole) (file : Path) (text : String) :
    RelinkedText :=
  let pieces := Script.pieces text.toList
  let outcomes := (Script.occurrencesFrom 0 1 pieces).map fun found =>
    (found, snapshot.relinkSpecifier role file found.specifier)
  { text := String.ofList (pieces.flatMap (snapshot.relinkPiece role file))
    replacements := outcomes.countP fun (_, outcome) => outcome.isReplaced
    warnings := outcomes.filterMap fun (found, outcome) => outcome.warning? file found }

end Snapshot
end Relink
