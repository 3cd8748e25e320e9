import Relink.Path.Normal

/-!
# Candidates for a local specifier

A reference to a file may leave out its ending, or name a directory for its index. The
candidates spell out what it can mean, in the order in which they are tried. Trying one is
lexical: it is looked up in the set of known files.
-/

namespace Relink

/-- A set of paths, told apart by their components. -/
structure PathSet where
  members : List (List Component)
deriving Repr

namespace PathSet

def ofList (paths : List Path) : PathSet :=
  ⟨paths.map Path.components⟩

def contains (set : PathSet) (path : Path) : Bool :=
  set.members.contains path.components

/-- A path is in a set when one of the paths that the set was made of has its components. -/
theorem contains_ofList {paths : List Path} {path : Path} :
    (ofList paths).contains path = true ↔ ∃ known ∈ paths, known.components = path.components := by
  simp [ofList, contains]

end PathSet

namespace Specifier

/-- What the reference `relative` can mean: the path itself, the path with an ending, or the
index of the directory. The directory of the referring file, `./`, is named through its
parent. -/
def candidates (relative : String) (target : Path) (ending : String) : List String :=
  let base :=
    if relative = "./" then "../" ++ (target.fileName?.map Name.shown).getD "" else relative
  [base, base ++ ending, base ++ "/index" ++ ending]

/-- The first candidate that names a known file when it is read from a directory. -/
def probe (directory : Path) (candidates : List String) (known : PathSet) : Option String :=
  candidates.find? fun candidate => known.contains (directory.join (.ofText candidate)).normalize

end Specifier
end Relink
