import Relink.Path

/-!
# Relative references

The shortest way from a directory to a path, written so that it cannot be mistaken for the name
of a package: it begins with `./` or `../`, or is `..`.
-/

namespace Relink.Path

/-- The parts of the way from one place to another: up to what they share, then down. `write` is
how a part is written. -/
def relativeParts (write : String -> String) : List Component -> List Component -> List String
  | step :: source, goal :: target =>
    if step = goal then relativeParts write source target
    else List.replicate (source.length + 1) ".." ++ (goal :: target).map fun part => write part.text
  | source, target =>
    List.replicate source.length ".." ++ target.map fun part => write part.text

/-- The way from the directory `source` to `target`, as it is shown. The directory itself is
`./`. -/
def relative (source target : Path) : String :=
  let joined := Text.intercalate "/"
    (relativeParts Name.shown source.components target.components)
  if joined = "" then "./"
  else if joined = ".." || Text.startsWith joined "../" then joined
  else "./" ++ joined

end Relink.Path
