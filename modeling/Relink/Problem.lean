import Relink.Path

/-!
# Problems

What keeps a pass from running, or a file from being written.
-/

namespace Relink

/-- What keeps work from being done. -/
inductive Problem where
  | manifestMissing (path : Path)
  | manifestUnreadable (path : Path) (reason : String)
  | entryMissing (path : Path)
  | outputMissing (path : Path)
  | contentUnreadable (path : Path) (reason : String)
  | writeFailed (path : Path) (reason : String)
deriving DecidableEq, Repr

namespace Problem

/-- The code of a problem. -/
def code : Problem -> String
  | manifestMissing _ => "MANIFEST_MISSING"
  | manifestUnreadable _ _ => "MANIFEST_UNREADABLE"
  | entryMissing _ => "ENTRY_POINT_MISSING"
  | outputMissing _ => "OUTPUT_DIR_MISSING"
  | contentUnreadable _ _ => "CONTENT_UNREADABLE"
  | writeFailed _ _ => "WRITE_FAILED"

/-- The wording of a problem. -/
def message : Problem -> String
  | manifestMissing path =>
    "package.json not found at " ++ path.shown ++ ", are you at the package root?"
  | manifestUnreadable path reason =>
    "Failed to parse package.json at " ++ path.shown ++ ": " ++ reason
  | entryMissing path =>
    "Entry point not found in " ++ path.shown ++ ", set one of \"exports\", \"main\" or \"bin\""
  | outputMissing path => "Output directory not found: " ++ path.shown
  | contentUnreadable path reason => "Failed to read " ++ path.shown ++ ": " ++ reason
  | writeFailed path reason => "Failed to write " ++ path.shown ++ ": " ++ reason

/-- Whether a problem only says that there is nothing to transform yet. -/
def isSoft : Problem -> Bool
  | outputMissing _ | contentUnreadable _ _ => true
  | _ => false

end Problem
end Relink
