import Relink.Problem
import Relink.Text
import Relink.Tree.Cause

/-!
# Fatal errors

What ends a command before its work is done.
-/

namespace Relink

/-- What ends a command. -/
inductive Fatal where
  | problem (problem : Problem)
  /-- The package has no compiler at the given path. -/
  | compilerMissing (path : Path)
  /-- The search path has no program to run the compiler with. -/
  | nodeMissing
  /-- Neither the paths to be watched nor any directories above them exist. -/
  | nothingToWatch (roots : List Path)
  /-- The result tells a path that is not Unicode. -/
  | pathNotText
  | system (cause : Cause)
deriving DecidableEq, Repr

namespace Fatal

/-- The code of a fatal error. Those that only other programs and libraries know have none. -/
def code? : Fatal -> Option String
  | problem cause => some cause.code
  | compilerMissing _ => some "TYPESCRIPT_MISSING"
  | nodeMissing => some "NODE_NOT_FOUND"
  | nothingToWatch _ => some "NOTHING_TO_WATCH"
  | pathNotText | system _ => none

/-- The wording of a fatal error. -/
def message : Fatal -> String
  | problem cause => cause.message
  | compilerMissing path => "TypeScript not found at " ++ path.shown
  | nodeMissing => "node not found: cannot find binary path"
  | nothingToWatch roots =>
    "None of the watched paths exist: " ++ Text.intercalate ", " (roots.map Path.shown)
  | pathNotText => "path contains invalid UTF-8 characters"
  | system cause => cause.message

/-- What may help against a fatal error. -/
def advice? : Fatal -> Option String
  | compilerMissing _ => some "install it with \x60npm install --save-dev typescript\x60"
  | nodeMissing => some "install Node.js and make sure \x60node\x60 is on PATH"
  | _ => none

end Fatal
end Relink
