/-!
# Version

What the program calls itself, and the version of its reports.
-/

namespace Relink

/-- The name of the program. -/
def programName : String := "distfix"

/-- The version of the program. -/
def programVersion : String := "0.1.0"

/-- The program's name with its version. -/
def versionLine : String :=
  programName ++ " " ++ programVersion

/-- The version of the layout of reports. -/
def reportVersion : Nat := 1

end Relink
