import Relink.Path

/-!
# Configuration

Which package is worked on, and how its results are told.
-/

namespace Relink

/-- What a run is asked to do. -/
structure Config where
  /-- The root of the package: the directory of its manifest. -/
  directory : Path
  /-- The compiler's output directory, read from the root. -/
  output : Path := ⟨"dist"⟩
  jsonLogs : Bool := false
  /-- How much is logged: nothing extra, more, everything. -/
  verbosity : Nat := 0
deriving DecidableEq, Repr, Inhabited

namespace Config

/-- The path of the package's manifest. -/
def manifestPath (config : Config) : Path :=
  config.directory.join ⟨"package.json"⟩

/-- The path of the output directory, as it is written. -/
def outputPath (config : Config) : Path :=
  config.directory.join config.output

end Config
end Relink
