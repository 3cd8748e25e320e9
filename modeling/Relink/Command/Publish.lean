import Relink.Command.Compile

/-!
# Cleaning and preparing

`clean` deletes the output directory. `prepare` deletes it and compiles afresh, but looks for the
compiler first, so that nothing is deleted that cannot be made again.
-/

namespace Relink.Command

/-- Delete the output directory, if there is one. Says whether there was one. -/
def deleteOutput (config : Config) : Task Bool := do
  let (result, after) := (← Task.host).removeDirectoryTree config.outputPath
  Task.setHost after
  match result with
  | .ok removed => return removed
  | .error cause => Task.fail (.system cause)

/-- Delete the output directory, and tell whether there was one. -/
def clean (config : Config) : Task Bool := do
  let removed ← deleteOutput config
  let fields := [("path", Detail.plain config.outputPath.shown)]
  if config.jsonLogs then printVerdict (.cleaned config.outputPath removed)
  else if removed then Task.tell .info "Removed output directory" fields
  else Task.tell .info "Nothing to clean" fields
  return true

/-- Delete the output directory, compile the package and transform the output. -/
def prepare (surroundings : Surroundings) (config : Config) : Task Bool := do
  let _ ← locate surroundings config
  Task.tell .info "Cleaning before compile" [("path", .plain config.outputPath.shown)]
  let _ ← deleteOutput config
  compile surroundings config

/-- Tell the version. -/
def tellVersion (config : Config) : Task Bool := do
  if config.jsonLogs then printVerdict .version else Task.print versionLine
  return true

end Relink.Command
