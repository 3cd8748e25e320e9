import Relink.Command.Task
import Relink.Watch.Coalescer
import Relink.Watch.Point
import Relink.Watch.Scope

/-!
# Watching

A command that watches does its work once, and then again whenever something in its scope has
changed. Its own writing is a change like any other.
-/

namespace Relink

/-- A command that is watching. -/
structure Watching where
  scene : Scene
  /-- What is done whenever something has changed. -/
  work : Task Bool
  scope : Scope
  points : WatchPoints
  coalescer : Coalescer := {}

namespace Command

/-- Do work that may fail, and tell if it did. -/
def attempt (work : Task Bool) : Task Unit := fun scene =>
  match work scene with
  | (.ok true, next) => (.ok (), next)
  | (.ok false, next) => Task.tell .error "Transform finished with errors" [] next
  | (.error fatal, next) => Task.tell .error fatal.message [] next

/-- What is watched for the sake of a path: the path itself, or the nearest directory above it
that exists. -/
def nearestPresent? (host : Host) (root : Path) : Option Path :=
  root.ancestors.find? host.isPresent

/-- Watch one path of a scope. `watched` are the paths that are watched already. -/
def watchRoot (watched : List Path) (points : WatchPoints) (root : Path) :
    Task (List Path × WatchPoints) := do
  let host ← Task.host
  match nearestPresent? host root with
  | none =>
    Task.tell .warning "Not watching path with no existing ancestor" [("path", .plain root.shown)]
    return (watched, points)
  | some target =>
    if watched.any target.same then return (watched, points)
    else do
      if !target.same root then
        Task.tell .info "Path does not exist yet, watching ancestor"
          [("path", .plain root.shown), ("ancestor", .plain target.shown)]
      Task.tell .info "Watching" [("path", .plain target.shown)]
      let path := host.workingPath.join target
      return (watched ++ [target], points.watch host.tree host.directory path)

/-- Watch the paths of a scope. -/
def watchRoots (watched : List Path) (points : WatchPoints) :
    Scope -> Task (List Path × WatchPoints)
  | [] => return (watched, points)
  | root :: rest => do
    let (next, more) ← watchRoot watched points root
    watchRoots next more rest

/-- Begin to watch a scope. -/
def beginWatching (scope : Scope) : Task WatchPoints := do
  let (watched, points) ← watchRoots [] [] scope
  if watched.isEmpty then Task.fail (.nothingToWatch scope)
  else return points

end Command

namespace Watching

/-- Do work once and begin to watch for what asks to do it again. -/
def start (scope : Scope) (work : Task Bool) (scene : Scene) :
    Except (Fatal × Scene) Watching :=
  let first := (Command.attempt work scene).2
  match Command.beginWatching scope { first with host := { first.host with journal := [] } } with
  | (.ok points, next) => .ok { scene := next, work, scope, points }
  | (.error fatal, next) => .error (fatal, next)

/-- Take note of what has changed since the last time. -/
def observe (watching : Watching) : Watching :=
  let host := watching.scene.host
  let (paths, points) := watching.points.observe host.tree host.journal.reverse
  { watching with
    scene := { watching.scene with host := { host with journal := [] } }
    points
    coalescer := watching.coalescer.receive (watching.scope.visible paths) }

/-- Go on after others have changed the host. -/
def disturb (watching : Watching) (host : Host) : Watching :=
  observe { watching with scene := { watching.scene with host } }

/-- The line between two runs. -/
def divider : String :=
  String.ofList (List.replicate 80 '-')

/-- Do the work again. -/
def rerun (watching : Watching) : Watching :=
  let task : Task Unit := do
    Task.print divider
    Command.attempt watching.work
  observe { watching with scene := (task watching.scene).2 }

/-- Let a quiet period pass. -/
def pause (watching : Watching) : Watching :=
  let (coalescer, runs) := watching.coalescer.step .quiet
  let next := { watching with coalescer }
  if runs then next.rerun else next

/-- Let several quiet periods pass. -/
def settle (watching : Watching) : Nat -> Watching
  | 0 => watching
  | periods + 1 => watching.pause.settle periods

end Watching
end Relink
