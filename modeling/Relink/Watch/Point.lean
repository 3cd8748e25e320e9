import Relink.Tree.Call
import Relink.Tree.Listing

/-!
# Watch points

The operating system reports the changes in single directories, and the changes of single files.
To watch all that lies below a directory, there is a point for every directory in it. A point
stays with its directory or file, wherever that is moved, and reports under the path that it was
made for.
-/

namespace Relink

/-- A directory or file whose changes are reported. -/
structure WatchPoint where
  location : Location
  /-- The path that changes are reported under. -/
  path : Path
  /-- Whether directories that appear here are watched too. -/
  recursive : Bool
  /-- Whether it is reported when this is moved or removed itself. -/
  own : Bool
deriving DecidableEq

/-- All watch points. No two are at one location. -/
abbrev WatchPoints := List WatchPoint

namespace Tree

/-- A directory and all directories below it, as far as `depth` directories inside each other.
Links are followed, except those that lead back. -/
def directoriesBelow (tree : Tree) (depth : Nat) (visits : List Visit) (here : Visit) :
    List Visit :=
  match depth with
  | 0 => []
  | below + 1 =>
    here :: (tree.children here.location).flatMap fun name =>
      let path := here.path.join ⟨name⟩
      match tree.listed (here :: visits) path (here.location ++ [name]) with
      | .ok (location, .directory) =>
        tree.directoriesBelow below (here :: visits) ⟨path, location⟩
      | _ => []

end Tree

namespace WatchPoints

/-- One point more. Where there is one already, its path gives way to the new one. -/
def insert (points : WatchPoints) (point : WatchPoint) : WatchPoints :=
  let (here, others) := points.partition fun known => known.location = point.location
  others ++ [{ point with own := point.own || here.any WatchPoint.own }]

/-- Watch a directory with all that lies below it. -/
def watchBelow (points : WatchPoints) (tree : Tree) (path : Path) (location : Location)
    (own : Bool) : WatchPoints :=
  (tree.directoriesBelow tree.listingDepth [] ⟨path, location⟩).foldl (fun known visit =>
    known.insert ⟨visit.location, visit.path, true, own && visit.location = location⟩) points

/-- Watch what a path names: a directory with all that lies below it, or a file. -/
def watch (points : WatchPoints) (tree : Tree) (base : Location) (path : Path) : WatchPoints :=
  match tree.status base path with
  | .ok (location, .directory) => points.watchBelow tree path location true
  | .ok (location, _) => points.insert ⟨location, path, false, true⟩
  | .error _ => points

/-- The points at the directory that holds a location. -/
def holding (points : WatchPoints) (location : Location) : WatchPoints :=
  points.filter fun point => !location.isEmpty && point.location = location.dropLast

/-- The path under which a point reports what lies in its directory at a location. -/
def pathInside (location : Location) (point : WatchPoint) : Path :=
  point.path.join ⟨location.getLast?.getD ""⟩

/-- The paths under which something at a location is reported by those that watch its
directory. -/
def pathsInside (points : WatchPoints) (location : Location) : List Path :=
  (points.holding location).map (pathInside location)

/-- The paths under which something is reported by those that watch it itself. -/
def ownPaths (points : WatchPoints) (location : Location) : List Path :=
  (points.filter fun point => point.own && point.location = location).map WatchPoint.path

/-- The paths under which a change is reported. -/
def reported (points : WatchPoints) : Change -> List Path
  | .created location _ => points.pathsInside location
  | .written location | .removed location _ =>
    points.pathsInside location ++ points.ownPaths location
  | .moved source target _ =>
    points.pathsInside source ++ points.ownPaths source ++ points.pathsInside target ++
      points.ownPaths target

/-- Watch a directory that has appeared, if those that hold it are watched with all that lies
below them. -/
def extend (points : WatchPoints) (tree : Tree) (location : Location) : WatchPoints :=
  if tree.lookup location = some .directory then
    (points.holding location).foldl (fun known point =>
      if point.recursive then known.watchBelow tree (pathInside location point) location false
      else known) points
  else points

/-- The points after something was moved. Those below a watched directory are given up and made
anew, the others stay with what they watch. -/
def afterMove (points : WatchPoints) (source target : Location) : WatchPoints :=
  let kept := points.filter fun point => point.location != target
  if (points.holding source).isEmpty then
    kept.map fun point =>
      if source.isPrefixOf point.location then
        { point with location := target ++ point.location.drop source.length }
      else point
  else kept.filter fun point => !source.isPrefixOf point.location

/-- The points after a change, without those for a directory that has appeared. -/
def after (points : WatchPoints) : Change -> WatchPoints
  | .created _ _ | .written _ => points
  | .removed location _ => points.filter fun point => point.location != location
  | .moved source target _ => points.afterMove source target

/-- The directory that appears in a change. -/
def appeared? : Change -> Option Location
  | .created location true => some location
  | .moved _ target true => some target
  | _ => none

/-- The paths under which changes are reported, and the points after them. -/
def report (points : WatchPoints) : List Change -> List Path × WatchPoints
  | [] => ([], points)
  | change :: rest =>
    let (paths, last) := report (points.after change) rest
    (points.reported change ++ paths, last)

/-- The paths under which changes that come in one burst are reported, and the points after them.
A directory that appears is watched only after the burst, so nothing is reported that happens in
it before. -/
def observe (points : WatchPoints) (tree : Tree) (changes : List Change) :
    List Path × WatchPoints :=
  let (paths, last) := points.report changes
  (paths, (changes.filterMap appeared?).foldl (fun known location => known.extend tree location) last)

end WatchPoints
end Relink
