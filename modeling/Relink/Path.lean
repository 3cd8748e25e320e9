import Relink.Name

/-!
# Paths

A path is a text, in which names that are not Unicode are written as `Relink.Name` says. Its
`components` are what it means without consulting any file system: slashes are merged, a `.` counts
only at the very front, and `..` is kept as written.
-/

namespace Relink

/-- One part of a path. -/
inductive Component where
  /-- The slash that an absolute path begins with. -/
  | root
  /-- A leading `.`. -/
  | current
  /-- A `..`. -/
  | parent
  | name (text : String)
deriving DecidableEq, Repr

namespace Component

/-- How a component is written. -/
def text : Component -> String
  | root => "/"
  | current => "."
  | parent => ".."
  | name text => text

/-- What stands between two slashes. An empty segment and a `.` mean nothing there. -/
def ofSegment? : List Char -> Option Component
  | [] => none
  | ['.'] => none
  | ['.', '.'] => some parent
  | segment => some (name (String.ofList segment))

end Component

/-- A path as it is written. -/
structure Path where
  text : String
deriving DecidableEq, Repr, Inhabited

namespace Path

/-- A text as a path. -/
def ofText (text : String) : Path :=
  ⟨Name.ofText text⟩

/-- The text that is shown for a path. -/
def shown (path : Path) : String :=
  Name.shown path.text

/-- Whether a path is Unicode throughout. -/
def isUnicode (path : Path) : Bool :=
  Name.isUnicode path.text

/-- What stands between the slashes of a path. -/
def segments (path : Path) : List (List Char) :=
  Text.splitAt '/' path.text.toList

/-- Whether a path begins with a slash. -/
def isAbsolute (path : Path) : Bool :=
  path.text.toList.head? == some '/'

/-- The component that only the front of a path can hold. -/
def front (path : Path) : List Component :=
  if path.isAbsolute then [.root]
  else if path.segments.head? = some ['.'] then [.current]
  else []

/-- The parts of a path, from its front. -/
def components (path : Path) : List Component :=
  path.front ++ path.segments.filterMap Component.ofSegment?

/-- Two paths that differ in spelling only. -/
def same (first second : Path) : Bool :=
  first.components = second.components

/-- The path that `addition` means when it is read from `base`. An absolute addition stands
for itself. -/
def join (base addition : Path) : Path :=
  if addition.isAbsolute then addition
  else if base.text.toList.getLast?.any (· != '/') then ⟨base.text ++ "/" ++ addition.text⟩
  else ⟨base.text ++ addition.text⟩

/-- The path that a list of components writes. -/
def ofComponents (components : List Component) : Path :=
  components.foldl (fun path component => path.join ⟨component.text⟩) ⟨""⟩

/-- The segments of a path without the meaningless ones at its end. The first segment stays. -/
def trimSegments : List (List Char) -> List (List Char)
  | [] => []
  | first :: rest =>
    first :: (rest.reverse.dropWhile fun segment => (Component.ofSegment? segment).isNone).reverse

/-- A path without its last component. The root and the empty path have none to lose. -/
def parent? (path : Path) : Option Path :=
  match path.components.getLast? with
  | none | some .root => none
  | some _ =>
    let kept := trimSegments (trimSegments path.segments).dropLast
    some ⟨if path.isAbsolute && kept == [[]] then "/" else String.ofList (Text.joinWith '/' kept)⟩

/-- The name that a path ends in. A path that ends in `..` or at the root has none. -/
def fileName? (path : Path) : Option String :=
  match path.components.getLast? with
  | some (.name text) => some text
  | _ => none

/-- Whether `path` is `base` or lies below it, by components. -/
def startsWith (path base : Path) : Bool :=
  base.components.isPrefixOf path.components

/-- A path and all its parents, nearest first, as far as `steps` parents up. -/
def ancestorsWithin : Nat -> Path -> List Path
  | 0, path => [path]
  | steps + 1, path =>
    match path.parent? with
    | none => [path]
    | some parent => path :: ancestorsWithin steps parent

/-- A path and all its parents, nearest first. -/
def ancestors (path : Path) : List Path :=
  ancestorsWithin path.components.length path

/-- Whether the last component of a path is a hidden name. -/
def isHidden (path : Path) : Bool :=
  path.fileName?.any isHiddenName

end Path
end Relink
