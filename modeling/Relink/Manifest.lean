import Relink.Json.Reader

/-!
# Manifests

A package manifest, `package.json`, as far as this library consults it: the module that the
package is entered through, and the packages that it depends on. A field of another shape than
expected counts as absent.
-/

namespace Relink

/-- What a manifest says. -/
structure Manifest where
  /-- The entry module, relative to the package. -/
  entry : Option String := none
  dependencies : List String := []
  developmentDependencies : List String := []
  peerDependencies : List String := []
deriving DecidableEq, Repr, Inhabited

namespace Manifest

/-- Why a text is not a manifest. -/
inductive Fault where
  | notJson
  | notObject
deriving DecidableEq, Repr

/-- The wording of a fault. What a JSON reader would say about a text that is not JSON is not
modelled, and one text stands for all of it. -/
def Fault.message : Fault -> String
  | notJson => "<json>"
  | notObject => "top level of package.json must be an object"

/-- The entry module of a manifest's value: the first text among `exports`, its member `.`, the
member `import` of that, `main` and `bin`. -/
def entryOf (manifest : Json.Value) : Option String :=
  let exported := manifest.member? "exports"
  let dot := exported.bind (·.member? ".")
  [exported, dot, dot.bind (·.member? "import"), manifest.member? "main", manifest.member? "bin"]
    |>.findSome? fun candidate => candidate.bind Json.Value.text?

/-- The names that a field of a manifest's value lists. -/
def namesOf (manifest : Json.Value) (field : String) : List String :=
  ((manifest.member? field).map Json.Value.memberNames).getD []

/-- The manifest that a value means. -/
def ofValue (value : Json.Value) : Manifest where
  entry := entryOf value
  dependencies := namesOf value "dependencies"
  developmentDependencies := namesOf value "devDependencies"
  peerDependencies := namesOf value "peerDependencies"

/-- The manifest that a text writes. -/
def parse (text : String) : Except Fault Manifest :=
  match Json.read? text with
  | none => .error .notJson
  | some value => if value.members?.isSome then .ok (ofValue value) else .error .notObject

/-- Whether a package is among the dependencies of any kind. -/
def declares (manifest : Manifest) (package : String) : Bool :=
  manifest.dependencies.contains package || manifest.developmentDependencies.contains package ||
    manifest.peerDependencies.contains package

end Manifest
end Relink
