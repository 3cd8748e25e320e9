/-!
# Layout

How a compiled package is written: the endings of its files and the spellings that tell the
kinds of specifier apart.
-/

namespace Relink

/-- The naming conventions of compiled output. -/
structure Layout where
  /-- The ending of emitted scripts. -/
  scriptEnding : String := ".js"
  /-- The ending of type declarations. -/
  declarationEnding : String := ".d.ts"
  /-- What a specifier begins with that is read from the root of the package. -/
  aliasMarker : String := "~"
  /-- What a specifier begins with that names a module of the platform. -/
  builtinMarker : String := "node:"
deriving DecidableEq, Repr, Inhabited

end Relink
