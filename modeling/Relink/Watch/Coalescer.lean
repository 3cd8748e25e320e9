import Relink.Path

/-!
# Coalescing changes

Changes come in bursts. Each is kept until nothing has come for a while, and then one run works
on all of them.
-/

namespace Relink

/-- How long nothing may come before a run starts, in milliseconds. -/
def quietPeriod : Nat := 100

/-- What reaches a coalescer. -/
inductive Signal where
  /-- Paths that changed. -/
  | changes (paths : List Path)
  /-- Nothing came for a quiet period. -/
  | quiet
deriving DecidableEq, Repr

/-- The changes that no run has worked on. -/
structure Coalescer where
  pending : List Path := []
deriving DecidableEq, Repr, Inhabited

namespace Coalescer

/-- Whether every change was worked on. -/
def isIdle (coalescer : Coalescer) : Bool :=
  coalescer.pending.isEmpty

/-- Keep more changes. -/
def receive (coalescer : Coalescer) (paths : List Path) : Coalescer :=
  ⟨coalescer.pending ++ paths⟩

/-- Take in a signal. Says whether a run starts, which then works on all that was pending. -/
def step (coalescer : Coalescer) : Signal -> Coalescer × Bool
  | .changes paths => (coalescer.receive paths, false)
  | .quiet => ({}, !coalescer.isIdle)

end Coalescer
end Relink
