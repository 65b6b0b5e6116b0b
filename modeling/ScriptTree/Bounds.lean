/-!
# Bounds on nesting

Reading and rebuilding are bounded by one nesting limit.  The sizes that
describe how a stack grows are kept with it and checked against each other,
but no result depends on them.
-/

namespace ScriptTree

/-- The nesting limit, if any, and the sizes for stack growth in bytes. -/
structure Bounds where
  limit : Option Nat
  redZone : Nat
  segment : Nat
  deriving DecidableEq

inductive BoundsError where
  | zeroLimit
  | redZoneTooLarge (redZone segment : Nat)
  deriving DecidableEq

namespace BoundsError

/-- Wording of a refusal. -/
def message : BoundsError → String
  | .zeroLimit => "max_nesting_depth must be at least 1"
  | .redZoneTooLarge redZone segment =>
      "red zone must be non-zero and smaller than the stack segment: " ++
        toString redZone ++ " >= " ++ toString segment

end BoundsError

namespace Bounds

def defaultLimit : Nat := 4096

/-- Remaining stack below which a new segment is taken. -/
def defaultRedZone : Nat := 128 * 1024

def defaultSegment : Nat := 8 * 1024 * 1024

/-- The bounds used when none are asked for. -/
def standard : Bounds :=
  ⟨some defaultLimit, defaultRedZone, defaultSegment⟩

/-- Bounds with every part given.  The limit must not be zero, and the red
zone must be a proper, non-empty part of a segment. -/
def checked (limit : Option Nat) (redZone segment : Nat) : Except BoundsError Bounds :=
  if limit = some 0 then
    .error .zeroLimit
  else if redZone = 0 ∨ segment ≤ redZone then
    .error (.redZoneTooLarge redZone segment)
  else
    .ok ⟨limit, redZone, segment⟩

/-- Bounds with a given limit and the usual sizes. -/
def ofLimit (limit : Option Nat) : Except BoundsError Bounds :=
  checked limit defaultRedZone defaultSegment

end Bounds

end ScriptTree
