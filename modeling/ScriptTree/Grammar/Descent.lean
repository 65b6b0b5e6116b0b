import ScriptTree.Grammar.State

/-!
# Recursive descent

The productions of the grammar call each other in circles.  Each production is
therefore written against a descent, which stands for the recursive calls.
Only the calls that close a circle go through it, so one goal suffices for
each circle.
-/

namespace ScriptTree

namespace Grammar

/-- What can be asked for recursively. -/
inductive Goal where
  | statement
  /-- Assignments separated by commas. -/
  | expression
  | assignment
  /-- Operators that bind at least as tightly as the given level. -/
  | binary (level : Nat)
  | unary
  /-- An operand with its member accesses and calls. -/
  | leftHandSide
  /-- An operand that starts with `new`. -/
  | construction
  deriving DecidableEq

/-- The recursive calls a production can make, and how many rounds its loops
may take. -/
structure Descent where
  rounds : Nat
  read : Goal → Parse SyntaxTree

/-- The result of one round of a loop. -/
inductive Round (Progress Value : Type) where
  | again (progress : Progress)
  | done (value : Value)

/-- Runs a loop for at most the given number of rounds. -/
@[specialize]
def iterate {Progress Value : Type} (round : Progress → Parse (Round Progress Value)) :
    Nat → Progress → Parse Value
  | 0, _ => Parse.fail stalled
  | rounds + 1, progress => fun settings state =>
      match round progress settings state with
      | .ok (.done value) after => .ok value after
      | .ok (.again progress) after => iterate round rounds progress settings after
      | .error fault after => .error fault after

/-- Runs a loop that collects trees and ends with the trees collected. -/
@[inline]
def collect (descent : Descent) (trees : Array SyntaxTree)
    (round : Array SyntaxTree → Parse (Round (Array SyntaxTree) (Array SyntaxTree))) :
    Parse (Array SyntaxTree) :=
  iterate round descent.rounds trees

end Grammar

end ScriptTree
