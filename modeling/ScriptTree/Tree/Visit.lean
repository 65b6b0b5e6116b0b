import ScriptTree.Tree.Cursor

/-!
# Visiting a tree with a cursor

A visit goes through the nodes below a cursor by moves alone.  A node is
entered before its children and left after them, with what its children
yielded.  The first error ends the visit; otherwise the cursor is returned
too, and stands where it started.
-/

namespace ScriptTree

variable {Label Error Value : Type}

/-- What to do on the way through a tree.  The numbers are depths below the
starting node. -/
structure Visitor (Label Error Value : Type) where
  /-- Runs before the children of a node. -/
  enter : Nat → Tree Label → Except Error Unit
  /-- Runs after the children of a node, on what they yielded. -/
  leave : Nat → Tree Label → List Value → Except Error Value
  /-- The error of a visit that was given too few steps. -/
  stalled : Error

namespace Cursor

mutual

def visitNode (visitor : Visitor Label Error Value) :
    Nat → Nat → Cursor Label → Except Error (Value × Cursor Label)
  | 0, _, _ => .error visitor.stalled
  | fuel + 1, depth, cursor => do
      visitor.enter depth cursor.focus
      match cursor.firstChild? with
      | none => return (← visitor.leave depth cursor.focus [], cursor)
      | some child =>
          let (values, last) ← visitSiblings visitor fuel (depth + 1) child []
          return (← visitor.leave depth cursor.focus values, last.parent?.getD last)

/-- Visits the node under the cursor and its later siblings.  What the earlier
ones yielded is given in reverse. -/
def visitSiblings (visitor : Visitor Label Error Value) :
    Nat → Nat → Cursor Label → List Value → Except Error (List Value × Cursor Label)
  | 0, _, _, _ => .error visitor.stalled
  | fuel + 1, depth, cursor, earlier => do
      let (value, after) ← visitNode visitor fuel depth cursor
      match after.nextSibling? with
      | none => return ((value :: earlier).reverse, after)
      | some next => visitSiblings visitor fuel depth next (value :: earlier)

end

/-- Visits the node under the cursor and everything below it, with enough
steps for every node to be entered and left. -/
def visit (cursor : Cursor Label) (visitor : Visitor Label Error Value) :
    Except Error (Value × Cursor Label) :=
  visitNode visitor (2 * cursor.focus.nodeCount) 0 cursor

end Cursor

namespace Tree

mutual

/-- Every node of a tree that is `depth` levels down, with its own depth:
parents before children, and children from left to right. -/
def listed (depth : Nat) : Tree Label → List (Nat × Tree Label)
  | .node label span children =>
      (depth, .node label span children) :: listedAll (depth + 1) children

/-- Every node of some trees that are `depth` levels down. -/
def listedAll (depth : Nat) : List (Tree Label) → List (Nat × Tree Label)
  | [] => []
  | tree :: rest => listed depth tree ++ listedAll depth rest

end

/-- Every node of a tree with its depth. -/
def preorder (tree : Tree Label) : List (Nat × Tree Label) :=
  tree.listed 0

end Tree

end ScriptTree
