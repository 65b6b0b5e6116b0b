import ScriptTree.Tree.Basic

/-!
# Cursors

A cursor stands on a node of a tree and knows the nodes above it, each with
its position among its siblings.  A move that has nowhere to go gives no
cursor, so the old one remains.
-/

namespace ScriptTree

variable {Label : Type}

/-- A node with its position among its siblings. -/
structure Stop (Label : Type) where
  tree : Tree Label
  index : Nat

/-- A node of a tree, with the path that leads up to the root. -/
structure Cursor (Label : Type) where
  here : Stop Label
  above : List (Stop Label)

namespace Cursor

/-- The cursor on the root of a tree. -/
def ofTree (tree : Tree Label) : Cursor Label :=
  ⟨⟨tree, 0⟩, []⟩

/-- The node the cursor stands on. -/
def focus (cursor : Cursor Label) : Tree Label :=
  cursor.here.tree

def firstChild? (cursor : Cursor Label) : Option (Cursor Label) :=
  cursor.focus.children.head?.map fun child => ⟨⟨child, 0⟩, cursor.here :: cursor.above⟩

def nextSibling? (cursor : Cursor Label) : Option (Cursor Label) :=
  match cursor.above with
  | [] => none
  | parent :: _ =>
      parent.tree.children[cursor.here.index + 1]?.map fun sibling =>
        ⟨⟨sibling, cursor.here.index + 1⟩, cursor.above⟩

def parent? (cursor : Cursor Label) : Option (Cursor Label) :=
  match cursor.above with
  | [] => none
  | parent :: rest => some ⟨parent, rest⟩

end Cursor

inductive Move where
  | firstChild
  | nextSibling
  | parent
  deriving DecidableEq

namespace Cursor

/-- The cursor after a move, if the move leads anywhere. -/
def move? (cursor : Cursor Label) : Move → Option (Cursor Label)
  | .firstChild => cursor.firstChild?
  | .nextSibling => cursor.nextSibling?
  | .parent => cursor.parent?

/-- For each of some moves whether it led anywhere, and the node the cursor
stands on afterwards. -/
def trace (cursor : Cursor Label) : List Move → List (Bool × Tree Label)
  | [] => []
  | move :: rest =>
      let next := cursor.move? move
      let after := next.getD cursor
      (next.isSome, after.focus) :: trace after rest

end Cursor

end ScriptTree
