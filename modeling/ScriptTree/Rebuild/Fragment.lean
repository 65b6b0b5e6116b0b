import ScriptTree.Estree.Node

/-!
# Fragments

What one node of a tree turns into while the tree is rebuilt.  Only a whole
node may be the final result; tokens, lists and loop heads are used up by the
node above them.
-/

namespace ScriptTree

open Estree

inductive LoopHead where
  | counting (init test update : Option Node)
  | overKeys (left right : Node)
  | overValues (left right : Node)

/-- The result of rebuilding one node of a tree. -/
inductive Fragment where
  | node (node : Node)
  /-- The text of a token. -/
  | token (text : String)
  | list (nodes : List Node)
  | loop (head : LoopHead)

namespace Fragment

/-- A short description for messages. -/
def describe : Fragment → String
  | .node given => given.typeName
  | .token text => "'" ++ text ++ "'"
  | .list nodes => "list of " ++ toString nodes.length
  | .loop _ => "loop head"

end Fragment

end ScriptTree
