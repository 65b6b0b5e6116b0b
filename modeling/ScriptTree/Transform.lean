import ScriptTree.Grammar.Program
import ScriptTree.Rebuild.Process
import ScriptTree.Tree.Visit

/-!
# Transforms

A tree is rebuilt from its leaves up.  A leaf counts as a node whose only
argument is the text it covers.  A node whose name is no rule is kept if it is
a token of that very spelling.
-/

namespace ScriptTree

open Estree

variable {Label : Type}

/-- The fragment of a node with the given name, from the fragments below
it. -/
def dispatch (name : String) (fragments : List Fragment) : Except TransformError Fragment :=
  match Rule.ofName? name with
  | some rule => rule.process fragments
  | none =>
      match fragments with
      | [.token text] =>
          if text = name then .ok (.token name) else .error (.unhandled name fragments)
      | _ => .error (.unhandled name fragments)

/-- The arguments of a node: what its children became, or its text if it has
none. -/
def argumentsOf [Named Label] (source : Text) (tree : Tree Label) (below : List Fragment) :
    Except TransformError (List Fragment) :=
  match tree.children with
  | _ :: _ => .ok below
  | [] =>
      match tree.span.text? source with
      | some text => .ok [.token (String.ofList text)]
      | none => .error (.invalidSpan tree.name tree.span)

/-- Rebuilds a tree over a text, down to the given depth. -/
def rebuilder [Named Label] (source : Text) (limit : Option Nat) :
    Visitor Label TransformError Fragment where
  enter depth _ :=
    match limit with
    | some limit => if limit < depth then .error (.depthExceeded limit) else .ok ()
    | none => .ok ()
  leave _ tree below := do
    dispatch tree.name (← argumentsOf source tree below)
  stalled := .stalled

/-- Rebuilds the tree under a cursor, which is returned to where it was. -/
def transformCursor [Named Label] (options : Options) (source : Text)
    (cursor : Cursor Label) : Except TransformError (Fragment × Cursor Label) :=
  cursor.visit (rebuilder source options.bounds.limit)

/-- The node of a fragment that must be one. -/
def rootNode : Fragment → Except TransformError Node
  | .node node => .ok node
  | other => .error (.malformed "root" (.notANode other))

/-- Rebuilds a tree. -/
def transformTree [Named Label] (options : Options) (source : Text) (tree : Tree Label) :
    Except TransformError Node := do
  let (fragment, _) ← transformCursor options source (.ofTree tree)
  rootNode fragment

/-- Reads a text and rebuilds its tree. -/
def transform (options : Options) (source : Text) : Except TransformError Node :=
  match Grammar.parse options source with
  | .ok tree => transformTree options source tree
  | .error error => .error (.ofSyntaxError error)

end ScriptTree
