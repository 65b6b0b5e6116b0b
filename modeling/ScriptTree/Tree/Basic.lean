import ScriptTree.Rule
import ScriptTree.Span
import ScriptTree.Token.Spelling

/-!
# Labelled trees

A tree node has a label, a span and a list of children.  Trees that were read
from a text are labelled by rules and spellings; trees that were received from
elsewhere are labelled by plain names.  Both are walked in the same way, by
the name of the label.
-/

namespace ScriptTree

/-- A tree whose nodes carry a label and a span. -/
inductive Tree (Label : Type) where
  | node (label : Label) (span : Span) (children : List (Tree Label))

/-- Labels that have a name. -/
class Named (Label : Type) where
  name : Label → String

instance : Named String :=
  ⟨id⟩

/-- Labels of trees that were read from a text. -/
inductive Kind where
  | rule (given : Rule)
  /-- A token that is named by its own spelling. -/
  | fixed (spelling : Spelling)
  deriving DecidableEq

namespace Kind

/-- The name of a rule, or the spelling of a token. -/
def name : Kind → String
  | .rule given => given.name
  | .fixed spelling => spelling.text

instance : Named Kind :=
  ⟨name⟩

end Kind

/-- Trees that were read from a text. -/
abbrev SyntaxTree := Tree Kind

/-- Trees that were received with plain names. -/
abbrev NamedTree := Tree String

namespace Tree

variable {Label Other : Type}

/-- The label of the topmost node. -/
def label : Tree Label → Label
  | .node label _ _ => label

/-- The span of the topmost node. -/
def span : Tree Label → Span
  | .node _ span _ => span

/-- The trees right below the topmost node. -/
def children : Tree Label → List (Tree Label)
  | .node _ _ children => children

/-- The name of the topmost node. -/
def name [Named Label] (tree : Tree Label) : String :=
  Named.name tree.label

/-- A node without children. -/
def leaf (label : Label) (span : Span) : Tree Label :=
  .node label span []

/-- The span from the first to the last of some trees; of no trees it is the
empty span at the beginning. -/
def covering (trees : List (Tree Label)) : Span :=
  match trees.head?, trees.getLast? with
  | some first, some last => first.span.through last.span
  | _, _ => .empty 0

def branch (label : Label) (children : List (Tree Label)) : Tree Label :=
  .node label (covering children) children

/-- The first child with the given label. -/
def find? [DecidableEq Label] (tree : Tree Label) (label : Label) : Option (Tree Label) :=
  tree.children.find? fun child => child.label = label

mutual

def relabel (change : Label → Other) : Tree Label → Tree Other
  | .node label span children => .node (change label) span (relabelAll change children)

def relabelAll (change : Label → Other) : List (Tree Label) → List (Tree Other)
  | [] => []
  | tree :: rest => relabel change tree :: relabelAll change rest

end

mutual

def nodeCount : Tree Label → Nat
  | .node _ _ children => nodeCountAll children + 1

/-- Number of nodes of some trees together. -/
def nodeCountAll : List (Tree Label) → Nat
  | [] => 0
  | tree :: rest => nodeCount tree + nodeCountAll rest

end

/-- A copy of a tree with plain names. -/
def named [Named Label] (tree : Tree Label) : NamedTree :=
  tree.relabel Named.name

end Tree

end ScriptTree
