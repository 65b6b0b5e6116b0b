import ScriptTree.Tree.Basic

/-!
# Properties of every node of a tree
-/

namespace ScriptTree

namespace Tree

variable {Label : Type}

/-- What passes from the children of a node to the node holds of all trees. -/
theorem induct {motive : Tree Label → Prop}
    (node : ∀ label span children, (∀ child ∈ children, motive child) →
      motive (.node label span children)) (tree : Tree Label) : motive tree := by
  refine @Tree.rec Label motive (fun trees => ∀ tree ∈ trees, motive tree) node ?_ ?_ tree
  · simp
  · intro first rest firstHolds restHolds
    simpa using ⟨firstHolds, restHolds⟩

/-- A property holds of every node of a tree. -/
inductive Every (holds : Tree Label → Prop) : Tree Label → Prop where
  | node {label : Label} {span : Span} {children : List (Tree Label)}
      (here : holds (.node label span children)) (below : ∀ child ∈ children, Every holds child) :
      Every holds (.node label span children)

namespace Every

variable {holds other : Tree Label → Prop} {tree : Tree Label}

theorem here (every : Every holds tree) : holds tree := by
  cases every with
  | node here below => exact here

theorem of_child (every : Every holds tree) : ∀ child ∈ tree.children, Every holds child := by
  cases every with
  | node here below => exact below

theorem mono (implies : ∀ tree, holds tree → other tree) (every : Every holds tree) :
    Every other tree := by
  induction every with
  | node here below ih => exact .node (implies _ here) ih

theorem leaf {label : Label} {span : Span} (here : holds (.leaf label span)) :
    Every holds (.leaf label span) :=
  .node here (by simp)

theorem branch {label : Label} {children : List (Tree Label)}
    (here : holds (.branch label children)) (below : ∀ child ∈ children, Every holds child) :
    Every holds (.branch label children) :=
  .node here below

end Every

@[simp]
theorem label_leaf (label : Label) (span : Span) : (leaf label span).label = label :=
  rfl

@[simp]
theorem children_leaf (label : Label) (span : Span) : (leaf label span).children = [] :=
  rfl

@[simp]
theorem span_leaf (label : Label) (span : Span) : (leaf label span).span = span :=
  rfl

@[simp]
theorem label_branch (label : Label) (children : List (Tree Label)) :
    (branch label children).label = label :=
  rfl

@[simp]
theorem children_branch (label : Label) (children : List (Tree Label)) :
    (branch label children).children = children :=
  rfl

end Tree

end ScriptTree
