import ScriptTree.Proofs.Grammar.Inversion
import ScriptTree.Proofs.Visit

/-!
# The functions around a node

A node lies in the bodies of some functions, one inside the other.  Their
parameters, keys and modifiers stand outside of those bodies.  What the
grammar allows at a place is decided by the functions around it, so the scope
in which a tree is read says which of its nodes need a function around the
whole tree.
-/

namespace ScriptTree

open Grammar

namespace Tree

/-- Whether a tree is a function, an arrow function or a method.  An entry of
an object is a method if it has parameters. -/
def isCallable (tree : SyntaxTree) : Bool :=
  match tree.label with
  | .rule .functionDeclaration | .rule .functionExpression | .rule .arrowFunction
  | .rule .methodDeclaration => true
  | .rule .property => tree.children.any (·.label == .rule .paramList)
  | _ => false

/-- What a function runs when it is called, which is the last of its parts. -/
def body? (tree : SyntaxTree) : Option SyntaxTree :=
  if tree.isCallable then tree.children.getLast? else none

def outside (tree : SyntaxTree) : List SyntaxTree :=
  if tree.isCallable then tree.children.dropLast else tree.children

/-- Every part of a tree is outside of its body or the body itself. -/
theorem outside_append_body (tree : SyntaxTree) :
    tree.outside ++ tree.body?.toList = tree.children := by
  unfold outside body?
  cases tree.isCallable with
  | false => simp
  | true =>
      rcases List.eq_nil_or_concat' tree.children with empty | ⟨front, last, same⟩
      · simp [empty]
      · simp [same]

end Tree

/-- A node lies in a tree, inside the bodies of the given functions, from the
innermost to the outermost. -/
inductive Lies : SyntaxTree → List SyntaxTree → SyntaxTree → Prop where
  | here (tree : SyntaxTree) : Lies tree [] tree
  | outside {tree child node : SyntaxTree} {functions : List SyntaxTree}
      (isOutside : child ∈ tree.outside) (below : Lies child functions node) :
      Lies tree functions node
  | inside {tree body node : SyntaxTree} {functions : List SyntaxTree}
      (isBody : tree.body? = some body) (below : Lies body functions node) :
      Lies tree (functions ++ [tree]) node

/-- Whatever lies in a part of a tree lies in the tree. -/
theorem Lies.of_child {tree child node : SyntaxTree} {functions : List SyntaxTree}
    (isChild : child ∈ tree.children) (lies : Lies child functions node) :
    ∃ around, Lies tree around node := by
  rw [← tree.outside_append_body, List.mem_append] at isChild
  rcases isChild with isOutside | isBody
  · exact ⟨functions, .outside isOutside lies⟩
  · exact ⟨_, .inside (by simpa using isBody) lies⟩

/-- Every node of a tree lies in it. -/
theorem lies_of_mem_nodes {tree node : SyntaxTree} (isNode : node ∈ tree.nodes) :
    ∃ functions, Lies tree functions node := by
  induction tree using Tree.induct with
  | node label span children ih =>
      rw [Tree.nodes_eq, List.mem_cons, List.mem_flatMap] at isNode
      rcases isNode with rfl | ⟨child, isChild, isBelow⟩
      · exact ⟨[], .here _⟩
      · obtain ⟨functions, lies⟩ := ih child isChild isBelow
        exact lies.of_child isChild

/-- A function that runs a block. -/
def RunsBlock (function : SyntaxTree) : Prop :=
  ∃ body, function.body? = some body ∧ body.label = .rule .block

/-- A function that carries the modifier of asynchronous ones. -/
def CarriesAsync (function : SyntaxTree) : Prop :=
  ∃ modifier ∈ function.children, modifier.label.isAsync = true ∧ modifier.children = []

namespace Grammar

/-- Every `return` and `await` in a tree has the function around it that it
needs, unless the scope of the whole tree provides for it. -/
structure Confined (scope : Scope) (tree : SyntaxTree) : Prop where
  returns : ∀ {functions node}, Lies tree functions node → node.label = .rule .returnStatement →
    scope.inFunction = true ∨ ∃ function ∈ functions, RunsBlock function
  awaits : ∀ {functions node}, Lies tree functions node → node.label = .rule .awaitExpression →
    (functions = [] ∧ scope.inAsync = true) ∨
      ∃ function, functions.head? = some function ∧ CarriesAsync function

namespace Confined

variable {scope inner : Scope} {tree : SyntaxTree}

/-- Whether `in` is an operator does not matter. -/
theorem same (confined : Confined scope tree) (inFunction : inner.inFunction = scope.inFunction)
    (inAsync : inner.inAsync = scope.inAsync) : Confined inner tree :=
  ⟨fun lies isReturn => inFunction ▸ confined.returns lies isReturn,
    fun lies isAwait => inAsync ▸ confined.awaits lies isAwait⟩

theorem leaf (kind : Kind) (span : Span) (notReturn : kind ≠ .rule .returnStatement)
    (notAwait : kind ≠ .rule .awaitExpression) : Confined scope (.leaf kind span) := by
  have only {functions : List SyntaxTree} {node : SyntaxTree}
      (lies : Lies (.leaf kind span) functions node) : node.label = kind := by
    cases lies with
    | here => rfl
    | outside isOutside => simp [Tree.outside] at isOutside
    | inside isBody => simp [Tree.body?] at isBody
  exact ⟨fun lies same => absurd ((only lies).symm.trans same) notReturn,
    fun lies same => absurd ((only lies).symm.trans same) notAwait⟩

/-- A node that is no function, and is what the scope allows if it is a
`return` or `await`. -/
theorem build {rule : Rule} {trees : List SyntaxTree}
    (plain : (Grammar.build rule trees).isCallable = false)
    (returns : rule = .returnStatement → scope.inFunction = true)
    (awaits : rule = .awaitExpression → scope.inAsync = true)
    (below : ∀ tree ∈ trees, Confined scope tree) : Confined scope (Grammar.build rule trees) := by
  have outside : (Grammar.build rule trees).outside = trees := by
    rw [Tree.outside, plain]
    rfl
  constructor
  · intro functions node lies isReturn
    cases lies with
    | here => exact .inl (returns (Kind.rule.inj isReturn))
    | outside isOutside lies => exact (below _ (outside ▸ isOutside)).returns lies isReturn
    | inside isBody => simp [Tree.body?, plain] at isBody
  · intro functions node lies isAwait
    cases lies with
    | here => exact .inl ⟨rfl, awaits (Kind.rule.inj isAwait)⟩
    | outside isOutside lies => exact (below _ (outside ▸ isOutside)).awaits lies isAwait
    | inside isBody => simp [Tree.body?, plain] at isBody

/-- A function provides for its body, which is read in a scope of its own. -/
theorem function {rule : Rule} {front : List SyntaxTree} {body : SyntaxTree}
    (callable : (Grammar.build rule (front ++ [body])).isCallable = true)
    (frontConfined : ∀ tree ∈ front, Confined scope tree) (bodyConfined : Confined inner body)
    (returns : inner.inFunction = true → scope.inFunction = true ∨ body.label = .rule .block)
    (awaits : inner.inAsync = true →
      ∃ modifier ∈ front, modifier.label.isAsync = true ∧ modifier.children = []) :
    Confined scope (Grammar.build rule (front ++ [body])) := by
  let whole := Grammar.build rule (front ++ [body])
  have outside : whole.outside = front := by
    rw [Tree.outside, callable]
    exact List.dropLast_concat
  have isBody : whole.body? = some body := by
    rw [Tree.body?, callable]
    exact List.getLast?_concat
  constructor
  · intro functions node lies isReturn
    cases lies with
    | here =>
        cases isReturn
        cases callable
    | outside isOutside lies => exact (frontConfined _ (outside ▸ isOutside)).returns lies isReturn
    | inside found lies =>
        obtain rfl : body = _ := Option.some.inj (isBody.symm.trans found)
        rcases bodyConfined.returns lies isReturn with allowed | ⟨function, isIn, runs⟩
        · refine (returns allowed).imp_right fun isBlock => ?_
          exact ⟨whole, by simp [whole], body, isBody, isBlock⟩
        · exact .inr ⟨function, List.mem_append_left _ isIn, runs⟩
  · intro functions node lies isAwait
    cases lies with
    | here =>
        cases isAwait
        cases callable
    | outside isOutside lies => exact (frontConfined _ (outside ▸ isOutside)).awaits lies isAwait
    | inside found lies =>
        obtain rfl : body = _ := Option.some.inj (isBody.symm.trans found)
        rcases bodyConfined.awaits lies isAwait with ⟨rfl, allowed⟩ | ⟨function, isFirst, carries⟩
        · obtain ⟨modifier, isIn, isAsync⟩ := awaits allowed
          exact .inr ⟨whole, rfl, modifier, List.mem_append_left _ isIn, isAsync⟩
        · exact .inr ⟨function, by simp [List.head?_append, isFirst], carries⟩

end Confined

end Grammar

end ScriptTree
