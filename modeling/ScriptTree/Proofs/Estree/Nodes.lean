import ScriptTree.Estree.Node

/-!
# Properties of every node of a program

A property of single nodes is stated of a whole program by asking it of every
node below.  Most nodes below another one are used by it, as a value that is
read or as a name that is bound; only the name of a member is not.
-/

namespace ScriptTree

namespace Estree

namespace Node

/-- The nodes right below a node. -/
def children : Node → List Node
  | .program body _ | .blockStatement body | .classBody body => body
  | .emptyStatement | .debuggerStatement | .identifier _ | .literal _ | .thisExpression | .super
  | .templateElement _ _ => []
  | .expressionStatement inner | .throwStatement inner | .spreadElement inner
  | .restElement inner | .awaitExpression inner => [inner]
  | .ifStatement test consequent alternate => test :: consequent :: alternate.toList
  | .returnStatement target | .breakStatement target | .continueStatement target => target.toList
  | .whileStatement first second | .doWhileStatement first second
  | .labeledStatement first second => [first, second]
  | .forStatement init test update body =>
      init.toList ++ test.toList ++ update.toList ++ [body]
  | .forInStatement left right body | .forOfStatement _ left right body => [left, right, body]
  | .tryStatement block handler finalizer => block :: (handler.toList ++ finalizer.toList)
  | .catchClause param body => param.toList ++ [body]
  | .switchStatement discriminant cases => discriminant :: cases
  | .switchCase test consequent => test.toList ++ consequent
  | .variableDeclaration declarations _ => declarations
  | .variableDeclarator id init => id :: init.toList
  | .function _ id _ _ _ params body => id.toList ++ params ++ [body]
  | .classNode _ id superClass body => id.toList ++ superClass.toList ++ [body]
  | .methodDefinition _ _ key _ value => [key, value]
  | .arrayExpression elements => elements.reduceOption
  | .objectExpression parts | .sequenceExpression parts => parts
  | .property _ _ _ key value _ => [key, value]
  | .assignmentPattern left right => [left, right]
  | .templateLiteral quasis expressions => quasis ++ expressions
  | .taggedTemplateExpression tag quasi => [tag, quasi]
  | .unaryExpression _ _ argument | .updateExpression _ _ argument => [argument]
  | .binaryExpression left _ right | .logicalExpression left _ right
  | .assignmentExpression _ left right => [left, right]
  | .conditionalExpression test consequent alternate => [test, consequent, alternate]
  | .callExpression callee arguments _ | .newExpression callee arguments => callee :: arguments
  | .memberExpression object key _ _ => [object, key]

/-- The nodes right below a node that it binds or refers to: all but the names
of members, unless they are computed. -/
def uses : Node → List Node
  | .memberExpression object key isComputed _ => if isComputed then [object, key] else [object]
  | .property _ _ isComputed key value _ | .methodDefinition _ isComputed key _ value =>
      if isComputed then [key, value] else [value]
  | node => node.children

theorem uses_subset (node : Node) : node.uses ⊆ node.children := by
  unfold uses
  split
  · split <;> simp [children]
  · split <;> simp [children]
  · split <;> simp [children]
  · exact fun _ isUse => isUse

/-- A property holds of a node and of all nodes below it. -/
inductive Every (holds : Node → Prop) : Node → Prop
  | node {node : Node} (here : holds node) (below : ∀ child ∈ node.children, Every holds child) :
      Every holds node

namespace Every

variable {holds : Node → Prop} {node : Node}

theorem here (every : Every holds node) : holds node := by
  cases every with
  | node here below => exact here

theorem of_child (every : Every holds node) : ∀ child ∈ node.children, Every holds child := by
  cases every with
  | node here below => exact below

end Every

end Node

end Estree

end ScriptTree
