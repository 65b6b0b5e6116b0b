import ScriptTree.Rebuild.Arguments

/-!
# Expressions
-/

namespace ScriptTree

open Estree

namespace Rebuild

/-! ## Operators -/

def isUpdateOperator (operator : String) : Bool :=
  operator == "++" || operator == "--"

def isLogicalOperator (operator : String) : Bool :=
  operator == "&&" || operator == "||" || operator == "??"

/-- An operator before or after its operand. -/
def unary : Take Fragment := do
  match ← Take.next with
  | some (.token operator) =>
      let argument ← Take.node "operand"
      if isUpdateOperator operator then
        return .node (.updateExpression operator true argument)
      else
        return .node (.unaryExpression operator true argument)
  | some (.node argument) =>
      let operator ← Take.token "operator"
      if isUpdateOperator operator then
        return .node (.updateExpression operator false argument)
      else
        Take.mismatch (.notPostfix operator)
  | _ => Take.mismatch .neitherOperatorNorOperand

/-- An operator between its operands. -/
def binary : Take Fragment := do
  let left ← Take.node "left operand"
  let operator ← Take.token "operator"
  let right ← Take.node "right operand"
  if isLogicalOperator operator then
    return .node (.logicalExpression left operator right)
  else
    return .node (.binaryExpression left operator right)

def assignment : Take Fragment := do
  let left ← Take.node "assignment target"
  let operator ← Take.token "operator"
  let right ← Take.node "assigned value"
  return .node (.assignmentExpression operator left right)

/-- A choice between two values. -/
def conditional : Take Fragment := do
  let test ← Take.node "condition"
  Take.expect "?"
  let consequent ← Take.node "consequent"
  Take.expect ":"
  let alternate ← Take.node "alternate"
  return .node (.conditionalExpression test consequent alternate)

def sequence : Take Fragment := do
  return .node (.sequenceExpression (← Take.separated (Take.node "expression")))

/-- An awaited value. -/
def awaitExpression : Take Fragment := do
  Take.expect "await"
  return .node (.awaitExpression (← Take.node "operand"))

/-! ## Lists and members -/

/-- Parentheses leave no trace. -/
def parenthesized : Take Fragment := do
  Take.expect "("
  let inner ← Take.node "expression"
  Take.expect ")"
  return .node inner

/-- The elements of an array literal, and whether the last argument taken was
one of them. -/
structure Elements where
  taken : Array (Option Node)
  afterElement : Bool

/-- One element or comma of an array literal; a comma that follows no element
stands for a hole. -/
def arrayElement (elements : Elements) : Take Elements := do
  if ← Take.eat "," then
    if elements.afterElement then
      return { elements with afterElement := false }
    else
      return ⟨elements.taken.push none, false⟩
  else
    return ⟨elements.taken.push (some (← Take.node "element")), true⟩

def array : Take Fragment := do
  Take.expect "["
  let elements ← Take.untilToken "]" ⟨#[], false⟩ arrayElement
  return .node (.arrayExpression elements.taken.toList)

def object : Take Fragment := do
  Take.expect "\x7b"
  return .node (.objectExpression (← Take.nodesUntil "\x7d" "," "property"))

def spread : Take Fragment := do
  Take.expect "..."
  return .node (.spreadElement (← Take.node "spread argument"))

def member : Take Fragment := do
  let object ← Take.node "object"
  if ← Take.eat "." then
    return .node (.memberExpression object (← Take.node "property") false false)
  else
    Take.expect "["
    let key ← Take.node "property"
    Take.expect "]"
    return .node (.memberExpression object key true false)

def call : Take Fragment := do
  let callee ← Take.node "callee"
  let arguments ← Take.list "argument list"
  return .node (.callExpression callee arguments false)

def argList : Take Fragment := do
  Take.expect "("
  return .list (← Take.nodesUntil ")" "," "argument")

/-- A construction, which has no arguments if it has no parentheses. -/
def newExpression : Take Fragment := do
  Take.expect "new"
  let callee ← Take.node "constructor"
  if (← Take.peek).isSome then
    return .node (.newExpression callee (← Take.list "argument list"))
  else
    return .node (.newExpression callee [])

def taggedTemplate : Take Fragment := do
  let tag ← Take.node "tag"
  let quasi ← Take.node "template"
  return .node (.taggedTemplateExpression tag quasi)

end Rebuild

end ScriptTree
