import ScriptTree.Rebuild.Arguments

/-!
# Statements

The semicolon of a statement is optional everywhere, because one that was
inferred leaves nothing in the tree.
-/

namespace ScriptTree

open Estree

namespace Rebuild

/-- A whole script.  A script without statements is a leaf, whose text is
dropped. -/
def script : Take Fragment := do
  match (← get).rest with
  | [.token _] =>
      let _ ← Take.next
  | _ => pure ()
  let body ← Take.nodesToEnd "statement" (← get).rest.length #[]
  return .node (.program body .script)

/-- An expression on its own. -/
def expressionStatement : Take Fragment := do
  let expression ← Take.node "expression"
  let _ ← Take.eat ";"
  return .node (.expressionStatement expression)

/-- A bound name with its value. -/
def declarator : Take Node := do
  let id ← Take.node "binding"
  if ← Take.eat "=" then
    return .variableDeclarator id (some (← Take.node "initializer"))
  else
    return .variableDeclarator id none

def variableDeclaration : Take Fragment := do
  let keyword ← Take.token "declaration keyword"
  match VariableKind.ofKeyword? keyword with
  | none => Take.mismatch (.notDeclaration keyword)
  | some kind =>
      let declarations ← Take.separated declarator
      let _ ← Take.eat ";"
      return .node (.variableDeclaration declarations kind)

def block : Take Fragment := do
  Take.expect "\x7b"
  let body ← Take.untilToken "\x7d" #[] fun (body : Array Node) => do
    return body.push (← Take.node "statement")
  return .node (.blockStatement body.toList)

/-- A lone semicolon. -/
def emptyStatement : Take Fragment := do
  Take.expect ";"
  return .node .emptyStatement

def debuggerStatement : Take Fragment := do
  Take.expect "debugger"
  let _ ← Take.eat ";"
  return .node .debuggerStatement

def labeledStatement : Take Fragment := do
  let label ← Take.node "label"
  Take.expect ":"
  let body ← Take.node "labeled body"
  return .node (.labeledStatement label body)

/-! ## Jumps -/

def jump (keyword : String) (build : Option Node → Node) : Take Fragment := do
  Take.expect keyword
  let target ← Take.node?
  let _ ← Take.eat ";"
  return .node (build target)

def throwStatement : Take Fragment := do
  Take.expect "throw"
  let argument ← Take.node "thrown value"
  let _ ← Take.eat ";"
  return .node (.throwStatement argument)

/-! ## Conditionals and loops -/

def ifStatement : Take Fragment := do
  Take.expect "if"
  let test ← Take.node "condition"
  let consequent ← Take.node "consequent"
  if ← Take.eat "else" then
    return .node (.ifStatement test consequent (some (← Take.node "alternate")))
  else
    return .node (.ifStatement test consequent none)

/-- A loop that tests before each round. -/
def whileStatement : Take Fragment := do
  Take.expect "while"
  let test ← Take.node "condition"
  let body ← Take.node "loop body"
  return .node (.whileStatement test body)

/-- A loop that tests after each round. -/
def doStatement : Take Fragment := do
  Take.expect "do"
  let body ← Take.node "loop body"
  Take.expect "while"
  let test ← Take.node "condition"
  let _ ← Take.eat ";"
  return .node (.doWhileStatement body test)

def loopStatement (head : LoopHead) (body : Node) : Node :=
  match head with
  | .counting init test update => .forStatement init test update body
  | .overKeys left right => .forInStatement left right body
  | .overValues left right => .forOfStatement false left right body

/-- A `for` loop; its head decides which one. -/
def forStatement : Take Fragment := do
  Take.expect "for"
  let head ← Take.loopHead
  let body ← Take.node "loop body"
  return .node (loopStatement head body)

/-- The head of a loop with a test and an update. -/
def forSpec : Take Fragment := do
  Take.expect "("
  let init ← Take.node?
  Take.expect ";"
  let test ← Take.node?
  Take.expect ";"
  let update ← Take.node?
  Take.expect ")"
  return .loop (.counting init test update)

/-- The kind of declaration the next argument starts, if it is a keyword. -/
def peekVariableKind : Take (Option VariableKind) := do
  match ← Take.peek with
  | some (.token text) => return VariableKind.ofKeyword? text
  | _ => return none

/-- The left side of a head over keys or values.  A declared name becomes a
declaration without a value. -/
def iterationTarget : Take Node := do
  match ← peekVariableKind with
  | some kind =>
      let _ ← Take.next
      let id ← Take.node "binding"
      return .variableDeclaration [.variableDeclarator id none] kind
  | none => Take.node "loop target"

def iterationSpec (keyword : String) (build : Node → Node → LoopHead) : Take Fragment := do
  Take.expect "("
  let left ← iterationTarget
  Take.expect keyword
  let right ← Take.node "iterated value"
  Take.expect ")"
  return .loop (build left right)

/-! ## Exceptions -/

/-- The next argument, if it is a handler. -/
def handler? : Take (Option Node) := do
  match ← Take.peek with
  | some (.node (.catchClause ..)) => Take.node?
  | _ => return none

def tryStatement : Take Fragment := do
  Take.expect "try"
  let block ← Take.node "try block"
  let handler ← handler?
  let finalizer ← Take.node?
  if handler.isNone && finalizer.isNone then
    Take.mismatch .bareTry
  else
    return .node (.tryStatement block handler finalizer)

def catchClause : Take Fragment := do
  Take.expect "catch"
  if ← Take.eat "(" then
    let param ← Take.node "catch binding"
    Take.expect ")"
    return .node (.catchClause (some param) (← Take.node "catch body"))
  else
    return .node (.catchClause none (← Take.node "catch body"))

def finallyClause : Take Fragment := do
  Take.expect "finally"
  return .node (← Take.node "finally block")

/-! ## Switches -/

def switchStatement : Take Fragment := do
  Take.expect "switch"
  let discriminant ← Take.node "discriminant"
  let cases ← Take.list "switch body"
  return .node (.switchStatement discriminant cases)

/-- Adds a case or statement to cases in reverse order: a statement belongs to
the last case before it. -/
def addToCases (cases : List Node) (node : Node) : Option (List Node) :=
  match node, cases with
  | .switchCase test consequent, _ => some (.switchCase test consequent :: cases)
  | _, .switchCase test consequent :: earlier =>
      some (.switchCase test (consequent ++ [node]) :: earlier)
  | _, _ => none

def switchBody : Take Fragment := do
  Take.expect "\x7b"
  let cases ← Take.untilToken "\x7d" [] fun (cases : List Node) => do
    match addToCases cases (← Take.node "case or statement") with
    | some cases => return cases
    | none => Take.mismatch .statementBeforeCase
  return .list cases.reverse

def caseLabel : Take Fragment := do
  Take.expect "case"
  let test ← Take.node "case test"
  Take.expect ":"
  return .node (.switchCase (some test) [])

def defaultLabel : Take Fragment := do
  Take.expect "default"
  Take.expect ":"
  return .node (.switchCase none [])

end Rebuild

end ScriptTree
