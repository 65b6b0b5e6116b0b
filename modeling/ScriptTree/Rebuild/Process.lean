import ScriptTree.Rebuild.Expression
import ScriptTree.Rebuild.Function
import ScriptTree.Rebuild.Statement
import ScriptTree.Rebuild.Terminal

/-!
# Rebuilding by rules

Every rule turns the fragments below a node into the fragment of the node, and
must use all of them.
-/

namespace ScriptTree

namespace Rebuild

def handler : Rule → Take Fragment
  | .script => script
  | .expressionStatement => expressionStatement
  | .variableDeclaration => variableDeclaration
  | .functionDeclaration => function .declaration
  | .classDeclaration => classDefinition .declaration
  | .classBody => classBody
  | .methodDeclaration => methodDeclaration
  | .returnStatement => jump "return" .returnStatement
  | .ifStatement => ifStatement
  | .whileStatement => whileStatement
  | .doStatement => doStatement
  | .forStatement => forStatement
  | .forSpec => forSpec
  | .forInSpec => iterationSpec "in" .overKeys
  | .forOfSpec => iterationSpec "of" .overValues
  | .block => block
  | .breakStatement => jump "break" .breakStatement
  | .continueStatement => jump "continue" .continueStatement
  | .throwStatement => throwStatement
  | .tryStatement => tryStatement
  | .catchClause => catchClause
  | .finallyClause => finallyClause
  | .switchStatement => switchStatement
  | .switchBody => switchBody
  | .caseLabel => caseLabel
  | .defaultLabel => defaultLabel
  | .labeledStatement => labeledStatement
  | .emptyStatement => emptyStatement
  | .debuggerStatement => debuggerStatement
  | .parenthesizedExpression => parenthesized
  | .arrayExpression => array
  | .objectExpression => object
  | .property => property
  | .spread => spread
  | .templateString => templateString
  | .taggedTemplateExpression => taggedTemplate
  | .memberExpression => member
  | .callExpression => call
  | .argList => argList
  | .newExpression => newExpression
  | .unaryExpression | .postfixExpression => unary
  | .awaitExpression => awaitExpression
  | .binaryExpression => binary
  | .conditionalExpression => conditional
  | .assignmentExpression => assignment
  | .sequenceExpression => sequence
  | .arrowFunction => arrowFunction
  | .functionExpression => function .expression
  | .classExpression => classDefinition .expression
  | .paramList => paramList
  | .number => literal "number" Literal.numberValue
  | .string => literal "string" Literal.stringValue
  | .regExp => literal "regular expression" Literal.regExpValue
  | .variableName => variableName
  | .variableDefinition | .propertyName | .propertyDefinition | .label => name
  | .templateContent => templateContent
  | .arithOp | .compareOp | .logicOp | .bitOp | .updateOp | .assignOp | .equals | .star =>
      operatorToken

end Rebuild

namespace Rule

/-- The fragment of a node with the given rule, from the fragments below
it. -/
def process (rule : Rule) (fragments : List Fragment) : Except TransformError Fragment := do
  let (fragment, rest) ← (Rebuild.handler rule).run ⟨rule, 0, fragments⟩
  let _ ← Take.finish.run rest
  return fragment

end Rule

end ScriptTree
