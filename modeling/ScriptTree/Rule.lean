/-!
# Rules

The grammar has a closed set of rules.  A rule labels the tree of every part
of a text that was read by it, the named tokens included, and it also names
the way such a tree is rebuilt.
-/

namespace ScriptTree

/-- The rules of the grammar. -/
inductive Rule where
  | script
  | expressionStatement
  | variableDeclaration
  | functionDeclaration
  | classDeclaration
  | classBody
  | methodDeclaration
  | returnStatement
  | ifStatement
  | whileStatement
  | doStatement
  | forStatement
  /-- The head of a counting loop. -/
  | forSpec
  /-- The head of a loop over keys. -/
  | forInSpec
  /-- The head of a loop over values. -/
  | forOfSpec
  | block
  | breakStatement
  | continueStatement
  | throwStatement
  | tryStatement
  | catchClause
  | finallyClause
  | switchStatement
  /-- The braces of a switch, with labels and statements side by side. -/
  | switchBody
  | caseLabel
  | defaultLabel
  | labeledStatement
  | emptyStatement
  | debuggerStatement
  | parenthesizedExpression
  | arrayExpression
  | objectExpression
  | property
  | spread
  | templateString
  | taggedTemplateExpression
  | memberExpression
  | callExpression
  /-- The parenthesized arguments of a call. -/
  | argList
  | newExpression
  | unaryExpression
  | postfixExpression
  | awaitExpression
  | binaryExpression
  | conditionalExpression
  | assignmentExpression
  | sequenceExpression
  | arrowFunction
  | functionExpression
  | classExpression
  /-- The parenthesized parameters of a function. -/
  | paramList
  | number
  | string
  | regExp
  /-- A name that is used. -/
  | variableName
  /-- A name that is bound. -/
  | variableDefinition
  /-- A name after a dot. -/
  | propertyName
  /-- A name that a member is defined under. -/
  | propertyDefinition
  | label
  /-- A run of plain text inside a template. -/
  | templateContent
  | arithOp
  | compareOp
  | logicOp
  | bitOp
  | updateOp
  | assignOp
  /-- The sign of a plain assignment. -/
  | equals
  /-- The star of a generator. -/
  | star
  deriving DecidableEq

namespace Rule

/-- The name of a rule. -/
def name : Rule → String
  | .script => "Script"
  | .expressionStatement => "ExpressionStatement"
  | .variableDeclaration => "VariableDeclaration"
  | .functionDeclaration => "FunctionDeclaration"
  | .classDeclaration => "ClassDeclaration"
  | .classBody => "ClassBody"
  | .methodDeclaration => "MethodDeclaration"
  | .returnStatement => "ReturnStatement"
  | .ifStatement => "IfStatement"
  | .whileStatement => "WhileStatement"
  | .doStatement => "DoStatement"
  | .forStatement => "ForStatement"
  | .forSpec => "ForSpec"
  | .forInSpec => "ForInSpec"
  | .forOfSpec => "ForOfSpec"
  | .block => "Block"
  | .breakStatement => "BreakStatement"
  | .continueStatement => "ContinueStatement"
  | .throwStatement => "ThrowStatement"
  | .tryStatement => "TryStatement"
  | .catchClause => "CatchClause"
  | .finallyClause => "FinallyClause"
  | .switchStatement => "SwitchStatement"
  | .switchBody => "SwitchBody"
  | .caseLabel => "CaseLabel"
  | .defaultLabel => "DefaultLabel"
  | .labeledStatement => "LabeledStatement"
  | .emptyStatement => "EmptyStatement"
  | .debuggerStatement => "DebuggerStatement"
  | .parenthesizedExpression => "ParenthesizedExpression"
  | .arrayExpression => "ArrayExpression"
  | .objectExpression => "ObjectExpression"
  | .property => "Property"
  | .spread => "Spread"
  | .templateString => "TemplateString"
  | .taggedTemplateExpression => "TaggedTemplateExpression"
  | .memberExpression => "MemberExpression"
  | .callExpression => "CallExpression"
  | .argList => "ArgList"
  | .newExpression => "NewExpression"
  | .unaryExpression => "UnaryExpression"
  | .postfixExpression => "PostfixExpression"
  | .awaitExpression => "AwaitExpression"
  | .binaryExpression => "BinaryExpression"
  | .conditionalExpression => "ConditionalExpression"
  | .assignmentExpression => "AssignmentExpression"
  | .sequenceExpression => "SequenceExpression"
  | .arrowFunction => "ArrowFunction"
  | .functionExpression => "FunctionExpression"
  | .classExpression => "ClassExpression"
  | .paramList => "ParamList"
  | .number => "Number"
  | .string => "String"
  | .regExp => "RegExp"
  | .variableName => "VariableName"
  | .variableDefinition => "VariableDefinition"
  | .propertyName => "PropertyName"
  | .propertyDefinition => "PropertyDefinition"
  | .label => "Label"
  | .templateContent => "TemplateContent"
  | .arithOp => "ArithOp"
  | .compareOp => "CompareOp"
  | .logicOp => "LogicOp"
  | .bitOp => "BitOp"
  | .updateOp => "UpdateOp"
  | .assignOp => "AssignOp"
  | .equals => "Equals"
  | .star => "Star"

def all : List Rule :=
  [.script, .expressionStatement, .variableDeclaration, .functionDeclaration, .classDeclaration,
    .classBody, .methodDeclaration, .returnStatement, .ifStatement, .whileStatement, .doStatement,
    .forStatement, .forSpec, .forInSpec, .forOfSpec, .block, .breakStatement, .continueStatement,
    .throwStatement, .tryStatement, .catchClause, .finallyClause, .switchStatement, .switchBody,
    .caseLabel, .defaultLabel, .labeledStatement, .emptyStatement, .debuggerStatement,
    .parenthesizedExpression, .arrayExpression, .objectExpression, .property, .spread,
    .templateString, .taggedTemplateExpression, .memberExpression, .callExpression, .argList,
    .newExpression, .unaryExpression, .postfixExpression, .awaitExpression, .binaryExpression,
    .conditionalExpression, .assignmentExpression, .sequenceExpression, .arrowFunction,
    .functionExpression, .classExpression, .paramList, .number, .string, .regExp, .variableName,
    .variableDefinition, .propertyName, .propertyDefinition, .label, .templateContent, .arithOp,
    .compareOp, .logicOp, .bitOp, .updateOp, .assignOp, .equals, .star]

/-- The rule with the given name. -/
def ofName? (name : String) : Option Rule :=
  all.find? fun rule => rule.name == name

end Rule

end ScriptTree
