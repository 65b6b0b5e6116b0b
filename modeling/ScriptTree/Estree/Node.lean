import ScriptTree.Literal.Basic

/-!
# ESTree nodes

The part of the ESTree format that scripts are rebuilt into.  The constructors
follow the types of the format, except that the three types of functions and
the two types of classes share one constructor each.
-/

namespace ScriptTree

namespace Estree

inductive SourceType where
  | script
  | module
  deriving DecidableEq

inductive VariableKind where
  | var
  | letKind
  | const
  deriving DecidableEq

inductive PropertyKind where
  | init
  | get
  | set
  deriving DecidableEq

inductive MethodKind where
  | constructor
  | method
  | get
  | set
  deriving DecidableEq

inductive FunctionForm where
  | declaration
  | expression
  | arrow
  deriving DecidableEq

/-- The two types of classes. -/
inductive ClassForm where
  | declaration
  | expression
  deriving DecidableEq

/-- A node of the format. -/
inductive Node where
  | program (body : List Node) (sourceType : SourceType)
  | expressionStatement (expression : Node)
  | blockStatement (body : List Node)
  | emptyStatement
  | debuggerStatement
  | ifStatement (test consequent : Node) (alternate : Option Node)
  | returnStatement (argument : Option Node)
  | whileStatement (test body : Node)
  | doWhileStatement (body test : Node)
  | forStatement (init test update : Option Node) (body : Node)
  | forInStatement (left right body : Node)
  | forOfStatement (isAwait : Bool) (left right body : Node)
  | breakStatement (label : Option Node)
  | continueStatement (label : Option Node)
  | throwStatement (argument : Node)
  | tryStatement (block : Node) (handler finalizer : Option Node)
  | catchClause (param : Option Node) (body : Node)
  | switchStatement (discriminant : Node) (cases : List Node)
  | switchCase (test : Option Node) (consequent : List Node)
  | labeledStatement (label body : Node)
  | variableDeclaration (declarations : List Node) (kind : VariableKind)
  | variableDeclarator (id : Node) (init : Option Node)
  | function (form : FunctionForm) (id : Option Node) (isExpression isGenerator isAsync : Bool)
      (params : List Node) (body : Node)
  | classNode (form : ClassForm) (id superClass : Option Node) (body : Node)
  | classBody (body : List Node)
  | methodDefinition (isStatic isComputed : Bool) (key : Node) (kind : MethodKind) (value : Node)
  | identifier (name : String)
  | literal (literal : Literal)
  | thisExpression
  | super
  /-- A missing element is a hole. -/
  | arrayExpression (elements : List (Option Node))
  | objectExpression (properties : List Node)
  | property (isMethod isShorthand isComputed : Bool) (key value : Node) (kind : PropertyKind)
  | spreadElement (argument : Node)
  | restElement (argument : Node)
  | assignmentPattern (left right : Node)
  | templateLiteral (quasis expressions : List Node)
  | templateElement (value : TemplateText) (isTail : Bool)
  | taggedTemplateExpression (tag quasi : Node)
  | unaryExpression (operator : String) (isPrefix : Bool) (argument : Node)
  | updateExpression (operator : String) (isPrefix : Bool) (argument : Node)
  | binaryExpression (left : Node) (operator : String) (right : Node)
  | logicalExpression (left : Node) (operator : String) (right : Node)
  | assignmentExpression (operator : String) (left right : Node)
  | conditionalExpression (test consequent alternate : Node)
  | callExpression (callee : Node) (arguments : List Node) (isOptional : Bool)
  | newExpression (callee : Node) (arguments : List Node)
  | memberExpression (object property : Node) (isComputed isOptional : Bool)
  | sequenceExpression (expressions : List Node)
  | awaitExpression (argument : Node)

namespace VariableKind

def ofKeyword? (keyword : String) : Option VariableKind :=
  if keyword = "var" then some .var
  else if keyword = "let" then some .letKind
  else if keyword = "const" then some .const
  else none

end VariableKind

namespace Node

def typeName : Node → String
  | .program .. => "Program"
  | .expressionStatement .. => "ExpressionStatement"
  | .blockStatement .. => "BlockStatement"
  | .emptyStatement => "EmptyStatement"
  | .debuggerStatement => "DebuggerStatement"
  | .ifStatement .. => "IfStatement"
  | .returnStatement .. => "ReturnStatement"
  | .whileStatement .. => "WhileStatement"
  | .doWhileStatement .. => "DoWhileStatement"
  | .forStatement .. => "ForStatement"
  | .forInStatement .. => "ForInStatement"
  | .forOfStatement .. => "ForOfStatement"
  | .breakStatement .. => "BreakStatement"
  | .continueStatement .. => "ContinueStatement"
  | .throwStatement .. => "ThrowStatement"
  | .tryStatement .. => "TryStatement"
  | .catchClause .. => "CatchClause"
  | .switchStatement .. => "SwitchStatement"
  | .switchCase .. => "SwitchCase"
  | .labeledStatement .. => "LabeledStatement"
  | .variableDeclaration .. => "VariableDeclaration"
  | .variableDeclarator .. => "VariableDeclarator"
  | .function .declaration .. => "FunctionDeclaration"
  | .function .expression .. => "FunctionExpression"
  | .function .arrow .. => "ArrowFunctionExpression"
  | .classNode .declaration .. => "ClassDeclaration"
  | .classNode .expression .. => "ClassExpression"
  | .classBody .. => "ClassBody"
  | .methodDefinition .. => "MethodDefinition"
  | .identifier .. => "Identifier"
  | .literal .. => "Literal"
  | .thisExpression => "ThisExpression"
  | .super => "Super"
  | .arrayExpression .. => "ArrayExpression"
  | .objectExpression .. => "ObjectExpression"
  | .property .. => "Property"
  | .spreadElement .. => "SpreadElement"
  | .restElement .. => "RestElement"
  | .assignmentPattern .. => "AssignmentPattern"
  | .templateLiteral .. => "TemplateLiteral"
  | .templateElement .. => "TemplateElement"
  | .taggedTemplateExpression .. => "TaggedTemplateExpression"
  | .unaryExpression .. => "UnaryExpression"
  | .updateExpression .. => "UpdateExpression"
  | .binaryExpression .. => "BinaryExpression"
  | .logicalExpression .. => "LogicalExpression"
  | .assignmentExpression .. => "AssignmentExpression"
  | .conditionalExpression .. => "ConditionalExpression"
  | .callExpression .. => "CallExpression"
  | .newExpression .. => "NewExpression"
  | .memberExpression .. => "MemberExpression"
  | .sequenceExpression .. => "SequenceExpression"
  | .awaitExpression .. => "AwaitExpression"

end Node

end Estree

end ScriptTree
