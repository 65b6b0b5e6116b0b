import ScriptTree.Estree.Node

/-!
# The schema of ESTree nodes

Every position of a node is a slot that admits nodes of some types only.  A
node conforms to a slot if its type is admitted there and everything below it
conforms to the slot it stands in.
-/

namespace ScriptTree

namespace Estree

/-- The positions that a node can stand in. -/
inductive Slot where
  | program
  | statement
  | block
  | declaration
  | declarator
  /-- The first part of the head of a loop. -/
  | loopStart
  | handler
  | case
  | classBody
  | method
  | property
  | spread
  /-- An element of an array or an argument of a call. -/
  | element
  | name
  | literal
  | key (isComputed : Bool)
  | param
  | rest
  | quasi (isTail : Bool)
  | template
  /-- The value of a method. -/
  | function
  | expression
  deriving DecidableEq

/-- A node and all nodes below it stand where the format allows them. -/
inductive Conforms : Slot → Node → Prop
  | program {body : List Node} {form : SourceType}
      (statements : ∀ node ∈ body, Conforms .statement node) :
      Conforms .program (.program body form)
  -- Statements.
  | block {node : Node} (isBlock : Conforms .block node) : Conforms .statement node
  | declaration {node : Node} (isDeclaration : Conforms .declaration node) :
      Conforms .statement node
  | blockStatement {body : List Node} (statements : ∀ node ∈ body, Conforms .statement node) :
      Conforms .block (.blockStatement body)
  | variableDeclaration {declarations : List Node} {kind : VariableKind}
      (nonempty : declarations ≠ [])
      (declarators : ∀ node ∈ declarations, Conforms .declarator node) :
      Conforms .declaration (.variableDeclaration declarations kind)
  | variableDeclarator {id : Node} {init : Option Node} (isName : Conforms .name id)
      (value : ∀ node ∈ init, Conforms .expression node) :
      Conforms .declarator (.variableDeclarator id init)
  | expressionStatement {expression : Node} (value : Conforms .expression expression) :
      Conforms .statement (.expressionStatement expression)
  | emptyStatement : Conforms .statement .emptyStatement
  | debuggerStatement : Conforms .statement .debuggerStatement
  | ifStatement {test consequent : Node} {alternate : Option Node}
      (condition : Conforms .expression test) (body : Conforms .statement consequent)
      (otherwise : ∀ node ∈ alternate, Conforms .statement node) :
      Conforms .statement (.ifStatement test consequent alternate)
  | returnStatement {argument : Option Node}
      (value : ∀ node ∈ argument, Conforms .expression node) :
      Conforms .statement (.returnStatement argument)
  | whileStatement {test body : Node} (condition : Conforms .expression test)
      (inner : Conforms .statement body) : Conforms .statement (.whileStatement test body)
  | doWhileStatement {body test : Node} (inner : Conforms .statement body)
      (condition : Conforms .expression test) : Conforms .statement (.doWhileStatement body test)
  | forStatement {init test update : Option Node} {body : Node}
      (start : ∀ node ∈ init, Conforms .loopStart node)
      (condition : ∀ node ∈ test, Conforms .expression node)
      (step : ∀ node ∈ update, Conforms .expression node) (inner : Conforms .statement body) :
      Conforms .statement (.forStatement init test update body)
  | forInStatement {left right body : Node} (start : Conforms .loopStart left)
      (subject : Conforms .expression right) (inner : Conforms .statement body) :
      Conforms .statement (.forInStatement left right body)
  | forOfStatement {isAwait : Bool} {left right body : Node} (start : Conforms .loopStart left)
      (subject : Conforms .expression right) (inner : Conforms .statement body) :
      Conforms .statement (.forOfStatement isAwait left right body)
  | breakStatement {label : Option Node} (target : ∀ node ∈ label, Conforms .name node) :
      Conforms .statement (.breakStatement label)
  | continueStatement {label : Option Node} (target : ∀ node ∈ label, Conforms .name node) :
      Conforms .statement (.continueStatement label)
  | throwStatement {argument : Node} (value : Conforms .expression argument) :
      Conforms .statement (.throwStatement argument)
  | tryStatement {block : Node} {handler finalizer : Option Node}
      (guarded : Conforms .block block) (handles : ∀ node ∈ handler, Conforms .handler node)
      (finishes : ∀ node ∈ finalizer, Conforms .block node)
      (either : handler.isSome = true ∨ finalizer.isSome = true) :
      Conforms .statement (.tryStatement block handler finalizer)
  | catchClause {param : Option Node} {body : Node}
      (bound : ∀ node ∈ param, Conforms .name node) (inner : Conforms .block body) :
      Conforms .handler (.catchClause param body)
  | switchStatement {discriminant : Node} {cases : List Node}
      (subject : Conforms .expression discriminant)
      (all : ∀ node ∈ cases, Conforms .case node) :
      Conforms .statement (.switchStatement discriminant cases)
  | switchCase {test : Option Node} {consequent : List Node}
      (value : ∀ node ∈ test, Conforms .expression node)
      (statements : ∀ node ∈ consequent, Conforms .statement node) :
      Conforms .case (.switchCase test consequent)
  | labeledStatement {label body : Node} (isName : Conforms .name label)
      (inner : Conforms .statement body) : Conforms .statement (.labeledStatement label body)
  -- Heads of loops.
  | declaredStart {node : Node} (isDeclaration : Conforms .declaration node) :
      Conforms .loopStart node
  | expressionStart {node : Node} (isExpression : Conforms .expression node) :
      Conforms .loopStart node
  -- Functions.  Only the last parameter can be a rest element.
  | functionDeclaration {id body : Node} {isGenerator isAsync : Bool} {plain : List Node}
      {last : Option Node} (isName : Conforms .name id)
      (params : ∀ node ∈ plain, Conforms .param node) (rest : ∀ node ∈ last, Conforms .rest node)
      (inner : Conforms .block body) :
      Conforms .statement
        (.function .declaration (some id) false isGenerator isAsync (plain ++ last.toList) body)
  | functionExpression {id : Option Node} {body : Node} {isGenerator isAsync : Bool}
      {plain : List Node} {last : Option Node} (isName : ∀ node ∈ id, Conforms .name node)
      (params : ∀ node ∈ plain, Conforms .param node) (rest : ∀ node ∈ last, Conforms .rest node)
      (inner : Conforms .block body) :
      Conforms .function
        (.function .expression id false isGenerator isAsync (plain ++ last.toList) body)
  | arrowWithBlock {body : Node} {isAsync : Bool} {plain : List Node} {last : Option Node}
      (params : ∀ node ∈ plain, Conforms .param node) (rest : ∀ node ∈ last, Conforms .rest node)
      (inner : Conforms .block body) :
      Conforms .expression
        (.function .arrow none false false isAsync (plain ++ last.toList) body)
  | arrowWithValue {body : Node} {isAsync : Bool} {plain : List Node} {last : Option Node}
      (params : ∀ node ∈ plain, Conforms .param node) (rest : ∀ node ∈ last, Conforms .rest node)
      (value : Conforms .expression body) :
      Conforms .expression
        (.function .arrow none true false isAsync (plain ++ last.toList) body)
  | namedParam {node : Node} (isName : Conforms .name node) : Conforms .param node
  | assignmentPattern {left right : Node} (isName : Conforms .name left)
      (value : Conforms .expression right) : Conforms .param (.assignmentPattern left right)
  | restElement {argument : Node} (isName : Conforms .name argument) :
      Conforms .rest (.restElement argument)
  -- Classes.
  | classDeclaration {id body : Node} {superClass : Option Node} (isName : Conforms .name id)
      (parent : ∀ node ∈ superClass, Conforms .expression node)
      (inner : Conforms .classBody body) :
      Conforms .statement (.classNode .declaration (some id) superClass body)
  | classExpression {id superClass : Option Node} {body : Node}
      (isName : ∀ node ∈ id, Conforms .name node)
      (parent : ∀ node ∈ superClass, Conforms .expression node)
      (inner : Conforms .classBody body) :
      Conforms .expression (.classNode .expression id superClass body)
  | classBody {methods : List Node} (all : ∀ node ∈ methods, Conforms .method node) :
      Conforms .classBody (.classBody methods)
  | methodDefinition {isStatic isComputed : Bool} {key value : Node} {kind : MethodKind}
      (isKey : Conforms (.key isComputed) key) (isFunction : Conforms .function value) :
      Conforms .method (.methodDefinition isStatic isComputed key kind value)
  -- Names, literals and keys.
  | identifier {name : String} : Conforms .name (.identifier name)
  | literal {literal : Literal} : Conforms .literal (.literal literal)
  | computedKey {node : Node} (isExpression : Conforms .expression node) :
      Conforms (.key true) node
  | namedKey {node : Node} (isName : Conforms .name node) : Conforms (.key false) node
  | literalKey {node : Node} (isLiteral : Conforms .literal node) : Conforms (.key false) node
  -- Expressions.
  | nameValue {node : Node} (isName : Conforms .name node) : Conforms .expression node
  | literalValue {node : Node} (isLiteral : Conforms .literal node) : Conforms .expression node
  | functionValue {node : Node} (isFunction : Conforms .function node) : Conforms .expression node
  | templateValue {node : Node} (isTemplate : Conforms .template node) : Conforms .expression node
  | thisExpression : Conforms .expression .thisExpression
  | super : Conforms .expression .super
  | arrayExpression {elements : List (Option Node)}
      (all : ∀ node, some node ∈ elements → Conforms .element node) :
      Conforms .expression (.arrayExpression elements)
  | expressionElement {node : Node} (isExpression : Conforms .expression node) :
      Conforms .element node
  | spreadInElements {node : Node} (isSpread : Conforms .spread node) : Conforms .element node
  | objectExpression {properties : List Node}
      (all : ∀ node ∈ properties, Conforms .property node) :
      Conforms .expression (.objectExpression properties)
  | property {isMethod isShorthand isComputed : Bool} {key value : Node} {kind : PropertyKind}
      (isKey : Conforms (.key isComputed) key) (isValue : Conforms .expression value) :
      Conforms .property (.property isMethod isShorthand isComputed key value kind)
  | spreadInProperties {node : Node} (isSpread : Conforms .spread node) : Conforms .property node
  | spreadElement {argument : Node} (value : Conforms .expression argument) :
      Conforms .spread (.spreadElement argument)
  | templateLiteral {quasis expressions : List Node} {last : Node}
      (texts : ∀ node ∈ quasis, Conforms (.quasi false) node) (tail : Conforms (.quasi true) last)
      (size : quasis.length = expressions.length)
      (holes : ∀ node ∈ expressions, Conforms .expression node) :
      Conforms .template (.templateLiteral (quasis ++ [last]) expressions)
  | templateElement {value : TemplateText} {isTail : Bool} :
      Conforms (.quasi isTail) (.templateElement value isTail)
  | taggedTemplate {tag quasi : Node} (value : Conforms .expression tag)
      (isTemplate : Conforms .template quasi) :
      Conforms .expression (.taggedTemplateExpression tag quasi)
  | unaryExpression {operator : String} {isPrefix : Bool} {argument : Node}
      (operand : Conforms .expression argument) :
      Conforms .expression (.unaryExpression operator isPrefix argument)
  | updateExpression {operator : String} {isPrefix : Bool} {argument : Node}
      (operand : Conforms .expression argument) :
      Conforms .expression (.updateExpression operator isPrefix argument)
  | binaryExpression {left right : Node} {operator : String}
      (first : Conforms .expression left) (second : Conforms .expression right) :
      Conforms .expression (.binaryExpression left operator right)
  | logicalExpression {left right : Node} {operator : String}
      (first : Conforms .expression left) (second : Conforms .expression right) :
      Conforms .expression (.logicalExpression left operator right)
  | assignmentExpression {left right : Node} {operator : String}
      (target : Conforms .expression left) (value : Conforms .expression right) :
      Conforms .expression (.assignmentExpression operator left right)
  | conditionalExpression {test consequent alternate : Node}
      (condition : Conforms .expression test) (first : Conforms .expression consequent)
      (second : Conforms .expression alternate) :
      Conforms .expression (.conditionalExpression test consequent alternate)
  | callExpression {callee : Node} {arguments : List Node} {isOptional : Bool}
      (called : Conforms .expression callee)
      (all : ∀ node ∈ arguments, Conforms .element node) :
      Conforms .expression (.callExpression callee arguments isOptional)
  | newExpression {callee : Node} {arguments : List Node} (called : Conforms .expression callee)
      (all : ∀ node ∈ arguments, Conforms .element node) :
      Conforms .expression (.newExpression callee arguments)
  | memberExpression {object property : Node} {isOptional : Bool}
      (operand : Conforms .expression object) (isName : Conforms .name property) :
      Conforms .expression (.memberExpression object property false isOptional)
  | computedMember {object property : Node} {isOptional : Bool}
      (operand : Conforms .expression object) (value : Conforms .expression property) :
      Conforms .expression (.memberExpression object property true isOptional)
  | sequenceExpression {expressions : List Node} (size : 2 ≤ expressions.length)
      (all : ∀ node ∈ expressions, Conforms .expression node) :
      Conforms .expression (.sequenceExpression expressions)
  | awaitExpression {argument : Node} (value : Conforms .expression argument) :
      Conforms .expression (.awaitExpression argument)

/-! ## Types and slots -/

/-- The narrowest slot for nodes of a type. -/
def Node.home : Node → Slot
  | .program .. => .program
  | .blockStatement .. => .block
  | .variableDeclaration .. => .declaration
  | .expressionStatement .. | .emptyStatement | .debuggerStatement | .ifStatement ..
  | .returnStatement .. | .whileStatement .. | .doWhileStatement .. | .forStatement ..
  | .forInStatement .. | .forOfStatement .. | .breakStatement .. | .continueStatement ..
  | .throwStatement .. | .tryStatement .. | .switchStatement .. | .labeledStatement ..
  | .function .declaration .. | .classNode .declaration .. => .statement
  | .variableDeclarator .. => .declarator
  | .catchClause .. => .handler
  | .switchCase .. => .case
  | .classBody .. => .classBody
  | .methodDefinition .. => .method
  | .property .. => .property
  | .spreadElement .. => .spread
  | .restElement .. => .rest
  | .assignmentPattern .. => .param
  | .templateElement _ isTail => .quasi isTail
  | .identifier .. => .name
  | .literal .. => .literal
  | .function .expression .. => .function
  | .templateLiteral .. => .template
  | _ => .expression

def Slot.takes : Slot → List Slot
  | .statement => [.statement, .block, .declaration]
  | .expression => expressions
  | .loopStart => .declaration :: expressions
  | .element => .spread :: expressions
  | .key true => expressions
  | .key false => [.name, .literal]
  | .property => [.property, .spread]
  | .param => [.param, .name]
  | slot => [slot]
where
  /-- Slots for expressions. -/
  expressions : List Slot := [.expression, .name, .literal, .function, .template]

/-- The type of a node that conforms to a slot belongs there. -/
theorem Conforms.home_mem {slot : Slot} {node : Node} (conforms : Conforms slot node) :
    node.home ∈ slot.takes := by
  have widen {narrow wide : Slot} {home : Slot} (subset : narrow.takes ⊆ wide.takes)
      (isIn : home ∈ narrow.takes) : home ∈ wide.takes :=
    subset isIn
  induction conforms with
  | block _ ih | declaration _ ih | declaredStart _ ih | expressionStart _ ih | namedParam _ ih
  | computedKey _ ih | namedKey _ ih | literalKey _ ih | nameValue _ ih | literalValue _ ih
  | functionValue _ ih | templateValue _ ih | expressionElement _ ih | spreadInElements _ ih
  | spreadInProperties _ ih => exact widen (by decide) ih
  | _ => exact List.mem_cons_self

end Estree

end ScriptTree
