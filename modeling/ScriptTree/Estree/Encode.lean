import ScriptTree.Estree.Node
import ScriptTree.Json

/-!
# ESTree nodes as JSON

A node is an object with its type and the fields of the format.  What is
missing is written as null, but the extra fields of a literal are left out.
-/

namespace ScriptTree

namespace LiteralValue

/-- Integers up to this magnitude are written as integers. -/
def greatestInteger : Nat := Nat.pow 2 53

/-- A number: an integer where it is one of moderate size, null where it is
not finite. -/
def encodeNumber (value : Binary64) : Json :=
  match value.toInt? with
  | some integer =>
      if integer.natAbs ≤ greatestInteger then .integer integer else .number value
  | none => if value.isFinite then .number value else .null

/-- The value of a literal, or null where JSON has none. -/
def encode : LiteralValue → Json
  | .null | .bigint .. | .regExp .. => .null
  | .boolean value => .bool value
  | .number value => encodeNumber value
  | .string value => .string value

/-- The fields that only some literals have. -/
def encodeExtra : LiteralValue → List (String × Json)
  | .bigint _ digits => [("bigint", .string digits)]
  | .regExp pattern flags =>
      [("regex", .object [("pattern", .string pattern), ("flags", .string flags)])]
  | _ => []

end LiteralValue

namespace Literal

def encodeFields (literal : Literal) : List (String × Json) :=
  [("value", literal.value.encode), ("raw", .string literal.raw)] ++ literal.value.encodeExtra

end Literal

namespace TemplateText

/-- The two forms of template text as an object. -/
def encode (text : TemplateText) : Json :=
  .object [("raw", .string text.raw), ("cooked", Json.ofString? text.cooked)]

end TemplateText

namespace Estree

namespace SourceType

/-- The name of a source type. -/
def name : SourceType → String
  | .script => "script"
  | .module => "module"

end SourceType

namespace VariableKind

/-- The name of a kind of declaration. -/
def name : VariableKind → String
  | .var => "var"
  | .letKind => "let"
  | .const => "const"

end VariableKind

namespace PropertyKind

/-- The name of a kind of property. -/
def name : PropertyKind → String
  | .init => "init"
  | .get => "get"
  | .set => "set"

end PropertyKind

namespace MethodKind

/-- The name of a kind of method. -/
def name : MethodKind → String
  | .constructor => "constructor"
  | .method => "method"
  | .get => "get"
  | .set => "set"

end MethodKind

namespace Node

/-- An object with the type of a node and the given fields. -/
def typed (node : Node) (fields : List (String × Json)) : Json :=
  .object (("type", .string node.typeName) :: fields)

mutual

/-- A node as a JSON object. -/
def encode : Node → Json
  | node@(.program body sourceType) =>
      typed node [("body", .array (encodeAll body)), ("sourceType", .string sourceType.name)]
  | node@(.expressionStatement expression) => typed node [("expression", encode expression)]
  | node@(.blockStatement body) => typed node [("body", .array (encodeAll body))]
  | .emptyStatement => typed .emptyStatement []
  | .debuggerStatement => typed .debuggerStatement []
  | .thisExpression => typed .thisExpression []
  | .super => typed .super []
  | node@(.ifStatement test consequent alternate) =>
      typed node
        [("test", encode test), ("consequent", encode consequent),
          ("alternate", encodeOptional alternate)]
  | node@(.returnStatement argument) => typed node [("argument", encodeOptional argument)]
  | node@(.whileStatement test body) => typed node [("test", encode test), ("body", encode body)]
  | node@(.doWhileStatement body test) =>
      typed node [("body", encode body), ("test", encode test)]
  | node@(.forStatement init test update body) =>
      typed node
        [("init", encodeOptional init), ("test", encodeOptional test),
          ("update", encodeOptional update), ("body", encode body)]
  | node@(.forInStatement left right body) =>
      typed node [("left", encode left), ("right", encode right), ("body", encode body)]
  | node@(.forOfStatement isAwait left right body) =>
      typed node
        [("await", .bool isAwait), ("left", encode left), ("right", encode right),
          ("body", encode body)]
  | node@(.breakStatement label) => typed node [("label", encodeOptional label)]
  | node@(.continueStatement label) => typed node [("label", encodeOptional label)]
  | node@(.throwStatement argument) => typed node [("argument", encode argument)]
  | node@(.tryStatement block handler finalizer) =>
      typed node
        [("block", encode block), ("handler", encodeOptional handler),
          ("finalizer", encodeOptional finalizer)]
  | node@(.catchClause param body) =>
      typed node [("param", encodeOptional param), ("body", encode body)]
  | node@(.switchStatement discriminant cases) =>
      typed node [("discriminant", encode discriminant), ("cases", .array (encodeAll cases))]
  | node@(.switchCase test consequent) =>
      typed node [("test", encodeOptional test), ("consequent", .array (encodeAll consequent))]
  | node@(.labeledStatement label body) =>
      typed node [("label", encode label), ("body", encode body)]
  | node@(.variableDeclaration declarations kind) =>
      typed node [("declarations", .array (encodeAll declarations)), ("kind", .string kind.name)]
  | node@(.variableDeclarator id init) =>
      typed node [("id", encode id), ("init", encodeOptional init)]
  | node@(.function _ id isExpression isGenerator isAsync params body) =>
      typed node
        [("id", encodeOptional id), ("expression", .bool isExpression),
          ("generator", .bool isGenerator), ("async", .bool isAsync),
          ("params", .array (encodeAll params)), ("body", encode body)]
  | node@(.classNode _ id superClass body) =>
      typed node
        [("id", encodeOptional id), ("superClass", encodeOptional superClass),
          ("body", encode body)]
  | node@(.classBody body) => typed node [("body", .array (encodeAll body))]
  | node@(.methodDefinition isStatic isComputed key kind value) =>
      typed node
        [("static", .bool isStatic), ("computed", .bool isComputed), ("key", encode key),
          ("kind", .string kind.name), ("value", encode value)]
  | node@(.identifier name) => typed node [("name", .string name)]
  | node@(.literal value) => typed node value.encodeFields
  | node@(.arrayExpression elements) => typed node [("elements", .array (encodeHoles elements))]
  | node@(.objectExpression properties) =>
      typed node [("properties", .array (encodeAll properties))]
  | node@(.property isMethod isShorthand isComputed key value kind) =>
      typed node
        [("method", .bool isMethod), ("shorthand", .bool isShorthand),
          ("computed", .bool isComputed), ("key", encode key), ("value", encode value),
          ("kind", .string kind.name)]
  | node@(.spreadElement argument) => typed node [("argument", encode argument)]
  | node@(.restElement argument) => typed node [("argument", encode argument)]
  | node@(.assignmentPattern left right) =>
      typed node [("left", encode left), ("right", encode right)]
  | node@(.templateLiteral quasis expressions) =>
      typed node
        [("quasis", .array (encodeAll quasis)), ("expressions", .array (encodeAll expressions))]
  | node@(.templateElement value isTail) =>
      typed node [("value", value.encode), ("tail", .bool isTail)]
  | node@(.taggedTemplateExpression tag quasi) =>
      typed node [("tag", encode tag), ("quasi", encode quasi)]
  | node@(.unaryExpression operator isPrefix argument) =>
      typed node
        [("operator", .string operator), ("prefix", .bool isPrefix),
          ("argument", encode argument)]
  | node@(.updateExpression operator isPrefix argument) =>
      typed node
        [("operator", .string operator), ("prefix", .bool isPrefix),
          ("argument", encode argument)]
  | node@(.binaryExpression left operator right) =>
      typed node [("left", encode left), ("operator", .string operator), ("right", encode right)]
  | node@(.logicalExpression left operator right) =>
      typed node [("left", encode left), ("operator", .string operator), ("right", encode right)]
  | node@(.assignmentExpression operator left right) =>
      typed node [("operator", .string operator), ("left", encode left), ("right", encode right)]
  | node@(.conditionalExpression test consequent alternate) =>
      typed node
        [("test", encode test), ("consequent", encode consequent),
          ("alternate", encode alternate)]
  | node@(.callExpression callee arguments isOptional) =>
      typed node
        [("callee", encode callee), ("arguments", .array (encodeAll arguments)),
          ("optional", .bool isOptional)]
  | node@(.newExpression callee arguments) =>
      typed node [("callee", encode callee), ("arguments", .array (encodeAll arguments))]
  | node@(.memberExpression object member isComputed isOptional) =>
      typed node
        [("object", encode object), ("property", encode member),
          ("computed", .bool isComputed), ("optional", .bool isOptional)]
  | node@(.sequenceExpression expressions) =>
      typed node [("expressions", .array (encodeAll expressions))]
  | node@(.awaitExpression argument) => typed node [("argument", encode argument)]

def encodeAll : List Node → List Json
  | [] => []
  | node :: rest => encode node :: encodeAll rest

def encodeOptional : Option Node → Json
  | none => .null
  | some node => encode node

def encodeHoles : List (Option Node) → List Json
  | [] => []
  | element :: rest => encodeOptional element :: encodeHoles rest

end

end Node

end Estree

end ScriptTree
