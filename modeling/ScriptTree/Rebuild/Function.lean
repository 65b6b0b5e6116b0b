import ScriptTree.Rebuild.Arguments

/-!
# Functions, methods and classes
-/

namespace ScriptTree

open Estree

namespace Rebuild

/-! ## Functions -/

/-- A function declaration or expression. -/
def function (form : FunctionForm) : Take Fragment := do
  let isAsync ← Take.eat "async"
  Take.expect "function"
  let isGenerator ← Take.eat "*"
  let id ← Take.node?
  let params ← Take.list "parameter list"
  let body ← Take.node "function body"
  return .node (.function form id false isGenerator isAsync params body)

def isBlock : Node → Bool
  | .blockStatement _ => true
  | _ => false

/-- An arrow function.  A single name stands for a list of one parameter. -/
def arrowFunction : Take Fragment := do
  let isAsync ← Take.eat "async"
  let params ← match ← Take.next with
    | some (.list params) => pure params
    | some (.node param) => pure [param]
    | _ => Take.mismatch .notArrowParameters
  Take.expect "=>"
  let body ← Take.node "arrow body"
  return .node (.function .arrow none (!isBlock body) false isAsync params body)

def parameter (params : Array Node) : Take (Array Node) := do
  if ← Take.eat "," then
    return params
  else if ← Take.eat "..." then
    return params.push (.restElement (← Take.node "rest parameter"))
  else
    let param ← Take.node "parameter"
    if ← Take.eat "=" then
      return params.push (.assignmentPattern param (← Take.node "default value"))
    else
      return params.push param

def paramList : Take Fragment := do
  Take.expect "("
  return .list (← Take.untilToken ")" #[] parameter).toList

/-! ## Methods -/

structure MethodModifiers where
  isAsync : Bool
  accessor : Option PropertyKind
  isGenerator : Bool

namespace MethodModifiers

def take : Take MethodModifiers := do
  if ← Take.eat "async" then
    return ⟨true, none, ← Take.eat "*"⟩
  else if ← Take.eat "get" then
    return ⟨false, some .get, ← Take.eat "*"⟩
  else if ← Take.eat "set" then
    return ⟨false, some .set, ← Take.eat "*"⟩
  else
    return ⟨false, none, ← Take.eat "*"⟩

/-- Whether there is a modifier at all. -/
def any (modifiers : MethodModifiers) : Bool :=
  modifiers.isAsync || modifiers.accessor.isSome || modifiers.isGenerator

/-- Takes the parameters and body of a method as a function. -/
def value (modifiers : MethodModifiers) : Take Node := do
  let params ← Take.list "parameter list"
  let body ← Take.node "method body"
  return .function .expression none false modifiers.isGenerator modifiers.isAsync params body

end MethodModifiers

def propertyKey : Take (Node × Bool) := do
  if ← Take.eat "[" then
    let key ← Take.node "computed key"
    Take.expect "]"
    return (key, true)
  else
    return (← Take.node "property key", false)

def nextIsList : Take Bool := do
  match ← Take.peek with
  | some (.list _) => return true
  | _ => return false

/-- An entry of an object literal: a value under a key, a method, an accessor,
or a variable that is its own key. -/
def property : Take Fragment := do
  let modifiers ← MethodModifiers.take
  let (key, isComputed) ← propertyKey
  if ← Take.eat ":" then
    let value ← Take.node "property value"
    return .node (.property false false isComputed key value .init)
  else if modifiers.any || (← nextIsList) then
    let value ← modifiers.value
    match modifiers.accessor with
    | some kind => return .node (.property false false isComputed key value kind)
    | none => return .node (.property true false isComputed key value .init)
  else
    return .node (.property false true isComputed key key .init)

/-! ## Classes -/

def isConstructorKey : Node → Bool
  | .identifier name => name == "constructor"
  | .literal ⟨.string value, _⟩ => value == "constructor"
  | _ => false

def methodKind (isStatic isComputed : Bool) (accessor : Option PropertyKind) (key : Node) :
    MethodKind :=
  match accessor with
  | some .get => .get
  | some .set => .set
  | _ =>
      if !isStatic && !isComputed && isConstructorKey key then .constructor else .method

def methodDeclaration : Take Fragment := do
  let isStatic ← Take.eat "static"
  let modifiers ← MethodModifiers.take
  let (key, isComputed) ← propertyKey
  let value ← modifiers.value
  let kind := methodKind isStatic isComputed modifiers.accessor key
  return .node (.methodDefinition isStatic isComputed key kind value)

def classBody : Take Fragment := do
  Take.expect "\x7b"
  return .node (.classBody (← Take.nodesUntil "\x7d" ";" "method"))

/-- The name of a class, unless its body comes at once. -/
def classId : Take (Option Node) := do
  match ← Take.peek with
  | some (.node (.classBody _)) => return none
  | _ => Take.node?

def classDefinition (form : ClassForm) : Take Fragment := do
  Take.expect "class"
  let id ← classId
  let superClass ←
    if ← Take.eat "extends" then some <$> Take.node "superclass" else pure none
  let body ← Take.node "class body"
  return .node (.classNode form id superClass body)

end Rebuild

end ScriptTree
