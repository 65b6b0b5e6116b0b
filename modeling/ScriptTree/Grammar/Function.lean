import ScriptTree.Grammar.Descent
import ScriptTree.Grammar.Terminator

/-!
# Functions and methods

Parameter lists, function bodies, and the parts that methods of classes and
of object literals have in common.
-/

namespace ScriptTree

namespace Grammar

/-- One parameter, or the rest parameter, which must be the last. -/
def parameter (descent : Descent) (trees : Array SyntaxTree) :
    Parse (Round (Array SyntaxTree) (Array SyntaxTree)) := do
  if ← nextIs .rightParen then
    return .done trees
  match ← accept? .ellipsis with
  | some dots =>
      return .done ((trees.push dots).push (← expectName .variableDefinition))
  | none =>
      let mut trees := trees.push (← expectName .variableDefinition)
      if ← nextIs .equals then
        trees := trees.push (← named .equals)
        trees := trees.push (← descent.read .assignment)
      match ← accept? .comma with
      | some comma => return .again (trees.push comma)
      | none => return .done trees

def parameters (descent : Descent) : Parse SyntaxTree :=
  Parse.withIn do
    let opening ← expect .leftParen
    let trees ← collect descent #[opening] (parameter descent)
    let closing ← expect .rightParen
    return build .paramList (trees.push closing).toList

/-- Statements between braces. -/
def block (descent : Descent) : Parse SyntaxTree := do
  let opening ← expect .leftBrace
  let trees ← collect descent #[opening] fun trees => do
    let token ← peek
    if token.isPunctuator .rightBrace then
      return .done trees
    else if token.isEnd then
      failAt token (.spelling (.punctuator .rightBrace))
    else
      return .again (trees.push (← descent.read .statement))
  let closing ← expect .rightBrace
  return build .block (trees.push closing).toList

def functionBody (descent : Descent) (isAsync : Bool) : Parse SyntaxTree :=
  Parse.inFunctionBody isAsync (block descent)

/-- The name of a function, which only an expression can do without. -/
def functionName (rule : Rule) : Parse (List SyntaxTree) := do
  let token ← peek
  if token.isIdentifier then
    return [← named .variableDefinition]
  else if rule = .functionDeclaration then
    failAt token .functionName
  else
    return []

/-- A function declaration or expression, after its modifier if it has one. -/
def function (descent : Descent) (rule : Rule) (modifier : Option SyntaxTree) :
    Parse SyntaxTree :=
  Parse.nested do
    let keyword ← expectKeyword .functionWord
    let star ← if ← nextIs .star then some <$> named .star else pure none
    let name ← functionName rule
    let inputs ← parameters descent
    let body ← functionBody descent modifier.isSome
    return build rule (modifier.toList ++ keyword :: (star.toList ++ name ++ [inputs, body]))

/-! ## Methods -/

/-- What the words before the key of a method say. -/
structure Modifiers where
  trees : List SyntaxTree
  isAsync : Bool
  isAccessor : Bool
  isGenerator : Bool

namespace Modifiers

def forceMethod (modifiers : Modifiers) : Bool :=
  modifiers.isAsync || modifiers.isAccessor || modifiers.isGenerator

end Modifiers

def startsKey (token : Token) : Bool :=
  match token.kind with
  | .identifier | .keyword _ | .string | .number => true
  | .punctuator .leftBracket | .punctuator .star => true
  | _ => false

/-- Whether the next token is the given word used as a modifier, that is, in
front of a key. -/
def nextIsModifier (word : ContextualWord) (sameLine : Bool) : Parse Bool := do
  if ← nextIsWord word then
    let second ← peekSecond
    if startsKey second then
      if sameLine then continues second else return true
    else
      return false
  else
    return false

/-- Consumes a modifier word if it comes next. -/
def modifier? (word : ContextualWord) (sameLine : Bool) : Parse (Option SyntaxTree) := do
  if ← nextIsModifier word sameLine then
    return some (← expectWord word)
  else
    return none

/-- The word for an asynchronous method or an accessor, and whether it is the
former and whether the latter. -/
def leadingWord : Parse (Option SyntaxTree × Bool × Bool) := do
  match ← modifier? .asyncWord true with
  | some word => return (some word, true, false)
  | none =>
      match ← modifier? .getWord false with
      | some word => return (some word, false, true)
      | none =>
          match ← modifier? .setWord false with
          | some word => return (some word, false, true)
          | none => return (none, false, false)

def methodModifiers (allowStatic : Bool) : Parse Modifiers := do
  let static ← if allowStatic then modifier? .staticWord false else pure none
  let (word, isAsync, isAccessor) ← leadingWord
  let star ←
    if isAccessor then pure none
    else if ← nextIs .star then some <$> named .star
    else pure none
  return ⟨static.toList ++ word.toList ++ star.toList, isAsync, isAccessor, star.isSome⟩

def propertyKey (descent : Descent) : Parse (List SyntaxTree) := do
  let token ← peek
  match token.kind with
  | .identifier | .keyword _ => return [← named .propertyDefinition]
  | .string => return [← named .string]
  | .number => return [← named .number]
  | .punctuator .leftBracket =>
      let opening ← spelled (.punctuator .leftBracket)
      let key ← Parse.withIn (descent.read .assignment)
      let closing ← expect .rightBracket
      return [opening, key, closing]
  | _ => failAt token .propertyName

def methodRest (descent : Descent) (isAsync : Bool) : Parse (List SyntaxTree) := do
  let inputs ← parameters descent
  let body ← functionBody descent isAsync
  return [inputs, body]

/-! ## Classes -/

def isExtends (token : Token) : Bool :=
  token.isKeyword .extendsWord || (token.isIdentifier && token.text == Keyword.extendsWord.chars)

/-- The name of a class, which only an expression can do without. -/
def className (rule : Rule) : Parse (List SyntaxTree) := do
  let token ← peek
  if token.isIdentifier && !isExtends token then
    return [← named .variableDefinition]
  else if rule = .classDeclaration then
    failAt token .className
  else
    return []

/-- The class another one extends. -/
def heritage (descent : Descent) : Parse (List SyntaxTree) := do
  if isExtends (← peek) then
    let keyword ← spelled (.keyword .extendsWord)
    return [keyword, ← descent.read .leftHandSide]
  else
    return []

def method (descent : Descent) : Parse SyntaxTree := do
  let modifiers ← methodModifiers true
  let key ← propertyKey descent
  let rest ← methodRest descent modifiers.isAsync
  return build .methodDeclaration (modifiers.trees ++ key ++ rest)

def classBody (descent : Descent) : Parse SyntaxTree :=
  Parse.withIn do
    let opening ← expect .leftBrace
    let trees ← collect descent #[opening] fun trees => do
      if ← nextIs .rightBrace then
        return .done trees
      match ← accept? .semicolon with
      | some semicolon => return .again (trees.push semicolon)
      | none => return .again (trees.push (← method descent))
    let closing ← expect .rightBrace
    return build .classBody (trees.push closing).toList

def classDefinition (descent : Descent) (rule : Rule) : Parse SyntaxTree :=
  Parse.nested do
    let keyword ← expectKeyword .classWord
    let name ← className rule
    let parent ← heritage descent
    let body ← classBody descent
    return build rule (keyword :: (name ++ parent ++ [body]))

end Grammar

end ScriptTree
