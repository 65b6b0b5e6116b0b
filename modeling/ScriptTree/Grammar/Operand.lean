import ScriptTree.Grammar.Function
import ScriptTree.Recognizer.Template

/-!
# Operands

Names, literals, functions, classes and parenthesized expressions, and the
member accesses, calls and templates that can follow them.
-/

namespace ScriptTree

namespace Grammar

/-! ## Lists between brackets -/

def spreadAfter (descent : Descent) (dots : SyntaxTree) : Parse SyntaxTree := do
  return build .spread [dots, ← descent.read .assignment]

def element (descent : Descent) : Parse SyntaxTree := do
  match ← accept? .ellipsis with
  | some dots => spreadAfter descent dots
  | none => descent.read .assignment

def arguments (descent : Descent) : Parse SyntaxTree :=
  Parse.withIn do
    let opening ← expect .leftParen
    let trees ← collect descent #[opening] fun trees => do
      if ← nextIs .rightParen then
        return .done trees
      let trees := trees.push (← element descent)
      match ← accept? .comma with
      | some comma => return .again (trees.push comma)
      | none => return .done trees
    let closing ← expect .rightParen
    return build .argList (trees.push closing).toList

/-- An array literal.  Commas are kept, so that a hole shows as a comma that
follows no element. -/
def array (descent : Descent) : Parse SyntaxTree :=
  Parse.withIn do
    let opening ← expect .leftBracket
    let trees ← collect descent #[opening] fun trees => do
      if ← nextIs .rightBracket then
        return .done trees
      match ← accept? .comma with
      | some comma => return .again (trees.push comma)
      | none =>
          let trees := trees.push (← element descent)
          if ← nextIs .rightBracket then
            return .again trees
          else
            return .again (trees.push (← expect .comma))
    let closing ← expect .rightBracket
    return build .arrayExpression (trees.push closing).toList

/-- Whether the only child of a property can stand for a variable too. -/
def isShorthand (source : Text) (children : List SyntaxTree) : Bool :=
  match children.head? with
  | some key =>
      key.label == .rule .propertyDefinition &&
        (key.span.text? source).any fun name => (Keyword.ofChars? name).isNone
  | none => false

/-- One entry of an object literal: a value under a key, a method, or a
variable that is its own key. -/
def property (descent : Descent) : Parse SyntaxTree := do
  let modifiers ← methodModifiers false
  let key ← propertyKey descent
  let children := modifiers.trees ++ key
  let isMethod ← if modifiers.forceMethod then pure true else nextIs .leftParen
  if isMethod then
    let rest ← methodRest descent modifiers.isAsync
    return build .property (children ++ rest)
  match ← accept? .colon with
  | some colon =>
      return build .property (children ++ [colon, ← descent.read .assignment])
  | none =>
      if isShorthand (← Parse.settings).source children then
        return build .property children
      else
        failAt (← peek) (.spelling (.punctuator .colon))

def object (descent : Descent) : Parse SyntaxTree :=
  Parse.withIn do
    let opening ← expect .leftBrace
    let trees ← collect descent #[opening] fun trees => do
      if ← nextIs .rightBrace then
        return .done trees
      let entry ← match ← accept? .ellipsis with
        | some dots => spreadAfter descent dots
        | none => property descent
      let trees := trees.push entry
      match ← accept? .comma with
      | some comma => return .again (trees.push comma)
      | none => return .done trees
    let closing ← expect .rightBrace
    return build .objectExpression (trees.push closing).toList

/-- An expression between parentheses. -/
def parenthesized (descent : Descent) : Parse SyntaxTree :=
  Parse.withIn do
    let opening ← expect .leftParen
    let inner ← descent.read .expression
    let closing ← expect .rightParen
    return build .parenthesizedExpression [opening, inner, closing]

/-! ## Templates -/

/-- Consumes text up to an offset as a leaf, without scanning a token. -/
def chunk (kind : Kind) (stop : Nat) (patternAllowed : Bool) : Parse SyntaxTree := do
  let state ← Parse.state
  Parse.modify (·.moveTo (state.place.moveTo stop) patternAllowed)
  return .leaf kind ⟨state.place.offset, stop⟩

def template (descent : Descent) : Parse SyntaxTree := do
  let opening ← expect .backtick
  let trees ← collect descent #[opening] fun trees => do
    let settings ← Parse.settings
    let state ← Parse.state
    match (Recognizer.template (Probe.ofPlace settings.size state.place)).verdict with
    | some ⟨.templateText, stop⟩ =>
        return .again (trees.push (← chunk (.rule .templateContent) stop false))
    | some ⟨.holeOpen, stop⟩ =>
        let hole ← chunk (.fixed .holeOpen) stop true
        let inner ← Parse.withIn (descent.read .expression)
        let closing ← expect .rightBrace
        return .again (((trees.push hole).push inner).push closing)
    | some ⟨.templateEnd, stop⟩ =>
        return .done (trees.push (← chunk (.fixed (.punctuator .backtick)) stop false))
    | _ =>
        Parse.fail ⟨.unterminatedTemplate, ⟨opening.span.start, state.place.offset⟩⟩
  return build .templateString trees.toList

/-! ## Primary expressions -/

/-- A name, or an asynchronous function if the name is its modifier. -/
def nameOrFunction (descent : Descent) : Parse SyntaxTree := do
  if ← nextIsWord .asyncWord then
    let second ← peekSecond
    if second.isKeyword .functionWord && (← continues second) then
      let modifier ← expectWord .asyncWord
      return ← function descent .functionExpression (some modifier)
  named .variableName

/-- An operand without anything following it. -/
def primary (descent : Descent) : Parse SyntaxTree := do
  let token ← peek
  match token.kind with
  | .identifier => nameOrFunction descent
  | .number => named .number
  | .string => named .string
  | .pattern => named .regExp
  | .keyword .functionWord => function descent .functionExpression none
  | .keyword .classWord => classDefinition descent .classExpression
  | .punctuator .leftParen => parenthesized descent
  | .punctuator .leftBracket => array descent
  | .punctuator .leftBrace => object descent
  | .punctuator .backtick => template descent
  | _ => failAt token .expression

/-- A name after a dot, where reserved words are allowed. -/
def memberName : Parse SyntaxTree := do
  let token ← peek
  match token.kind with
  | .identifier | .keyword _ => named .propertyName
  | _ => failAt token .propertyName

/-- One more access, call or template after an operand, if there is one.  A
call is left alone after `new`. -/
def memberStep (descent : Descent) (allowCall : Bool) (operand : SyntaxTree) :
    Parse (Round SyntaxTree SyntaxTree) := do
  let token ← peek
  match token.kind with
  | .punctuator .dot =>
      let dot ← spelled (.punctuator .dot)
      return .again (build .memberExpression [operand, dot, ← memberName])
  | .punctuator .leftBracket =>
      let opening ← spelled (.punctuator .leftBracket)
      let key ← Parse.withIn (descent.read .expression)
      let closing ← expect .rightBracket
      return .again (build .memberExpression [operand, opening, key, closing])
  | .punctuator .leftParen =>
      if allowCall then
        return .again (build .callExpression [operand, ← arguments descent])
      else
        return .done operand
  | .punctuator .backtick =>
      return .again (build .taggedTemplateExpression [operand, ← template descent])
  | _ => return .done operand

def memberChain (descent : Descent) (allowCall : Bool) (operand : SyntaxTree) :
    Parse SyntaxTree :=
  iterate (memberStep descent allowCall) descent.rounds operand

/-- An operand that starts with `new`.  The first parentheses after it hold
its arguments. -/
def construction (descent : Descent) : Parse SyntaxTree :=
  Parse.nested do
    let keyword ← expectKeyword .newWord
    let base ←
      if ← nextIsKeyword .newWord then descent.read .construction else primary descent
    let callee ← memberChain descent false base
    if ← nextIs .leftParen then
      return build .newExpression [keyword, callee, ← arguments descent]
    else
      return build .newExpression [keyword, callee]

def leftHandSide (descent : Descent) : Parse SyntaxTree := do
  let base ← if ← nextIsKeyword .newWord then construction descent else primary descent
  memberChain descent true base

end Grammar

end ScriptTree
