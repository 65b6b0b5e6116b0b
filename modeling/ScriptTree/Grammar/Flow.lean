import ScriptTree.Grammar.Declaration

/-!
# Conditionals, loops, `try` and `switch`
-/

namespace ScriptTree

namespace Grammar

def ifStatement (descent : Descent) : Parse SyntaxTree := do
  let keyword ← expectKeyword .ifWord
  let test ← parenthesized descent
  let consequent ← descent.read .statement
  if ← nextIsKeyword .elseWord then
    let otherwise ← spelled (.keyword .elseWord)
    let alternate ← descent.read .statement
    return build .ifStatement [keyword, test, consequent, otherwise, alternate]
  else
    return build .ifStatement [keyword, test, consequent]

/-- A loop that tests before each round. -/
def whileStatement (descent : Descent) : Parse SyntaxTree := do
  let keyword ← expectKeyword .whileWord
  let test ← parenthesized descent
  let body ← descent.read .statement
  return build .whileStatement [keyword, test, body]

/-- A loop that tests after each round.  Its semicolon can always be left
out. -/
def doStatement (descent : Descent) : Parse SyntaxTree := do
  let keyword ← expectKeyword .doWord
  let body ← descent.read .statement
  let closing ← expectKeyword .whileWord
  let test ← parenthesized descent
  let semicolon ← accept? .semicolon
  return build .doStatement ([keyword, body, closing, test] ++ semicolon.toList)

/-! ## Heads of `for` loops -/

/-- The rest of a head that goes over keys or values. -/
def iterationRest (descent : Descent) (children : List SyntaxTree) : Parse SyntaxTree := do
  if ← nextIsKeyword .inWord then
    let keyword ← spelled (.keyword .inWord)
    let subject ← Parse.withIn (descent.read .expression)
    let closing ← expect .rightParen
    return build .forInSpec (children ++ [keyword, subject, closing])
  else
    let keyword ← expectWord .ofWord
    let subject ← Parse.withIn (descent.read .assignment)
    let closing ← expect .rightParen
    return build .forOfSpec (children ++ [keyword, subject, closing])

/-- An expression, unless the given punctuator comes at once. -/
def expressionBefore (descent : Descent) (sign : Punctuator) : Parse (List SyntaxTree) := do
  if ← nextIs sign then
    return []
  else
    return [← descent.read .expression]

/-- The rest of a head with a test and an update, from its first semicolon. -/
def countingRest (descent : Descent) (children : List SyntaxTree) : Parse SyntaxTree :=
  Parse.withIn do
    let first ← expect .semicolon
    let test ← expressionBefore descent .semicolon
    let second ← expect .semicolon
    let update ← expressionBefore descent .rightParen
    let closing ← expect .rightParen
    return build .forSpec (children ++ first :: (test ++ second :: (update ++ [closing])))

/-- Whether the next token makes a head go over keys or values. -/
def nextIterates : Parse Bool := do
  let token ← peek
  return token.isKeyword .inWord || token.isWord .ofWord

def declaredHead (descent : Descent) (opening : SyntaxTree) (word : Keyword) :
    Parse SyntaxTree := do
  let keyword ← spelled (.keyword word)
  let name ← expectName .variableDefinition
  if ← nextIterates then
    iterationRest descent [opening, keyword, name]
  else
    let children ← declarationRest descent true #[keyword, name]
    countingRest descent [opening, build .variableDeclaration children]

/-- A head that starts with an expression, which must be assignable if the
loop goes over keys or values. -/
def expressionHead (descent : Descent) (opening : SyntaxTree) : Parse SyntaxTree := do
  let init ← Parse.withNoIn true (expression descent)
  if ← nextIterates then
    if ← assignable init then
      iterationRest descent [opening, init]
    else
      failAt (← peek) (.spelling (.punctuator .semicolon))
  else
    countingRest descent [opening, init]

def forHead (descent : Descent) : Parse SyntaxTree := do
  let opening ← expect .leftParen
  let token ← peek
  if token.isPunctuator .semicolon then
    countingRest descent [opening]
  else
    match declares token.kind with
    | some word => declaredHead descent opening word
    | none => expressionHead descent opening

/-- A `for` loop. -/
def forStatement (descent : Descent) : Parse SyntaxTree := do
  let keyword ← expectKeyword .forWord
  let head ← forHead descent
  let body ← descent.read .statement
  return build .forStatement [keyword, head, body]

/-! ## Exceptions -/

/-- The bound name of a handler between parentheses, if there is one. -/
def handlerBinding : Parse (List SyntaxTree) := do
  match ← accept? .leftParen with
  | none => return []
  | some opening =>
      let name ← expectName .variableDefinition
      let closing ← expect .rightParen
      return [opening, name, closing]

/-- The handler of a `try` statement, if there is one. -/
def handler (descent : Descent) : Parse (List SyntaxTree) := do
  if ← nextIsKeyword .catchWord then
    let keyword ← spelled (.keyword .catchWord)
    let bound ← handlerBinding
    let body ← block descent
    return [build .catchClause (keyword :: (bound ++ [body]))]
  else
    return []

/-- The finalizer of a `try` statement, if there is one. -/
def finalizer (descent : Descent) : Parse (List SyntaxTree) := do
  if ← nextIsKeyword .finallyWord then
    let keyword ← spelled (.keyword .finallyWord)
    let body ← block descent
    return [build .finallyClause [keyword, body]]
  else
    return []

def tryStatement (descent : Descent) : Parse SyntaxTree := do
  let keyword ← expectKeyword .tryWord
  let body ← block descent
  let handled ← handler descent
  let finished ← finalizer descent
  match handled ++ finished with
  | [] => failAt (← peek) .catchOrFinally
  | clauses => return build .tryStatement (keyword :: body :: clauses)

/-! ## Switches -/

def caseLabel (descent : Descent) : Parse SyntaxTree := do
  let keyword ← spelled (.keyword .caseWord)
  let test ← Parse.withIn (descent.read .expression)
  let colon ← expect .colon
  return build .caseLabel [keyword, test, colon]

def defaultLabel : Parse SyntaxTree := do
  let keyword ← spelled (.keyword .defaultWord)
  let colon ← expect .colon
  return build .defaultLabel [keyword, colon]

/-- One label or statement of a switch.  Only the opening brace has been read
before the first label. -/
def switchEntry (descent : Descent) (trees : Array SyntaxTree) :
    Parse (Round (Array SyntaxTree) (Array SyntaxTree)) := do
  let token ← peek
  if token.isPunctuator .rightBrace then
    return .done trees
  else if token.isKeyword .caseWord then
    return .again (trees.push (← caseLabel descent))
  else if token.isKeyword .defaultWord then
    return .again (trees.push (← defaultLabel))
  else if 1 < trees.size && !token.isEnd then
    return .again (trees.push (← descent.read .statement))
  else
    failAt token .caseOrDefault

def switchStatement (descent : Descent) : Parse SyntaxTree := do
  let keyword ← expectKeyword .switchWord
  let subject ← parenthesized descent
  let opening ← expect .leftBrace
  let trees ← collect descent #[opening] (switchEntry descent)
  let closing ← expect .rightBrace
  return build .switchStatement
    [keyword, subject, build .switchBody (trees.push closing).toList]

end Grammar

end ScriptTree
