import ScriptTree.Grammar.Flow

/-!
# Statements
-/

namespace ScriptTree

namespace Grammar

/-- An expression on its own. -/
def expressionStatement (descent : Descent) : Parse SyntaxTree := do
  let value ← expression descent
  return build .expressionStatement (← terminate [value])

/-- A statement that starts with a name: a label, an asynchronous function or
an expression. -/
def nameStatement (descent : Descent) : Parse SyntaxTree := do
  let token ← peek
  let second ← peekSecond
  if second.isPunctuator .colon then
    let label ← named .label
    let colon ← spelled (.punctuator .colon)
    let body ← descent.read .statement
    return build .labeledStatement [label, colon, body]
  else if token.isWord .asyncWord && second.isKeyword .functionWord && (← continues second) then
    let modifier ← expectWord .asyncWord
    function descent .functionDeclaration (some modifier)
  else
    expressionStatement descent

/-- A return statement, whose value must start in the same line. -/
def returnStatement (descent : Descent) : Parse SyntaxTree := do
  let token ← peek
  if (← Parse.state).inFunction then
    let keyword ← spelled (.keyword .returnWord)
    if ← nextContinues then
      let value ← expression descent
      return build .returnStatement (← terminate [keyword, value])
    else
      return build .returnStatement (← terminate [keyword])
  else
    failAt token .statementOutsideFunction

/-- A jump out of a loop or to its next round, with an optional label in the
same line. -/
def jumpStatement (rule : Rule) (word : Keyword) : Parse SyntaxTree := do
  let keyword ← spelled (.keyword word)
  if (← nextContinues) && (← peek).isIdentifier then
    let label ← named .label
    return build rule (← terminate [keyword, label])
  else
    return build rule (← terminate [keyword])

/-- A throw statement.  No line terminator may stand before its value, not
even inside a comment. -/
def throwStatement (descent : Descent) : Parse SyntaxTree := do
  let keyword ← spelled (.keyword .throwWord)
  let token ← peek
  if ← lineBreakBefore token then
    failAt token .sameLineExpression
  else
    let value ← expression descent
    return build .throwStatement (← terminate [keyword, value])

def keywordStatement (descent : Descent) (word : Keyword) : Parse SyntaxTree :=
  match word with
  | .varWord | .letWord | .constWord => declaration descent word
  | .functionWord => function descent .functionDeclaration none
  | .classWord => classDefinition descent .classDeclaration
  | .ifWord => ifStatement descent
  | .whileWord => whileStatement descent
  | .doWord => doStatement descent
  | .forWord => forStatement descent
  | .tryWord => tryStatement descent
  | .switchWord => switchStatement descent
  | .returnWord => returnStatement descent
  | .breakWord => jumpStatement .breakStatement .breakWord
  | .continueWord => jumpStatement .continueStatement .continueWord
  | .throwWord => throwStatement descent
  | .debuggerWord => do
      let keyword ← spelled (.keyword .debuggerWord)
      return build .debuggerStatement (← terminate [keyword])
  | _ => expressionStatement descent

/-- Any statement. -/
def statement (descent : Descent) : Parse SyntaxTree :=
  Parse.nested do
    let token ← peek
    match token.kind with
    | .punctuator .leftBrace => block descent
    | .punctuator .semicolon =>
        return build .emptyStatement [← spelled (.punctuator .semicolon)]
    | .keyword word => keywordStatement descent word
    | .identifier => nameStatement descent
    | _ => expressionStatement descent

end Grammar

end ScriptTree
