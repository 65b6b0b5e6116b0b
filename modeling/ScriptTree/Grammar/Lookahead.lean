import ScriptTree.Grammar.State

/-!
# Looking ahead and consuming tokens

The grammar looks at one token before it consumes it, and sometimes at the
one after that.  The first is kept once it has been scanned.
-/

namespace ScriptTree

namespace Grammar

@[inline]
def ofScan (result : Except SyntaxError Token) : Parse Token :=
  fun _ state =>
    match result with
    | .ok token => .ok token state
    | .error fault => .error fault state

/-- The next token. -/
def peek : Parse Token :=
  fun settings state =>
    match state.peeked with
    | some token => .ok token state
    | none =>
        match Token.scan settings.dialect state.place state.patternAllowed with
        | .ok token => .ok token { state with peeked := some token }
        | .error fault => .error fault state

/-- The token after the next one. -/
def peekSecond : Parse Token := do
  let first ← peek
  let settings ← Parse.settings
  ofScan (Token.scan settings.dialect first.stop first.kind.allowsPatternAfter)

/-- Consumes the next token. -/
def advance : Parse Token := do
  let token ← peek
  Parse.modify (·.moveTo token.stop token.kind.allowsPatternAfter)
  return token

/-- Consumes the next token as a leaf with the given label. -/
def leaf (kind : Kind) : Parse SyntaxTree := do
  let token ← advance
  return .leaf kind token.span

/-- The tree of a rule over its children. -/
def build (rule : Rule) (children : List SyntaxTree) : SyntaxTree :=
  .branch (.rule rule) children

/-- Consumes the next token as a leaf labelled by a rule. -/
def named (rule : Rule) : Parse SyntaxTree :=
  leaf (.rule rule)

/-- Consumes the next token as a leaf labelled by its spelling. -/
def spelled (spelling : Spelling) : Parse SyntaxTree :=
  leaf (.fixed spelling)

def unexpected (token : Token) (expected : Expectation) : SyntaxError :=
  if token.isEnd then
    ⟨.unexpectedEnd expected, token.span⟩
  else
    ⟨.unexpectedToken token.text expected, token.span⟩

@[inline]
def failAt {Value : Type} (token : Token) (expected : Expectation) : Parse Value :=
  Parse.fail (unexpected token expected)

/-- Whether the next token is the given punctuator. -/
def nextIs (sign : Punctuator) : Parse Bool := do
  let token ← peek
  return token.isPunctuator sign

/-- Whether the next token is the given keyword. -/
def nextIsKeyword (word : Keyword) : Parse Bool := do
  let token ← peek
  return token.isKeyword word

/-- Whether the next token is the given contextual word. -/
def nextIsWord (word : ContextualWord) : Parse Bool := do
  let token ← peek
  return token.isWord word

/-- Consumes the given punctuator. -/
def expect (sign : Punctuator) : Parse SyntaxTree := do
  let token ← peek
  if token.isPunctuator sign then
    spelled (.punctuator sign)
  else
    failAt token (.spelling (.punctuator sign))

/-- Consumes the given punctuator if it comes next. -/
def accept? (sign : Punctuator) : Parse (Option SyntaxTree) := do
  if ← nextIs sign then
    return some (← spelled (.punctuator sign))
  else
    return none

/-- Consumes the given keyword. -/
def expectKeyword (word : Keyword) : Parse SyntaxTree := do
  let token ← peek
  if token.isKeyword word then
    spelled (.keyword word)
  else
    failAt token (.spelling (.keyword word))

/-- Consumes the given contextual word. -/
def expectWord (word : ContextualWord) : Parse SyntaxTree := do
  let token ← peek
  if token.isWord word then
    spelled (.contextual word)
  else
    failAt token (.spelling (.contextual word))

/-- Consumes a name as a leaf labelled by the given rule. -/
def expectName (rule : Rule) : Parse SyntaxTree := do
  let token ← peek
  if token.isIdentifier then named rule else failAt token .identifier

end Grammar

end ScriptTree
