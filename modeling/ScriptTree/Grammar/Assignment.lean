import ScriptTree.Grammar.Operator

/-!
# Arrow functions and assignments

A parenthesis may open a group or the parameters of an arrow function, and
only the arrow behind it tells which.  The head of an arrow function is
therefore read speculatively.  A rejected head is remembered by its offset, so
that nested groups are not tried again and again.
-/

namespace ScriptTree

namespace Grammar

/-- Whether the next token is the modifier of an asynchronous arrow
function. -/
def startsAsyncHead : Parse Bool := do
  if ← nextIsWord .asyncWord then
    let second ← peekSecond
    if second.isIdentifier || second.isPunctuator .leftParen then
      continues second
    else
      return false
  else
    return false

def mayStartArrow (isAsync : Bool) : Parse Bool := do
  let token ← peek
  if isAsync || token.isPunctuator .leftParen then
    return true
  else if token.isIdentifier then
    return (← peekSecond).isPunctuator .arrow
  else
    return false

/-- The modifier and parameters of an arrow function, provided the arrow
follows. -/
def arrowHead (descent : Descent) (isAsync : Bool) :
    Parse (Option SyntaxTree × SyntaxTree) := do
  let modifier ← if isAsync then some <$> expectWord .asyncWord else pure none
  let inputs ←
    if (← peek).isIdentifier then named .variableDefinition else parameters descent
  let arrow ← peek
  if arrow.isPunctuator .arrow then
    return (modifier, inputs)
  else
    failAt arrow (.spelling (.punctuator .arrow))

def arrowRest (descent : Descent) (modifier : Option SyntaxTree) (inputs : SyntaxTree) :
    Parse SyntaxTree := do
  let arrow ← expect .arrow
  let body ←
    if ← nextIs .leftBrace then
      functionBody descent modifier.isSome
    else
      Parse.withAsync modifier.isSome (descent.read .assignment)
  return build .arrowFunction (modifier.toList ++ [inputs, arrow, body])

def wasRejected (offset : Nat) : Parse Bool := do
  return (← Parse.settings).recallsHeads && (← Parse.state).rejectedHeads.contains offset

def reject (offset : Nat) : Parse Unit :=
  Parse.modify fun state => { state with rejectedHeads := offset :: state.rejectedHeads }

/-- An arrow function, if one starts here. -/
def arrow? (descent : Descent) : Parse (Option SyntaxTree) := do
  let token ← peek
  let isAsync ← startsAsyncHead
  if ← mayStartArrow isAsync then
    if ← wasRejected token.start.offset then
      return none
    match ← Parse.attempt (arrowHead descent isAsync) with
    | some (modifier, inputs) => return some (← arrowRest descent modifier inputs)
    | none =>
        reject token.start.offset
        return none
  else
    return none

def assignmentKind? (kind : TokenKind) : Option Rule :=
  match kind with
  | .punctuator .equals => some .equals
  | .punctuator .plusAssign | .punctuator .minusAssign | .punctuator .starAssign
  | .punctuator .slashAssign | .punctuator .percentAssign | .punctuator .powerAssign
  | .punctuator .shiftLeftAssign | .punctuator .shiftRightAssign
  | .punctuator .shiftRightUnsignedAssign | .punctuator .bitAndAssign
  | .punctuator .bitOrAssign | .punctuator .bitXorAssign | .punctuator .andAssign
  | .punctuator .orAssign | .punctuator .coalesceAssign => some .assignOp
  | _ => none

/-- An arrow function, an assignment, or an expression that binds more
tightly. -/
def assignment (descent : Descent) : Parse SyntaxTree :=
  Parse.nested do
    match ← arrow? descent with
    | some function => return function
    | none =>
        let target ← conditional descent
        let token ← peek
        match assignmentKind? token.kind with
        | none => return target
        | some rule =>
            if ← assignable target then
              let operator ← named rule
              let value ← descent.read .assignment
              return build .assignmentExpression [target, operator, value]
            else
              failAt token .assignableTarget

/-- Assignments separated by commas. -/
def expression (descent : Descent) : Parse SyntaxTree := do
  let first ← descent.read .assignment
  if ← nextIs .comma then
    let trees ← collect descent #[first] fun trees => do
      match ← accept? .comma with
      | none => return .done trees
      | some comma =>
          return .again ((trees.push comma).push (← descent.read .assignment))
    return build .sequenceExpression trees.toList
  else
    return first

end Grammar

end ScriptTree
