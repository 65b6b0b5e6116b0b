import ScriptTree.Grammar.Operand

/-!
# Operators

Binary operators are read by climbing through their levels: an operand is
followed by operators that bind at least as tightly as asked for, each with a
right operand that binds more tightly still.  Only `**` groups to the right,
so its right operand may hold it again.
-/

namespace ScriptTree

namespace Grammar

/-- How tightly a binary operator binds, and how it is labelled. -/
structure BinaryOperator where
  level : Nat
  groupsRight : Bool
  kind : Kind
  deriving DecidableEq

namespace BinaryOperator

/-- The least tight level. -/
def lowest : Nat := 1

def operandLevel (operator : BinaryOperator) : Nat :=
  if operator.groupsRight then operator.level else operator.level + 1

/-- A binary operator that groups to the left. -/
def left (level : Nat) (rule : Rule) : BinaryOperator :=
  ⟨level, false, .rule rule⟩

def ofPunctuator? : Punctuator → Option BinaryOperator
  | .or | .coalesce => some (left 1 .logicOp)
  | .and => some (left 2 .logicOp)
  | .bar => some (left 3 .bitOp)
  | .caret => some (left 4 .bitOp)
  | .ampersand => some (left 5 .bitOp)
  | .equal | .unequal | .strictEqual | .strictUnequal => some (left 6 .compareOp)
  | .less | .greater | .lessEqual | .greaterEqual => some (left 7 .compareOp)
  | .shiftLeft | .shiftRight | .shiftRightUnsigned => some (left 8 .bitOp)
  | .plus | .minus => some (left 9 .arithOp)
  | .star | .slash | .percent => some (left 10 .arithOp)
  | .power => some ⟨11, true, .rule .arithOp⟩
  | _ => none

/-- The binary operator a token stands for.  In the head of a loop `in` is
none. -/
def ofToken? (kind : TokenKind) (noIn : Bool) : Option BinaryOperator :=
  match kind with
  | .punctuator sign => ofPunctuator? sign
  | .keyword .instanceofWord => some ⟨7, false, .fixed (.keyword .instanceofWord)⟩
  | .keyword .inWord =>
      if noIn then none else some ⟨7, false, .fixed (.keyword .inWord)⟩
  | _ => none

end BinaryOperator

/-- The label of a token that is an operator in front of its operand. -/
def prefixKind? (kind : TokenKind) : Option Kind :=
  match kind with
  | .punctuator .bang => some (.rule .logicOp)
  | .punctuator .tilde => some (.rule .bitOp)
  | .punctuator .plus | .punctuator .minus => some (.rule .arithOp)
  | .punctuator .increment | .punctuator .decrement => some (.rule .updateOp)
  | .keyword .typeofWord => some (.fixed (.keyword .typeofWord))
  | .keyword .voidWord => some (.fixed (.keyword .voidWord))
  | .keyword .deleteWord => some (.fixed (.keyword .deleteWord))
  | _ => none

def valueNames : List Text :=
  [['t', 'h', 'i', 's'], ['s', 'u', 'p', 'e', 'r'], ['t', 'r', 'u', 'e'],
    ['f', 'a', 'l', 's', 'e'], ['n', 'u', 'l', 'l']]

/-- Whether a tree can be assigned to: a variable or a member, with any number
of parentheses around it. -/
def isAssignable (source : Text) : SyntaxTree → Bool
  | .node (.rule .variableName) span _ =>
      (span.text? source).any fun name => !valueNames.contains name
  | .node (.rule .memberExpression) _ _ => true
  | .node (.rule .parenthesizedExpression) _ (_ :: inner :: _) => isAssignable source inner
  | _ => false

/-- Whether a tree can be assigned to in the text being read. -/
def assignable (tree : SyntaxTree) : Parse Bool := do
  return isAssignable (← Parse.settings).source tree

/-- An operand, with `++` or `--` if it follows in the same line. -/
def withPostfix (descent : Descent) : Parse SyntaxTree := do
  let operand ← leftHandSide descent
  let token ← peek
  if token.isPunctuator .increment || token.isPunctuator .decrement then
    if isPostfixAt (← Parse.settings) token then
      if ← assignable operand then
        return build .postfixExpression [operand, ← named .updateOp]
      else
        failAt token (.spelling (.punctuator .semicolon))
    else
      return operand
  else
    return operand

/-- An operand with the operators in front of it. -/
def unary (descent : Descent) : Parse SyntaxTree := do
  let token ← peek
  match prefixKind? token.kind with
  | some kind =>
      let isUpdate := kind == .rule .updateOp
      if isUpdate && !isPrefixAt (← Parse.settings) token then
        failAt token .expression
      else
        let operator ← leaf kind
        let operand ← Parse.nested (descent.read .unary)
        if isUpdate && !(← assignable operand) then
          failAt token .assignableOperand
        else
          return build .unaryExpression [operator, operand]
  | none =>
      if (← Parse.state).inAsync && token.isWord .awaitWord then
        let keyword ← expectWord .awaitWord
        return build .awaitExpression [keyword, ← Parse.nested (descent.read .unary)]
      else
        withPostfix descent

/-- One more binary operator with its right operand, if it binds tightly
enough. -/
def binaryStep (descent : Descent) (level : Nat) (left : SyntaxTree) :
    Parse (Round SyntaxTree SyntaxTree) := do
  let token ← peek
  match BinaryOperator.ofToken? token.kind (← Parse.state).noIn with
  | none => return .done left
  | some operator =>
      if operator.level < level then
        return .done left
      else
        let sign ← leaf operator.kind
        let right ← Parse.nested (descent.read (.binary operator.operandLevel))
        return .again (build .binaryExpression [left, sign, right])

/-- Operands joined by operators of at least the given level. -/
def binary (descent : Descent) (level : Nat) : Parse SyntaxTree := do
  let left ← unary descent
  iterate (binaryStep descent level) descent.rounds left

/-- A choice between two values, or a value without one. -/
def conditional (descent : Descent) : Parse SyntaxTree := do
  let test ← binary descent BinaryOperator.lowest
  match ← accept? .question with
  | none => return test
  | some question =>
      let consequent ← Parse.withIn (descent.read .assignment)
      let colon ← expect .colon
      let alternate ← descent.read .assignment
      return build .conditionalExpression [test, question, consequent, colon, alternate]

end Grammar

end ScriptTree
