import ScriptTree.Span
import ScriptTree.Token.Spelling

/-!
# Errors of reading

An error has a cause and the span it is about.  What the grammar was waiting
for is part of the cause; the wording is made here and nowhere else.
-/

namespace ScriptTree

/-- What the grammar was waiting for when it met something else. -/
inductive Expectation where
  | spelling (spelled : Spelling)
  | identifier
  | functionName
  | className
  | propertyName
  | expression
  | assignableOperand
  | assignableTarget
  | sameLineExpression
  | statementOutsideFunction
  | catchOrFinally
  | caseOrDefault
  deriving DecidableEq

namespace Expectation

def message : Expectation → String
  | .spelling spelled => "'" ++ spelled.text ++ "'"
  | .identifier => "identifier"
  | .functionName => "function name"
  | .className => "class name"
  | .propertyName => "property name"
  | .expression => "expression"
  | .assignableOperand => "assignable operand"
  | .assignableTarget => "assignable left-hand side"
  | .sameLineExpression => "expression on the same line as 'throw'"
  | .statementOutsideFunction => "statement outside of a function"
  | .catchOrFinally => "'catch' or 'finally'"
  | .caseOrDefault => "'case' or 'default'"

end Expectation

namespace SyntaxError

/-- Why a text cannot be read. -/
inductive Cause where
  | unexpectedToken (found : Text) (expected : Expectation)
  | unexpectedEnd (expected : Expectation)
  | invalidNumber (text : Text)
  | invalidCharacter (character : Char)
  | unterminatedString
  | unterminatedComment
  | unterminatedTemplate
  | unterminatedPattern
  | nestingTooDeep (limit : Nat)
  /-- The steps allowed for a text of this size were used up. -/
  | stalled
  deriving DecidableEq

namespace Cause

def message : Cause → String
  | .unexpectedToken found expected =>
      "unexpected token '" ++ String.ofList found ++ "', expected " ++ expected.message
  | .unexpectedEnd expected => "unexpected end of file, expected " ++ expected.message
  | .invalidNumber text => "invalid number '" ++ String.ofList text ++ "'"
  | .invalidCharacter character => "invalid character '" ++ String.singleton character ++ "'"
  | .unterminatedString => "unterminated string literal"
  | .unterminatedComment => "unterminated comment"
  | .unterminatedTemplate => "unterminated template literal"
  | .unterminatedPattern => "unterminated regular expression"
  | .nestingTooDeep limit => "nesting deeper than " ++ toString limit ++ " levels"
  | .stalled => "out of steps"

end Cause

end SyntaxError

/-- A cause together with the part of the text it is about. -/
structure SyntaxError where
  cause : SyntaxError.Cause
  span : Span
  deriving DecidableEq

namespace SyntaxError

/-- Wording of an error, ending in the offset where it was met. -/
def message (error : SyntaxError) : String :=
  error.cause.message ++ " at byte " ++ toString error.span.start

end SyntaxError

end ScriptTree
