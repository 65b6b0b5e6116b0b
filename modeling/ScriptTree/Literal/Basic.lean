import ScriptTree.Number.Binary64
import ScriptTree.Text.Basic

/-!
# Literals

What a literal stands for, together with the text it was written as.
-/

namespace ScriptTree

/-- The value of a literal. -/
inductive LiteralValue where
  | null
  | boolean (value : Bool)
  | number (value : Binary64)
  | string (value : String)
  /-- An integer of any size, with its digits as they were written. -/
  | bigint (value : Int) (digits : String)
  | regExp (pattern flags : String)

/-- A value and the text it was written as. -/
structure Literal where
  value : LiteralValue
  raw : String

/-- A run of template text.  Its cooked form is missing if it holds an escape
that only a tagged template may hold. -/
structure TemplateText where
  raw : String
  cooked : Option String
  deriving DecidableEq

namespace LiteralValue

/-- The number a literal stands for, if it is numeric. -/
def toBinary64? : LiteralValue → Option Binary64
  | .number value => some value
  | .bigint value _ => some (.ofInt value)
  | _ => none

end LiteralValue

inductive LiteralFlaw where
  | missingQuotes
  | danglingBackslash
  | octalInTemplate
  | malformedByteEscape
  | malformedUnitEscape
  | malformedCodePoint
  | codePointOutOfRange
  | emptyNumber
  | invalidNumber
  | invalidDigits (base : Nat)
  | invalidBigint
  | missingSlashes
  | unknownFlag (flag : Char)
  | repeatedFlag (flag : Char)
  | exclusiveFlags
  | emptyPattern
  | danglingEscape
  | unmatchedParen
  | unterminatedClass
  | unterminatedGroup
  deriving DecidableEq

namespace LiteralFlaw

def message : LiteralFlaw → String
  | .missingQuotes => "missing quotes"
  | .danglingBackslash => "dangling backslash"
  | .octalInTemplate => "octal escape in template"
  | .malformedByteEscape => "malformed \\x escape"
  | .malformedUnitEscape => "malformed \\u escape"
  | .malformedCodePoint => "malformed \\u\x7b\x7d escape"
  | .codePointOutOfRange => "code point out of range"
  | .emptyNumber => "cannot parse float from empty string"
  | .invalidNumber => "invalid float literal"
  | .invalidDigits base => "invalid base-" ++ toString base ++ " digits"
  | .invalidBigint => "invalid bigint digits"
  | .missingSlashes => "missing slashes"
  | .unknownFlag flag => "unknown flag '" ++ String.singleton flag ++ "'"
  | .repeatedFlag flag => "repeated flag '" ++ String.singleton flag ++ "'"
  | .exclusiveFlags => "flags 'u' and 'v' are exclusive"
  | .emptyPattern => "empty pattern"
  | .danglingEscape => "dangling escape"
  | .unmatchedParen => "unmatched ')'"
  | .unterminatedClass => "unterminated character class"
  | .unterminatedGroup => "unterminated group"

end LiteralFlaw

end ScriptTree
