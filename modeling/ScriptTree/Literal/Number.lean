import ScriptTree.Literal.Basic
import ScriptTree.Number.Written

/-!
# Numeric literals

Separators are dropped wherever they stand.  What is left is an integer with
the suffix of large integers, digits after an announced base, octal digits
after a plain zero, or a decimal number.
-/

namespace ScriptTree

namespace Literal

def splitBase : Text → Nat × Text
  | '0' :: mark :: first :: rest =>
      if mark = 'x' ∨ mark = 'X' then (16, first :: rest)
      else if mark = 'o' ∨ mark = 'O' then (8, first :: rest)
      else if mark = 'b' ∨ mark = 'B' then (2, first :: rest)
      else (10, '0' :: mark :: first :: rest)
  | text => (10, text)

def isOctalDigit (character : Char) : Bool :=
  '0' ≤ character && character ≤ '7'

/-- Whether digits are octal for no other reason than a leading zero. -/
def isLegacyOctal : Text → Bool
  | '0' :: second :: rest => (second :: rest).all isOctalDigit
  | _ => false

def basedNumber (base : Nat) (digits : Text) : Except LiteralFlaw Binary64 :=
  match WrittenNumber.integer? base digits with
  | some value => .ok (.ofInt value)
  | none => .error (.invalidDigits base)

def decimalNumber (text : Text) : Except LiteralFlaw Binary64 :=
  match WrittenNumber.binary64 text with
  | .ok value => .ok value
  | .error .empty => .error .emptyNumber
  | .error .invalid => .error .invalidNumber

/-- The number a text without separators stands for. -/
def plainNumber (text : Text) : Except LiteralFlaw Binary64 :=
  match splitBase text with
  | (10, decimal) =>
      if isLegacyOctal decimal then basedNumber 8 decimal.tail else decimalNumber decimal
  | (base, digits) => basedNumber base digits

/-- The text before the suffix of large integers, if there is one. -/
def bigintBody? (text : Text) : Option Text :=
  if text.getLast? = some 'n' then some text.dropLast else none

/-- The value of a numeric literal. -/
def numberValue (raw : Text) : Except LiteralFlaw LiteralValue :=
  let text := raw.filter (· != '_')
  match bigintBody? text with
  | some body =>
      let (base, digits) := splitBase body
      match WrittenNumber.integer? base digits with
      | some value => .ok (.bigint value (String.ofList body))
      | none => .error .invalidBigint
  | none => (plainNumber text).map .number

end Literal

end ScriptTree
