import ScriptTree.Number.Binary64
import ScriptTree.Text.Basic
import ScriptTree.Text.Class

/-!
# Written numbers

Two notations for numbers: integers in a base up to 36, and decimal numbers
with an optional point and exponent.  Both allow a sign.
-/

namespace ScriptTree

namespace WrittenNumber

/-- The value of digits of a base, most significant first, added to what the
earlier ones amount to. -/
def positional? (base : Nat) : Nat → Text → Option Nat
  | value, [] => some value
  | value, character :: rest =>
      (digitOf? base character).bind fun digit => positional? base (value * base + digit) rest

def natural? (base : Nat) (digits : Text) : Option Nat :=
  if digits.isEmpty then none else positional? base 0 digits

/-- The value of digits after at most one sign. -/
def integer? (base : Nat) : Text → Option Int
  | '-' :: digits => (natural? base digits).map fun value => -(value : Int)
  | '+' :: digits => (natural? base digits).map Int.ofNat
  | digits => (natural? base digits).map Int.ofNat

inductive DecimalError where
  | empty
  | invalid
  deriving DecidableEq

/-- A decimal number before rounding: `digits * 10 ^ exponent`, where `width`
is how many digits were written. -/
structure Decimal where
  digits : Nat
  width : Nat
  exponent : Int
  deriving DecidableEq

/-- The value of a run of decimal digits. -/
def run (digits : Text) : Nat :=
  (positional? 10 0 digits).getD 0

def splitPoint (text : Text) : Text × Text × Text :=
  let whole := text.takeWhile Char.isDigit
  match text.dropWhile Char.isDigit with
  | '.' :: rest => (whole, rest.takeWhile Char.isDigit, rest.dropWhile Char.isDigit)
  | rest => (whole, [], rest)

/-- A decimal number without a sign.  It must have a digit before or after the
point. -/
def decimal? (text : Text) : Option Decimal :=
  let (whole, fraction, rest) := splitPoint text
  let digits := whole ++ fraction
  let result (exponent : Int) : Decimal :=
    ⟨run digits, digits.length, exponent - fraction.length⟩
  if digits.isEmpty then
    none
  else
    match rest with
    | [] => some (result 0)
    | mark :: power =>
        if mark = 'e' ∨ mark = 'E' then (integer? 10 power).map result else none

/-- The letters of a text in lower case. -/
def lowered (text : Text) : Text :=
  text.map Char.toLower

/-- The spelled-out values that are no decimal numbers. -/
def special? (negative : Bool) (text : Text) : Option Binary64 :=
  let word := lowered text
  if word = ['i', 'n', 'f'] ∨ word = ['i', 'n', 'f', 'i', 'n', 'i', 't', 'y'] then
    some (.infinite negative)
  else if word = ['n', 'a', 'n'] then
    some .notANumber
  else
    none

/-- A decimal number or special value, after its sign. -/
def unsigned? (negative : Bool) (text : Text) : Option Binary64 :=
  match decimal? text with
  | some decimal =>
      some (.ofDecimal negative decimal.digits decimal.width decimal.exponent)
  | none => special? negative text

/-- The number nearest to a decimal text. -/
def binary64 (text : Text) : Except DecimalError Binary64 :=
  let result :=
    match text with
    | '-' :: rest => unsigned? true rest
    | '+' :: rest => unsigned? false rest
    | _ => unsigned? false text
  if text.isEmpty then .error .empty
  else match result with
    | some value => .ok value
    | none => .error .invalid

end WrittenNumber

end ScriptTree
