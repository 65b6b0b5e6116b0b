/-!
# Binary64 numbers

Numbers in the 64-bit binary floating-point format, kept as exact integers so
that rounding is plain arithmetic.  A ratio of natural numbers is rounded once
to the nearest number of the format; a tie goes to the even mantissa.
-/

namespace ScriptTree

/-- A number of the format.  A finite one is `mantissa * 2 ^ exponent` with a
sign; the mantissa is below `2 ^ 53`, and at least `2 ^ 52` unless the
exponent is the least one, `-1074`. -/
inductive Binary64 where
  | finite (negative : Bool) (mantissa : Nat) (exponent : Int)
  | infinite (negative : Bool)
  | notANumber
  deriving DecidableEq

namespace Binary64

def leastExponent : Int := -1074

def greatestExponent : Int := 971

def zero (negative : Bool) : Binary64 :=
  .finite negative 0 leastExponent

/-- A ratio measured in units of `2 ^ exponent`, again as a ratio. -/
def inUnits (numerator denominator : Nat) (exponent : Int) : Nat × Nat :=
  if 0 ≤ exponent then
    (numerator, denominator * Nat.pow 2 exponent.toNat)
  else
    (numerator * Nat.pow 2 (-exponent).toNat, denominator)

/-- The exponent at which a positive ratio has a mantissa of 53 bits, or the
least exponent if it is too small for that. -/
def exponentOf (numerator denominator : Nat) : Int :=
  let guess : Int := (Nat.log2 numerator : Int) - (Nat.log2 denominator : Int) - 52
  let units := inUnits numerator denominator guess
  max leastExponent (if units.1 / units.2 < Nat.pow 2 52 then guess - 1 else guess)

/-- A ratio rounded to the nearest integer, a tie to the even one. -/
def roundHalfEven (numerator denominator : Nat) : Nat :=
  let quotient := numerator / denominator
  let twice := 2 * (numerator % denominator)
  if twice < denominator then quotient
  else if denominator < twice then quotient + 1
  else if quotient % 2 = 0 then quotient
  else quotient + 1

/-- The number with the given mantissa and exponent, after a mantissa that has
grown by rounding is brought back and an exponent beyond the greatest has
become infinity. -/
def normalized (negative : Bool) (mantissa : Nat) (exponent : Int) : Binary64 :=
  let grown := mantissa = Nat.pow 2 53
  let mantissa := if grown then Nat.pow 2 52 else mantissa
  let exponent := if grown then exponent + 1 else exponent
  if greatestExponent < exponent then .infinite negative else .finite negative mantissa exponent

/-- A ratio rounded to the nearest number. -/
def ofRatio (negative : Bool) (numerator denominator : Nat) : Binary64 :=
  if numerator = 0 then
    zero negative
  else
    let exponent := exponentOf numerator denominator
    let units := inUnits numerator denominator exponent
    normalized negative (roundHalfEven units.1 units.2) exponent

/-- An integer rounded to the nearest number. -/
def ofInt (value : Int) : Binary64 :=
  ofRatio (decide (value < 0)) value.natAbs 1

/-- `digits * 10 ^ exponent` rounded to the nearest number.  Powers that are
out of reach for a value of `width` digits are not computed. -/
def ofDecimal (negative : Bool) (digits width : Nat) (exponent : Int) : Binary64 :=
  if digits = 0 then
    zero negative
  else if 400 < exponent then
    .infinite negative
  else if exponent < -(width + 400 : Int) then
    zero negative
  else if 0 ≤ exponent then
    ofRatio negative (digits * Nat.pow 10 exponent.toNat) 1
  else
    ofRatio negative digits (Nat.pow 10 (-exponent).toNat)

/-- The integer a number is equal to, if it is an integer. -/
def toInt? : Binary64 → Option Int
  | .finite negative mantissa exponent =>
      let signed (magnitude : Nat) : Int := if negative then -(magnitude : Int) else magnitude
      if 0 ≤ exponent then
        some (signed (mantissa * Nat.pow 2 exponent.toNat))
      else if mantissa % Nat.pow 2 (-exponent).toNat = 0 then
        some (signed (mantissa / Nat.pow 2 (-exponent).toNat))
      else
        none
  | _ => none

def isFinite : Binary64 → Bool
  | .finite .. => true
  | _ => false

def signBit (negative : Bool) : Nat :=
  if negative then Nat.pow 2 63 else 0

def toBits : Binary64 → Nat
  | .finite negative mantissa exponent =>
      if mantissa < Nat.pow 2 52 then
        signBit negative + mantissa
      else
        signBit negative + (exponent + 1075).toNat * Nat.pow 2 52 + (mantissa - Nat.pow 2 52)
  | .infinite negative => signBit negative + 2047 * Nat.pow 2 52
  | .notANumber => 2047 * Nat.pow 2 52 + Nat.pow 2 51

end Binary64

end ScriptTree
