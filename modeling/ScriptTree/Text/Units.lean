import ScriptTree.Text.Basic

/-!
# UTF-16 code units

Escapes in string literals name code units, so that a character beyond
U+FFFF can be written as two of them.  Decoding joins such pairs; a unit of a
pair that stands alone becomes the replacement character.
-/

namespace ScriptTree

namespace Units

def ofChar (character : Char) : List Nat :=
  let code := character.toNat
  if code < 0x10000 then
    [code]
  else
    [0xD800 + (code - 0x10000) / 0x400, 0xDC00 + (code - 0x10000) % 0x400]

def isHigh (unit : Nat) : Bool :=
  0xD800 ≤ unit && unit < 0xDC00

def isLow (unit : Nat) : Bool :=
  0xDC00 ≤ unit && unit < 0xE000

/-- The character of a pair. -/
def joined (high low : Nat) : Char :=
  Char.ofNat (0x10000 + (high - 0xD800) * 0x400 + (low - 0xDC00))

def single (unit : Nat) : Char :=
  if isHigh unit || isLow unit then '\uFFFD' else Char.ofNat unit

def decode : List Nat → Text
  | [] => []
  | [unit] => [single unit]
  | first :: second :: rest =>
      if isHigh first && isLow second then joined first second :: decode rest
      else single first :: decode (second :: rest)

end Units

end ScriptTree
