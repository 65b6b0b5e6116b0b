import ScriptTree.Text.Numeral

/-!
# Character classes

Line terminators, blanks, and the characters of names.  A line terminator is
never a blank, so the trivia between two tokens splits into the two classes
and comments.
-/

namespace ScriptTree

/-- Line terminators. -/
def isNewline (character : Char) : Bool :=
  character == '\n' || character == '\r' || character == '\u2028' || character == '\u2029'

/-- Horizontal whitespace. -/
def isBlank (character : Char) : Bool :=
  let code := character.toNat
  code == 0x09 || code == 0x0B || code == 0x0C || code == 0x20 || code == 0x85 ||
    code == 0xA0 || code == 0xFEFF || code == 0x1680 || (0x2000 ≤ code && code ≤ 0x200A) ||
    code == 0x202F || code == 0x205F || code == 0x3000

/-- Whitespace on which the same-line marker declines. -/
def skippedSpaces : List Char :=
  ['\u0009', '\u000A', '\u000B', '\u000C', '\u000D', ' ', '\u0085', '\u00A0', '\u1680', '\u2000',
    '\u2001', '\u2002', '\u2003', '\u2004', '\u2005', '\u2006', '\u2007', '\u2008', '\u2009',
    '\u200A', '\u2028', '\u2029', '\u202F', '\u205F', '\u3000']

def isSkippedSpace (character : Char) : Bool :=
  skippedSpaces.contains character

def isNameStart (character : Char) : Bool :=
  isLetter character || character == '_' || character == '$'

def isNamePart (character : Char) : Bool :=
  isLetter character || isNumeral character || character == '_' || character == '$' ||
    character == '\u200C' || character == '\u200D'

def isDigitOrSeparator (character : Char) : Bool :=
  character.isDigit || character == '_'

/-- The value of a digit or letter read as a digit of some base up to 36. -/
def digitValue? (character : Char) : Option Nat :=
  if '0' ≤ character && character ≤ '9' then
    some (character.toNat - '0'.toNat)
  else if 'a' ≤ character && character ≤ 'z' then
    some (character.toNat - 'a'.toNat + 10)
  else if 'A' ≤ character && character ≤ 'Z' then
    some (character.toNat - 'A'.toNat + 10)
  else
    none

/-- The value of a digit of the given base. -/
def digitOf? (base : Nat) (character : Char) : Option Nat :=
  (digitValue? character).filter (· < base)

end ScriptTree
