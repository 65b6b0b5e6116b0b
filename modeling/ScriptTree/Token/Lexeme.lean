import ScriptTree.SyntaxError
import ScriptTree.Text.Class
import ScriptTree.Token.Basic

/-!
# Lexemes

Readers for the tokens without a fixed spelling: numbers, quoted strings and
patterns.  Each starts at the first character of the token and returns the
place after its last one.
-/

namespace ScriptTree

namespace Lexeme

/-! ## Numbers -/

/-- The base announced by the first two characters of a number. -/
def announcedBase? : Text → Option Nat
  | '0' :: mark :: _ =>
      if mark = 'x' ∨ mark = 'X' then some 16
      else if mark = 'o' ∨ mark = 'O' then some 8
      else if mark = 'b' ∨ mark = 'B' then some 2
      else none
  | _ => none

/-- The error for a number that was read from `start` up to `stop`. -/
def invalidNumber (start stop : Place) : SyntaxError :=
  ⟨.invalidNumber (start.upTo stop.offset), ⟨start.offset, stop.offset⟩⟩

/-- Reads the digits after an announced base; there must be one. -/
def basedDigits (base : Nat) (start : Place) : Except SyntaxError Place :=
  let digits := start.advance 2
  let stop := digits.skipWhile fun character =>
    (digitOf? base character).isSome || character == '_'
  if stop.offset = digits.offset then .error (invalidNumber start stop) else .ok stop

/-- Reads a decimal point with the digits after it, if there is one. -/
def fraction (place : Place) : Place :=
  if place.current = some '.' then place.step.skipWhile isDigitOrSeparator else place

/-- Reads an exponent, if a mark, an optional sign and a digit follow. -/
def exponent (place : Place) : Place :=
  if place.current = some 'e' ∨ place.current = some 'E' then
    let signed := place.ahead 1 = some '+' ∨ place.ahead 1 = some '-'
    let width := if signed then 2 else 1
    if (place.ahead width).any Char.isDigit then
      (place.advance width).skipWhile isDigitOrSeparator
    else
      place
  else
    place

/-- Reads a number, which may end in the suffix of large integers.  A number
must not run into a name. -/
def number (start : Place) : Except SyntaxError Place := do
  let digits ←
    match announcedBase? start.rest with
    | some base => basedDigits base start
    | none => .ok (exponent (fraction (start.skipWhile isDigitOrSeparator)))
  let stop := if digits.current = some 'n' then digits.step else digits
  if stop.current.any isNamePart then .error (invalidNumber start stop.step) else .ok stop

/-! ## Quoted strings -/

/-- Reads up to the closing quote.  A backslash hides the next character, or
a whole line break.  The error is the offset of a bare line break or of the
end of the text. -/
def closingQuote (quote : Char) : Text → Nat → Except Nat Place
  | [], offset => .error offset
  | ['\\'], offset => .error (offset + 1)
  | '\\' :: '\r' :: '\n' :: rest, offset => closingQuote quote rest (offset + 3)
  | '\\' :: hidden :: rest, offset => closingQuote quote rest (offset + 1 + hidden.utf8Size)
  | character :: rest, offset =>
      if character = '\n' ∨ character = '\r' then .error offset
      else if character = quote then .ok ⟨offset + character.utf8Size, rest⟩
      else closingQuote quote rest (offset + character.utf8Size)

/-- Reads a quoted string. -/
def string (start : Place) (quote : Char) : Except SyntaxError Place :=
  match closingQuote quote start.step.rest start.step.offset with
  | .ok stop => .ok stop
  | .error offset => .error ⟨.unterminatedString, ⟨start.offset, offset⟩⟩

/-! ## Patterns -/

/-- Reads up to the slash that closes a pattern, which is the first one that
is neither escaped nor inside brackets. -/
def closingSlash : Bool → Text → Nat → Except Nat Place
  | _, [], offset => .error offset
  | _, ['\\'], offset => .error (offset + 1)
  | inClass, '\\' :: hidden :: rest, offset =>
      if isNewline hidden then .error (offset + 1)
      else closingSlash inClass rest (offset + 1 + hidden.utf8Size)
  | inClass, character :: rest, offset =>
      if isNewline character then .error offset
      else if character = '/' ∧ inClass = false then .ok ⟨offset + 1, rest⟩
      else if character = '[' then closingSlash true rest (offset + 1)
      else if character = ']' then closingSlash false rest (offset + 1)
      else closingSlash inClass rest (offset + character.utf8Size)

/-- Reads a pattern and its flags. -/
def pattern (start : Place) : Except SyntaxError Place :=
  match closingSlash false start.step.rest start.step.offset with
  | .ok stop => .ok (stop.skipWhile isNamePart)
  | .error offset => .error ⟨.unterminatedPattern, ⟨start.offset, offset⟩⟩

end Lexeme

end ScriptTree
