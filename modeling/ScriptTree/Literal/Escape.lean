import ScriptTree.Literal.Basic
import ScriptTree.Text.Class
import ScriptTree.Text.Units

/-!
# Escapes in strings and templates

A quoted string and a template chunk are read into code units.  A template
turns every line break into a line feed and does not allow octal escapes.
-/

namespace ScriptTree

inductive Flavor where
  | string
  | template
  deriving DecidableEq

namespace Escape

/-- The value of `count` hexadecimal digits, and the text after them. -/
def hexDigits? : Nat → Nat → Text → Option (Nat × Text)
  | 0, value, text => some (value, text)
  | _ + 1, _, [] => none
  | count + 1, value, character :: rest =>
      (digitOf? 16 character).bind fun digit => hexDigits? count (value * 16 + digit) rest

/-- An octal escape of at most `count` more digits after `value`. -/
def octalDigits : Nat → Nat → Text → Nat × Text
  | 0, value, text => (value, text)
  | _ + 1, value, [] => (value, [])
  | count + 1, value, character :: rest =>
      match digitOf? 8 character with
      | some digit => octalDigits count (value * 8 + digit) rest
      | none => (value, character :: rest)

/-- A code point up to its closing brace; `count` digits have been read. -/
def codePoint : Nat → Nat → Text → Except LiteralFlaw (Nat × Text)
  | _, _, [] => .error .malformedCodePoint
  | count, value, character :: rest =>
      if character = '\x7d' ∧ 0 < count then
        .ok (value, rest)
      else
        match digitOf? 16 character with
        | none => .error .malformedCodePoint
        | some digit =>
            if 0x10FFFF < value * 16 + digit then .error .codePointOutOfRange
            else codePoint (count + 1) (value * 16 + digit) rest

def unitsOf (code : Nat) : List Nat :=
  if code.isValidChar then Units.ofChar (Char.ofNat code) else [code]

/-- A unit or code point after `\u`. -/
def unicode : Text → Except LiteralFlaw (List Nat × Text)
  | '\x7b' :: rest => (codePoint 0 0 rest).map fun (code, after) => (unitsOf code, after)
  | text =>
      match hexDigits? 4 0 text with
      | some (unit, rest) => .ok ([unit], rest)
      | none => .error .malformedUnitEscape

def digit (flavor : Flavor) (character : Char) (rest : Text) :
    Except LiteralFlaw (List Nat × Text) :=
  if character = '0' ∧ (rest.head?.any Char.isDigit) = false then
    .ok ([0], rest)
  else if flavor = .template then
    .error .octalInTemplate
  else
    match digitOf? 8 character with
    | none => .ok (Units.ofChar character, rest)
    | some value =>
        let (unit, after) := octalDigits (if value ≤ 3 then 2 else 1) value rest
        .ok ([unit], after)

/-- Reads what follows a backslash: the code units it stands for, and the rest
of the text. -/
def read (flavor : Flavor) : Text → Except LiteralFlaw (List Nat × Text)
  | [] => .error .danglingBackslash
  | 'n' :: rest => .ok ([0x0A], rest)
  | 't' :: rest => .ok ([0x09], rest)
  | 'r' :: rest => .ok ([0x0D], rest)
  | 'b' :: rest => .ok ([0x08], rest)
  | 'f' :: rest => .ok ([0x0C], rest)
  | 'v' :: rest => .ok ([0x0B], rest)
  | 'x' :: rest =>
      match hexDigits? 2 0 rest with
      | some (unit, after) => .ok ([unit], after)
      | none => .error .malformedByteEscape
  | 'u' :: rest => unicode rest
  | '\r' :: '\n' :: rest => .ok ([], rest)
  | character :: rest =>
      if isNewline character then .ok ([], rest)
      else if character.isDigit then digit flavor character rest
      else .ok (Units.ofChar character, rest)

/-- Reads a text into code units, with at most `fuel` characters or
escapes. -/
def unitsFrom (flavor : Flavor) : Nat → Text → Except LiteralFlaw (List Nat)
  | 0, _ => .ok []
  | _ + 1, [] => .ok []
  | fuel + 1, '\\' :: rest => do
      let (units, after) ← read flavor rest
      return units ++ (← unitsFrom flavor fuel after)
  | fuel + 1, character :: rest =>
      if flavor = .template ∧ character = '\r' then
        (unitsFrom flavor fuel (if rest.head? = some '\n' then rest.tail else rest)).map (0x0A :: ·)
      else
        (unitsFrom flavor fuel rest).map (Units.ofChar character ++ ·)

def cook (flavor : Flavor) (text : Text) : Except LiteralFlaw Text :=
  (unitsFrom flavor text.length text).map Units.decode

/-- A text with every line break written as a line feed. -/
def normalizeNewlines : Text → Text
  | '\r' :: '\n' :: rest => '\n' :: normalizeNewlines rest
  | '\r' :: rest => '\n' :: normalizeNewlines rest
  | character :: rest => character :: normalizeNewlines rest
  | [] => []

end Escape

namespace Literal

/-- The value of a quoted string: what stands between its first and last
byte. -/
def stringValue (raw : Text) : Except LiteralFlaw LiteralValue :=
  match raw.slice? 1 (Text.size raw - 1) with
  | none => .error .missingQuotes
  | some body => (Escape.cook .string body).map fun text => .string (String.ofList text)

end Literal

namespace TemplateText

def ofText (text : Text) : TemplateText where
  raw := String.ofList (Escape.normalizeNewlines text)
  cooked := (Escape.cook .template text).toOption.map String.ofList

end TemplateText

end ScriptTree
