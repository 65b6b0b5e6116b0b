import ScriptTree.Recognizer.Dialect
import ScriptTree.Token.Lexeme
import ScriptTree.Token.Trivia

/-!
# Scanning

Tokens are scanned one at a time from a place in the text, because whether a
slash divides or opens a pattern is known to the grammar only.
-/

namespace ScriptTree

namespace Token

def wordKind (dialect : Dialect) (word : Text) : TokenKind :=
  if (Recognizer.dialectWord? dialect word).isSome then
    .keyword .extendsWord
  else
    match Keyword.ofChars? word with
    | some keyword => .keyword keyword
    | none => .identifier

def startsNumber (start : Place) (first : Char) : Bool :=
  first.isDigit || (first == '.' && (start.ahead 1).any Char.isDigit)

/-- Reads the token that starts with the character `first` at `start`. -/
def lexeme (dialect : Dialect) (patternAllowed : Bool) (start : Place) (first : Char) :
    Except SyntaxError (TokenKind × Place) :=
  if isNameStart first then
    let stop := start.skipWhile isNamePart
    .ok (wordKind dialect (start.rest.takeWhile isNamePart), stop)
  else if startsNumber start first then
    (Lexeme.number start).map (TokenKind.number, ·)
  else if first = '"' ∨ first = '\x27' then
    (Lexeme.string start first).map (TokenKind.string, ·)
  else if first = '/' ∧ patternAllowed = true then
    (Lexeme.pattern start).map (TokenKind.pattern, ·)
  else
    match Punctuator.longestAt? start.rest with
    | some sign => .ok (.punctuator sign, start.advance sign.chars.length)
    | none =>
        .error ⟨.invalidCharacter first, ⟨start.offset, start.offset + first.utf8Size⟩⟩

/-- Skips trivia and reads one token. -/
def scan (dialect : Dialect) (place : Place) (patternAllowed : Bool) :
    Except SyntaxError Token := do
  let (start, gap) ← Trivia.skip place
  match start.rest with
  | [] => .ok ⟨.endOfText, [], start, start, gap⟩
  | first :: _ =>
      let (kind, stop) ← lexeme dialect patternAllowed start first
      .ok ⟨kind, start.upTo stop.offset, start, stop, gap⟩

/-- All tokens of a text, each deciding whether the next may be a pattern, up
to the end of the text or the first error. -/
def scanAll (dialect : Dialect) (text : Text) : List (Except SyntaxError Token) :=
  go (text.length + 1) (Place.first text) true
where
  /-- Scans at most `fuel` tokens. -/
  go : Nat → Place → Bool → List (Except SyntaxError Token)
    | 0, _, _ => []
    | fuel + 1, place, patternAllowed =>
        match scan dialect place patternAllowed with
        | .error error => [.error error]
        | .ok token =>
            if token.isEnd then [.ok token]
            else .ok token :: go fuel token.stop token.kind.allowsPatternAfter

end Token

end ScriptTree
