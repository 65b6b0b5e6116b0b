import ScriptTree.Span
import ScriptTree.Text.Place
import ScriptTree.Token.Gap
import ScriptTree.Token.Spelling

/-!
# Tokens

A token is a significant piece of the text.  It keeps the places before and
after it, its characters, and the gap that separates it from the token before.
-/

namespace ScriptTree

inductive TokenKind where
  /-- A name; words that are reserved only in some positions count as names. -/
  | identifier
  | keyword (word : Keyword)
  | punctuator (sign : Punctuator)
  | number
  | string
  /-- A regular expression between slashes, with its flags. -/
  | pattern
  | endOfText
  deriving DecidableEq

namespace TokenKind

/-- Whether a slash right after a token of this kind opens a pattern rather
than dividing. -/
def allowsPatternAfter : TokenKind → Bool
  | .keyword _ => true
  | .punctuator sign => sign.allowsPatternAfter
  | .identifier | .number | .string | .pattern | .endOfText => false

def display : TokenKind → String
  | .identifier => "identifier"
  | .keyword word => String.ofList word.chars
  | .punctuator sign => String.ofList sign.chars
  | .number => "number"
  | .string => "string"
  | .pattern => "regular expression"
  | .endOfText => "end of file"

end TokenKind

/-- A token with the places it stands between. -/
structure Token where
  kind : TokenKind
  text : Text
  start : Place
  stop : Place
  gap : Gap
  deriving DecidableEq

namespace Token

/-- The byte offsets a token covers. -/
def span (token : Token) : Span :=
  ⟨token.start.offset, token.stop.offset⟩

/-- Whether nothing but trivia is left. -/
def isEnd (token : Token) : Bool :=
  token.kind == .endOfText

/-- Whether a token is the given punctuator. -/
def isPunctuator (token : Token) (punctuator : Punctuator) : Bool :=
  token.kind == .punctuator punctuator

/-- Whether a token is the given reserved word. -/
def isKeyword (token : Token) (keyword : Keyword) : Bool :=
  token.kind == .keyword keyword

def isIdentifier (token : Token) : Bool :=
  token.kind == .identifier

/-- Whether a token is a name spelled as the given contextual word. -/
def isWord (token : Token) (word : ContextualWord) : Bool :=
  token.isIdentifier && token.text == word.chars

end Token

end ScriptTree
