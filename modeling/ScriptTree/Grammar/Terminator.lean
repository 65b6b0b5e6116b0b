import ScriptTree.Grammar.Lookahead
import ScriptTree.Recognizer.Boundary

/-!
# Ends of statements

A statement ends in a semicolon, which may be left out before a closing brace,
at the end of the text, and after a line terminator or comment.  Some
constructs must not be interrupted by a line break for the same reason.
-/

namespace ScriptTree

namespace Grammar

def markAt (settings : Settings) (token : Token) (admitted : List Mark)
    (recognizer : Outlook → Probe → Probe) : Option Mark :=
  (recognizer ⟨token.gap, admitted⟩ (Probe.ofPlace settings.size token.start)).mark?

def mayEndBefore (settings : Settings) (token : Token) : Bool :=
  markAt settings token [.inferredEnd] Recognizer.inferredEnd == some .inferredEnd

def continuesAt (settings : Settings) (token : Token) : Bool :=
  markAt settings token [.sameLine] Recognizer.sameLine == some .sameLine

/-- Whether `++` or `--` at a token belongs to the operand before it. -/
def isPostfixAt (settings : Settings) (token : Token) : Bool :=
  markAt settings token [.postfixUpdate] Recognizer.update == some .postfixUpdate

/-- Whether `++` or `--` at a token can only belong to an operand after it. -/
def isPrefixAt (settings : Settings) (token : Token) : Bool :=
  markAt settings token [] Recognizer.update == some .prefixUpdate

/-- Adds the semicolon that ends a statement to its children, or nothing if
the statement may end without one. -/
def terminate (children : List SyntaxTree) : Parse (List SyntaxTree) := do
  match ← accept? .semicolon with
  | some semicolon => return children ++ [semicolon]
  | none =>
      let token ← peek
      let settings ← Parse.settings
      if mayEndBefore settings token then
        return children
      else
        failAt token (.spelling (.punctuator .semicolon))

def continues (token : Token) : Parse Bool := do
  return continuesAt (← Parse.settings) token

/-- Whether the next token continues the statement in the same line. -/
def nextContinues : Parse Bool := do
  continues (← peek)

/-- Whether a line terminator stands between the last consumed token and the
given one, be it inside a comment. -/
def lineBreakBefore (token : Token) : Parse Bool := do
  let state ← Parse.state
  return (state.place.upTo token.start.offset).any isNewline

end Grammar

end ScriptTree
