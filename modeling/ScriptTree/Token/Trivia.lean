import ScriptTree.SyntaxError
import ScriptTree.Text.Class
import ScriptTree.Token.Basic

/-!
# Trivia

Blanks, line terminators and comments stand between tokens and mean nothing
but for the gap they leave.  They are skipped character by character by a
small automaton, which knows whether it is inside a comment.
-/

namespace ScriptTree

namespace Trivia

inductive Inside where
  | nothing
  | lineComment
  /-- Inside a comment that was opened at the given offset. -/
  | blockComment (start : Nat)
  deriving DecidableEq

/-- Skips trivia, beginning in the given position with the given gap.  The
only failure is a comment that is opened and never closed. -/
def skipFrom : Text → Nat → Inside → Gap → Except SyntaxError (Place × Gap)
  | [], offset, .blockComment start, _ => .error ⟨.unterminatedComment, ⟨start, offset⟩⟩
  | [], offset, _, gap => .ok (⟨offset, []⟩, gap)
  | '*' :: '/' :: rest, offset, .blockComment _, gap =>
      skipFrom rest (offset + 2) .nothing (gap.after .blockComment)
  | character :: rest, offset, .blockComment start, gap =>
      skipFrom rest (offset + character.utf8Size) (.blockComment start) gap
  | character :: rest, offset, .lineComment, gap =>
      if isNewline character then
        skipFrom rest (offset + character.utf8Size) .nothing (gap.after .newline)
      else
        skipFrom rest (offset + character.utf8Size) .lineComment gap
  | '/' :: '/' :: rest, offset, .nothing, gap =>
      skipFrom rest (offset + 2) .lineComment (gap.after .lineComment)
  | '/' :: '*' :: rest, offset, .nothing, gap =>
      skipFrom rest (offset + 2) (.blockComment offset) gap
  | character :: rest, offset, .nothing, gap =>
      if isNewline character then
        skipFrom rest (offset + character.utf8Size) .nothing (gap.after .newline)
      else if isBlank character then
        skipFrom rest (offset + character.utf8Size) .nothing (gap.after .blanks)
      else
        .ok (⟨offset, character :: rest⟩, gap)

/-- The place of the next token after `place`, and the gap before it. -/
def skip (place : Place) : Except SyntaxError (Place × Gap) :=
  skipFrom place.rest place.offset .nothing .plain

end Trivia

end ScriptTree
