/-!
# Gaps between tokens

The grammar asks of the trivia before a token only whether it held a line
terminator or a comment.  A gap remembers the last item of trivia that was not
a run of blanks.  It is updated mark by mark, where a mark is anything the
recognizers can report about a stretch of text.
-/

namespace ScriptTree

/-- What a stretch of text can be recognized as. -/
inductive Mark where
  | blanks
  | newline
  | lineComment
  | blockComment
  /-- A terminator that is inferred and covers no text. -/
  | inferredEnd
  /-- The assurance, covering no text, that a statement goes on. -/
  | sameLine
  | postfixUpdate
  | prefixUpdate
  | templateText
  | holeOpen
  | templateEnd
  | dialectWord
  /-- Any other token. -/
  | token
  deriving DecidableEq

inductive Gap where
  | plain
  | newline
  | comment
  deriving DecidableEq

namespace Gap

/-- Whether a line terminator or comment separates two tokens. -/
def isBreak : Gap → Bool
  | .plain => false
  | .newline | .comment => true

/-- The gap after one more mark: blanks change nothing and a token starts
afresh. -/
def after (gap : Gap) : Mark → Gap
  | .lineComment | .blockComment => .comment
  | .newline => .newline
  | .blanks => gap
  | _ => .plain

/-- The gaps after each of a sequence of marks, beginning with a plain one. -/
def trace (marks : List Mark) : List Gap :=
  go .plain marks
where
  go (gap : Gap) : List Mark → List Gap
    | [] => []
    | mark :: rest => gap.after mark :: go (gap.after mark) rest

end Gap

end ScriptTree
