import ScriptTree.Recognizer.Probe
import ScriptTree.Text.Class

/-!
# Recognizers at token boundaries

Three decisions that depend on the grammar as much as on the text: whether a
statement may end without a written terminator, whether it goes on in the same
line, and whether `++` or `--` belongs to the operand before it.
-/

namespace ScriptTree

/-- What the grammar knows at the place of a decision: the gap before it, and
the marks it could take there. -/
structure Outlook where
  gap : Gap
  admitted : List Mark

namespace Outlook

def admits (outlook : Outlook) (mark : Mark) : Bool :=
  outlook.admitted.contains mark

end Outlook

namespace Recognizer

/-- Accepts an unwritten terminator before a closing brace, at the end of the
text, and after a line terminator or comment. -/
def inferredEnd (outlook : Outlook) (probe : Probe) : Probe :=
  let closes := probe.current == some '\x7d' || probe.current.isNone
  if (closes || outlook.gap.isBreak) && outlook.admits .inferredEnd then
    probe.accept .inferredEnd 0
  else
    probe

def opensComment (probe : Probe) : Bool :=
  probe.current == some '/' && (probe.ahead 1 == some '/' || probe.ahead 1 == some '*')

/-- Whether no statement can go on with the character under the probe. -/
def endsStatement (probe : Probe) : Bool :=
  match probe.current with
  | none | some '\x7d' | some ';' => true
  | some _ => false

/-- Accepts the continuation of a statement in the same line.  It declines on
whitespace and comments, which are to be skipped first. -/
def sameLine (outlook : Outlook) (probe : Probe) : Probe :=
  if probe.current.any isSkippedSpace || opensComment probe then
    probe
  else if !endsStatement probe && !outlook.gap.isBreak && outlook.admits .sameLine then
    probe.accept .sameLine 0
  else
    probe

/-- Reads `++` or `--`.  It belongs to the operand before it if the grammar
could take it there and no line terminator or comment intervenes. -/
def update (outlook : Outlook) (probe : Probe) : Probe :=
  match probe.current with
  | some '+' => second '+'
  | some '-' => second '-'
  | _ => probe
where
  /-- Insists on the second of two equal signs. -/
  second (sign : Char) : Probe :=
    if probe.step.current == some sign then
      let postfixed := !outlook.gap.isBreak && outlook.admits .postfixUpdate
      probe.step.step.accept (if postfixed then .postfixUpdate else .prefixUpdate) 0
    else
      probe.step

end Recognizer

end ScriptTree
