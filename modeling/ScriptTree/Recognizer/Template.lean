import ScriptTree.Recognizer.Probe

/-!
# Template chunks

The text between two backticks is read in chunks.  A chunk is a run of plain
text, the opening of a hole, or the closing backtick.  Plain text also ends
after each line feed, unless the line feed is its first character.
-/

namespace ScriptTree

namespace Recognizer

/-- Reads on in a run of plain text.  `afterDollar` tells whether the previous
character was a dollar sign that may open a hole, and `scanned` how many
characters or escapes the run holds so far. -/
def templateRun (size : Nat) : Text → Nat → Bool → Nat → Probe
  | [], offset, _, scanned =>
      let probe := Probe.ofPlace size ⟨offset, []⟩
      if scanned = 0 then probe else probe.accept .templateText 0
  | '\\' :: [], offset, _, _ =>
      (Probe.ofPlace size ⟨offset + 1, []⟩).accept .templateText 0
  | '\\' :: hidden :: rest, offset, _, scanned =>
      templateRun size rest (offset + 1 + hidden.utf8Size) false (scanned + 1)
  | character :: rest, offset, afterDollar, scanned =>
      let probe := Probe.ofPlace size ⟨offset, character :: rest⟩
      if character = '\x60' then
        if scanned = 0 then probe.accept .templateEnd 1 else probe.accept .templateText 0
      else if character = '\x7b' ∧ afterDollar = true then
        if scanned = 1 then probe.accept .holeOpen 1 else probe.accept .templateText (-1)
      else if character = '\n' ∧ 0 < scanned then
        probe.step.accept .templateText 0
      else
        templateRun size rest (offset + character.utf8Size) (character == '$') (scanned + 1)

def template (probe : Probe) : Probe :=
  templateRun probe.size probe.place.rest probe.place.offset false 0

/-- The chunks from an offset on, up to the first that neither is plain text
nor opens a hole.  The last entry is that chunk, or nothing where the text
ended without one. -/
def templateChunks (text : Text) (offset : Nat) : List (Option Verdict) :=
  go (text.length + 1) offset
where
  /-- Reads at most `fuel` chunks. -/
  go : Nat → Nat → List (Option Verdict)
    | 0, _ => []
    | fuel + 1, offset =>
        match (template (Probe.ofOffset text offset)).verdict with
        | none => [none]
        | some verdict =>
            let continues := verdict.mark == .templateText || verdict.mark == .holeOpen
            if continues && offset < verdict.stop then
              some verdict :: go fuel verdict.stop
            else
              [some verdict]

end Recognizer

end ScriptTree
