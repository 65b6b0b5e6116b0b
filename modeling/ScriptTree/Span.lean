import ScriptTree.Text.Basic

/-!
# Spans

A span is a half-open range of byte offsets.  Its ends are not required to be
in order or inside any text; only asking for the covered text checks that.
-/

namespace ScriptTree

/-- The byte offsets from `start` up to, but not including, `stop`. -/
structure Span where
  start : Nat
  stop : Nat
  deriving DecidableEq, Inhabited

namespace Span

/-- The span that covers nothing at an offset. -/
def empty (offset : Nat) : Span :=
  ⟨offset, offset⟩

/-- Number of bytes covered; a span whose ends are out of order covers none. -/
def length (span : Span) : Nat :=
  span.stop - span.start

def isEmpty (span : Span) : Bool :=
  span.length == 0

def through (span last : Span) : Span :=
  ⟨span.start, last.stop⟩

/-- The covered part of a text, if the span lies on its character
boundaries. -/
def text? (span : Span) (source : Text) : Option Text :=
  source.slice? span.start span.stop

end Span

end ScriptTree
