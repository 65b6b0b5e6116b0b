import ScriptTree.Text.Place
import ScriptTree.Token.Gap

/-!
# Probes

A probe is a disposable look at a text.  A recognizer moves it forward and may
record one verdict: a mark with the offset where it ends.  A probe without a
verdict means that the recognizer declined, and whatever it moved over has not
been consumed.
-/

namespace ScriptTree

structure Verdict where
  mark : Mark
  stop : Nat
  deriving DecidableEq

/-- A place in a text of known size, with the verdict reached so far. -/
structure Probe where
  place : Place
  size : Nat
  verdict : Option Verdict
  deriving DecidableEq

namespace Probe

/-- A probe at a place, without a verdict. -/
def ofPlace (size : Nat) (place : Place) : Probe :=
  ⟨place, size, none⟩

/-- A probe at a byte offset of a text. -/
def ofOffset (text : Text) (offset : Nat) : Probe :=
  ofPlace (Text.size text) (Place.ofOffset text offset)

/-- The character under the probe. -/
def current (probe : Probe) : Option Char :=
  probe.place.current

/-- The character `distance` characters ahead. -/
def ahead (probe : Probe) (distance : Nat) : Option Char :=
  probe.place.ahead distance

/-- The probe moved past the current character. -/
def step (probe : Probe) : Probe :=
  { probe with place := probe.place.step }

/-- The offset `shift` bytes away, kept inside the text.  A shift to before
the beginning is ignored. -/
def shifted (probe : Probe) (shift : Int) : Nat :=
  let target : Int := probe.place.offset + shift
  min (if target < 0 then probe.place.offset else target.toNat) probe.size

/-- The probe with a verdict that ends `shift` bytes away, in place of any
earlier one. -/
def accept (probe : Probe) (mark : Mark) (shift : Int) : Probe :=
  { probe with verdict := some ⟨mark, probe.shifted shift⟩ }

/-- The mark of the verdict, if there is one. -/
def mark? (probe : Probe) : Option Mark :=
  probe.verdict.map (·.mark)

end Probe

end ScriptTree
