import ScriptTree.Token.Scan
import ScriptTree.Tree.Basic

/-!
# Parsing steps

A parsing step reads from a state and either yields a value or fails; in both
cases it leaves a state behind.  The state after a failure matters, because a
speculative step that fails is undone only in part: the places where a head
was rejected stay known.
-/

namespace ScriptTree

namespace Grammar

/-- What stays the same while a text is read. -/
structure Settings where
  source : Text
  /-- Number of bytes of the source. -/
  size : Nat
  dialect : Dialect
  /-- The greatest nesting allowed, if it is bounded. -/
  limit : Option Nat
  /-- Whether a rejected arrow head is not tried a second time. -/
  recallsHeads : Bool

/-- Where the reader stands. -/
structure State where
  /-- The place after the last consumed token. -/
  place : Place
  /-- Whether a slash at this place opens a pattern. -/
  patternAllowed : Bool
  /-- The next token, once it has been looked at. -/
  peeked : Option Token
  /-- How deep the constructs around this place are nested. -/
  depth : Nat
  /-- Whether `return` is allowed. -/
  inFunction : Bool
  /-- Whether `await` is an operator. -/
  inAsync : Bool
  /-- Whether `in` ends an expression instead of being an operator. -/
  noIn : Bool
  /-- Offsets where an arrow head was tried and rejected. -/
  rejectedHeads : List Nat

namespace State

/-- The state before anything is read. -/
def initial (source : Text) : State where
  place := Place.first source
  patternAllowed := true
  peeked := none
  depth := 0
  inFunction := false
  inAsync := false
  noIn := false
  rejectedHeads := []

/-- The state moved to another place, with nothing looked at. -/
def moveTo (state : State) (place : Place) (patternAllowed : Bool) : State :=
  { state with place, patternAllowed, peeked := none }

def rewindTo (state earlier : State) : State :=
  { state with
    place := earlier.place
    patternAllowed := earlier.patternAllowed
    peeked := earlier.peeked
    depth := earlier.depth }

end State

/-- The result of a parsing step. -/
inductive Outcome (Value : Type) where
  | ok (value : Value) (state : State)
  | error (fault : SyntaxError) (state : State)

namespace Outcome

variable {Value : Type}

/-- The same result with a change to the state it leaves. -/
@[inline]
def mapState (change : State → State) : Outcome Value → Outcome Value
  | .ok value state => .ok value (change state)
  | .error fault state => .error fault (change state)

end Outcome

/-- A parsing step. -/
def Parse (Value : Type) : Type :=
  Settings → State → Outcome Value

namespace Parse

variable {Value Other : Type}

/-- The step that reads nothing. -/
@[inline]
protected def pure (value : Value) : Parse Value :=
  fun _ state => .ok value state

/-- One step after another; a failure of the first is final. -/
@[inline]
protected def bind (step : Parse Value) (next : Value → Parse Other) : Parse Other :=
  fun settings state =>
    match step settings state with
    | .ok value after => next value settings after
    | .error fault after => .error fault after

instance : Monad Parse where
  pure := Parse.pure
  bind := Parse.bind

@[inline]
def fail (fault : SyntaxError) : Parse Value :=
  fun _ state => .error fault state

/-- The settings in force. -/
@[inline]
def settings : Parse Settings :=
  fun settings state => .ok settings state

/-- The current state. -/
@[inline]
def state : Parse State :=
  fun _ state => .ok state state

@[inline]
def modify (change : State → State) : Parse Unit :=
  fun _ state => .ok () (change state)

/-- Runs a step in a changed state and then restores what `restore` takes from
the state before. -/
@[inline]
def within (change : State → State) (restore : State → State → State)
    (step : Parse Value) : Parse Value :=
  fun settings state => (step settings (change state)).mapState (restore state)

/-- Runs a step with `in` ending expressions or, in the other case, as an
operator. -/
@[inline]
def withNoIn (noIn : Bool) (step : Parse Value) : Parse Value :=
  within (fun state => { state with noIn })
    (fun before after => { after with noIn := before.noIn }) step

@[inline]
def withIn (step : Parse Value) : Parse Value :=
  withNoIn false step

/-- Runs a step in the concise body of an arrow function. -/
@[inline]
def withAsync (inAsync : Bool) (step : Parse Value) : Parse Value :=
  within (fun state => { state with inAsync })
    (fun before after => { after with inAsync := before.inAsync }) step

@[inline]
def inFunctionBody (inAsync : Bool) (step : Parse Value) : Parse Value :=
  within (fun state => { state with inFunction := true, inAsync, noIn := false })
    (fun before after =>
      { after with
        inFunction := before.inFunction
        inAsync := before.inAsync
        noIn := before.noIn }) step

/-- Runs a step one level deeper, unless that exceeds the nesting limit. -/
@[inline]
def nested (step : Parse Value) : Parse Value :=
  fun settings state =>
    let deeper : Outcome Value :=
      (step settings { state with depth := state.depth + 1 }).mapState
        fun after => { after with depth := after.depth - 1 }
    match settings.limit with
    | none => deeper
    | some limit =>
        if limit ≤ state.depth then
          .error ⟨.nestingTooDeep limit, .empty state.place.offset⟩ state
        else
          deeper

/-- Whether an error ends speculation too. -/
def isFinal (fault : SyntaxError) : Bool :=
  match fault.cause with
  | .nestingTooDeep _ | .stalled => true
  | _ => false

/-- Runs a step speculatively.  If it fails the position is restored, but for
errors that are final. -/
@[inline]
def attempt (step : Parse Value) : Parse (Option Value) :=
  fun settings state =>
    match step settings state with
    | .ok value after => .ok (some value) after
    | .error fault after =>
        if isFinal fault then .error fault after else .ok none (after.rewindTo state)

end Parse

/-- The error of a reader that was given too few steps. -/
def stalled : SyntaxError :=
  ⟨.stalled, .empty 0⟩

end Grammar

end ScriptTree
