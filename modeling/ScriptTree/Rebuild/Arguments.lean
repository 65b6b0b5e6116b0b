import ScriptTree.Rebuild.Error
import ScriptTree.Rule

/-!
# Taking arguments

The fragments below a node are the arguments of its rule.  They are taken from
left to right, and every mismatch names the rule and the position.
-/

namespace ScriptTree

open Estree

/-- The arguments of a rule that are still to be taken, and how many were. -/
structure Arguments where
  rule : Rule
  position : Nat
  rest : List Fragment

/-- A step that takes arguments. -/
abbrev Take (Value : Type) : Type :=
  StateT Arguments (Except TransformError) Value

namespace Take

variable {Value : Type}

def mismatch (mismatch : Mismatch) : Take Value := do
  throw (.malformed (← get).rule.name mismatch)

/-- The next argument, left where it is. -/
def peek : Take (Option Fragment) := do
  return (← get).rest.head?

def next : Take (Option Fragment) :=
  fun arguments =>
    match arguments.rest with
    | [] => .ok (none, arguments)
    | fragment :: rest =>
        .ok (some fragment, { arguments with position := arguments.position + 1, rest })

/-- Fails because the next argument is not what was expected. -/
def unmet (what : String) : Take Value := do
  let arguments ← get
  mismatch (.expected what arguments.position arguments.rest.head?)

/-- The next argument, which must be a node. -/
def node (what : String) : Take Node := do
  match ← peek with
  | some (.node given) =>
      let _ ← next
      return given
  | _ => unmet what

/-- The next argument, if it is a node. -/
def node? : Take (Option Node) := do
  match ← peek with
  | some (.node given) =>
      let _ ← next
      return some given
  | _ => return none

/-- The next argument, which must be a token. -/
def token (what : String) : Take String := do
  match ← peek with
  | some (.token text) =>
      let _ ← next
      return text
  | _ => unmet what

/-- The next argument, which must be a list. -/
def list (what : String) : Take (List Node) := do
  match ← peek with
  | some (.list nodes) =>
      let _ ← next
      return nodes
  | _ => unmet what

/-- The next argument, which must be the head of a loop. -/
def loopHead : Take LoopHead := do
  match ← peek with
  | some (.loop head) =>
      let _ ← next
      return head
  | _ => unmet "loop head"

/-- Takes the next argument if it is the given token, and tells whether it
was. -/
def eat (spelling : String) : Take Bool := do
  match ← peek with
  | some (.token text) =>
      if text = spelling then
        let _ ← next
        return true
      else
        return false
  | _ => return false

/-- Takes the next argument, which must be the given token. -/
def expect (spelling : String) : Take Unit := do
  if ← eat spelling then return () else unmet ("'" ++ spelling ++ "'")

def finish : Take Unit := do
  let arguments ← get
  match arguments.rest with
  | [] => return ()
  | fragment :: _ => mismatch (.leftOver fragment arguments.position)

/-- Runs rounds until the closing token has been taken; at most `fuel` of
them. -/
def roundsUntil (closing : String) (round : Value → Take Value) : Nat → Value → Take Value
  | 0, value => do
      expect closing
      return value
  | fuel + 1, value => do
      if ← eat closing then
        return value
      else
        roundsUntil closing round fuel (← round value)

/-- Runs rounds until the closing token has been taken.  A round that finds no
argument fails, so there are no more rounds than arguments. -/
def untilToken (closing : String) (start : Value) (round : Value → Take Value) :
    Take Value := do
  roundsUntil closing round ((← get).rest.length + 1) start

/-- Takes nodes until the closing token, passing over the given separator. -/
def nodesUntil (closing separator what : String) : Take (List Node) := do
  let nodes ← untilToken closing #[] fun (nodes : Array Node) => do
    if ← eat separator then
      return nodes
    else
      return nodes.push (← node what)
  return nodes.toList

/-- Takes items while commas follow; at most `fuel` more. -/
def itemsAfter (item : Take Node) : Nat → Array Node → Take (List Node)
  | 0, items => return items.toList
  | fuel + 1, items => do
      if ← eat "," then
        itemsAfter item fuel (items.push (← item))
      else
        return items.toList

def separated (item : Take Node) : Take (List Node) := do
  let first ← item
  itemsAfter item (← get).rest.length #[first]

/-- Takes nodes while there are arguments; at most `fuel` of them. -/
def nodesToEnd (what : String) : Nat → Array Node → Take (List Node)
  | 0, nodes => return nodes.toList
  | fuel + 1, nodes => do
      if (← peek).isSome then
        nodesToEnd what fuel (nodes.push (← node what))
      else
        return nodes.toList

end Take

end ScriptTree
