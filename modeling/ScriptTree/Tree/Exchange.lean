import ScriptTree.Json
import ScriptTree.Tree.Basic

/-!
# Trees as JSON

A tree with plain names is written as an object with its name, its offsets and
its children, which are left out if there are none.  Such an object is read
back with its fields in any order, each of them once, and with other fields
passed over.  A list of the same values in order is read as well.
-/

namespace ScriptTree

namespace Tree

/-! ## Writing -/

mutual

/-- A tree with plain names as an object. -/
def encode : NamedTree → Json
  | .node name span children =>
      .object
        ([("name", .string name), ("from", .integer span.start), ("to", .integer span.stop)] ++
          encodeChildren children)

/-- The field for the children of a node, if there are any. -/
def encodeChildren : List NamedTree → List (String × Json)
  | [] => []
  | first :: rest => [("children", .array (encode first :: encodeAll rest))]

/-- Trees as objects. -/
def encodeAll : List NamedTree → List Json
  | [] => []
  | tree :: rest => encode tree :: encodeAll rest

end

def encodeSpan (span : Span) : Json :=
  .object [("start", .integer span.start), ("end", .integer span.stop)]

/-- A label as the name of its rule, or as an object with its spelling. -/
def encodeKind : Kind → Json
  | .rule rule => .string rule.name
  | .fixed spelling => .object [("Literal", .string spelling.text)]

mutual

/-- A tree that was read from a text as an object with its labels kept
apart. -/
def encodeSyntax : SyntaxTree → Json
  | .node kind span children =>
      .object
        [("kind", encodeKind kind), ("span", encodeSpan span),
          ("children", .array (encodeSyntaxAll children))]

/-- Such trees as objects. -/
def encodeSyntaxAll : List SyntaxTree → List Json
  | [] => []
  | tree :: rest => encodeSyntax tree :: encodeSyntaxAll rest

end

/-! ## Reading -/

/-- One more than the greatest offset. -/
def offsetBound : Nat := Nat.pow 2 64

/-- An offset, which must be an integer in range. -/
def decodeOffset? : Json → Option Nat
  | .integer (.ofNat offset) => if offset < offsetBound then some offset else none
  | _ => none

/-- A name, which must be a string. -/
def decodeName? : Json → Option String
  | .string name => some name
  | _ => none

/-- The fields of a node that have been found. -/
structure Parts where
  name : Option String
  start : Option Nat
  stop : Option Nat
  children : Option (List NamedTree)

namespace Parts

/-- Nothing found. -/
def none : Parts :=
  ⟨.none, .none, .none, .none⟩

/-- What is found for a field, unless the field has been found before. -/
def once? {Value : Type} (earlier found : Option Value) : Option Value :=
  if earlier.isSome then .none else found

/-- The node, once all that it needs has been found. -/
def node? (parts : Parts) : Option NamedTree := do
  return .node (← parts.name) ⟨← parts.start, ← parts.stop⟩ (parts.children.getD [])

end Parts

mutual

/-- Reads a node. -/
def decode? : Json → Option NamedTree
  | .object fields => (decodeFields? Parts.none fields).bind Parts.node?
  | .array [name, start, stop] => do
      return .node (← decodeName? name) ⟨← decodeOffset? start, ← decodeOffset? stop⟩ []
  | .array [name, start, stop, .array children] => do
      return .node (← decodeName? name) ⟨← decodeOffset? start, ← decodeOffset? stop⟩
        (← decodeAll? children)
  | _ => none

/-- Reads the fields of a node and adds them to those already found. -/
def decodeFields? (parts : Parts) : List (String × Json) → Option Parts
  | [] => some parts
  | (name, value) :: rest =>
      if name = "name" then
        (Parts.once? parts.name (decodeName? value)).bind fun found =>
          decodeFields? { parts with name := some found } rest
      else if name = "from" then
        (Parts.once? parts.start (decodeOffset? value)).bind fun found =>
          decodeFields? { parts with start := some found } rest
      else if name = "to" then
        (Parts.once? parts.stop (decodeOffset? value)).bind fun found =>
          decodeFields? { parts with stop := some found } rest
      else if name = "children" then
        match value with
        | .array items =>
            (Parts.once? parts.children (decodeAll? items)).bind fun found =>
              decodeFields? { parts with children := some found } rest
        | _ => none
      else
        decodeFields? parts rest

/-- Reads nodes. -/
def decodeAll? : List Json → Option (List NamedTree)
  | [] => some []
  | item :: rest => do
      return (← decode? item) :: (← decodeAll? rest)

end

end Tree

end ScriptTree
