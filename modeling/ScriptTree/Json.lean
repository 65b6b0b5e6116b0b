import ScriptTree.Number.Binary64

/-!
# JSON values

The data that trees are exchanged as.  Integers are kept apart from other
numbers, and the fields of an object keep their order.
-/

namespace ScriptTree

inductive Json where
  | null
  | bool (value : Bool)
  | integer (value : Int)
  | number (value : Binary64)
  | string (value : String)
  | array (items : List Json)
  | object (fields : List (String × Json))
deriving Inhabited

namespace Json

def ofString? : Option String → Json
  | none => .null
  | some text => .string text

/-- Whether a list of fields has one with the given name. -/
def hasField (name : String) (fields : List (String × Json)) : Bool :=
  fields.any fun field => field.1 == name

section

variable (combine : Nat → Nat → Nat) (name : String)

mutual

/-- Counts the objects with a field of the given name.  Such an object counts
one more than its fields, and values next to each other are combined. -/
def measure : Json → Nat
  | .array items => measureAll items
  | .object fields => measureFields fields + (if hasField name fields then 1 else 0)
  | _ => 0

def measureAll : List Json → Nat
  | [] => 0
  | item :: rest => combine (measure item) (measureAll rest)

def measureFields : List (String × Json) → Nat
  | [] => 0
  | (_, value) :: rest => combine (measure value) (measureFields rest)

end

end

/-- Number of objects in a value that have a field of the given name. -/
def countWith (name : String) (value : Json) : Nat :=
  value.measure (· + ·) name

/-- Largest number of such objects that lie inside each other. -/
def heightWith (name : String) (value : Json) : Nat :=
  value.measure max name

end Json

end ScriptTree
