import ScriptTree.Estree.Encode
import ScriptTree.Proofs.Estree.Nodes

/-!
# Counting the nodes of what is written

What is written for a node is an object with a type, and in it there are the
objects of the nodes right below.  So the objects with a type tell how many
nodes there are, and how deep they nest.
-/

namespace ScriptTree

namespace Estree

namespace Node

variable (combine : Nat → Nat → Nat)

/-- What is counted in what is written for some nodes next to each other. -/
def measureAll (nodes : List Node) : Nat :=
  (nodes.map fun node => node.encode.measure combine "type").foldr combine 0

theorem measureAll_nil : measureAll combine [] = 0 :=
  rfl

theorem measureAll_cons (first : Node) (rest : List Node) :
    measureAll combine (first :: rest) =
      combine (first.encode.measure combine "type") (measureAll combine rest) :=
  rfl

theorem measureAll_encodeAll (nodes : List Node) :
    Json.measureAll combine "type" (encodeAll nodes) = measureAll combine nodes := by
  induction nodes with
  | nil => rfl
  | cons first rest ih => rw [encodeAll, Json.measureAll, ih, measureAll_cons]

variable [Std.LawfulIdentity combine 0]

theorem combine_zero (count : Nat) : combine count 0 = count :=
  Std.LawfulRightIdentity.right_id count

theorem zero_combine (count : Nat) : combine 0 count = count :=
  Std.LawfulLeftIdentity.left_id count

theorem measure_typed (node : Node) (fields : List (String × Json)) :
    (typed node fields).measure combine "type" =
      Json.measureFields combine "type" fields + 1 := by
  simp [typed, Json.measure, Json.measureFields, Json.hasField, zero_combine]

theorem measure_encodeOptional (node : Option Node) :
    (encodeOptional node).measure combine "type" = measureAll combine node.toList := by
  cases node with
  | none => rfl
  | some node => exact (combine_zero combine _).symm

theorem measureAll_encodeHoles (elements : List (Option Node)) :
    Json.measureAll combine "type" (encodeHoles elements) =
      measureAll combine elements.reduceOption := by
  induction elements with
  | nil => rfl
  | cons first rest ih =>
      rw [encodeHoles, Json.measureAll, ih]
      cases first with
      | none => exact zero_combine combine _
      | some node => rfl

theorem measureFields_literal (value : Literal) :
    Json.measureFields combine "type" value.encodeFields = 0 := by
  have number (found : Binary64) :
      (LiteralValue.encodeNumber found).measure combine "type" = 0 := by
    unfold LiteralValue.encodeNumber
    split
    · split <;> rfl
    · split <;> rfl
  cases value with
  | mk value raw =>
      cases value <;> simp [Literal.encodeFields, LiteralValue.encode, LiteralValue.encodeExtra,
        Json.measureFields, Json.measure, Json.hasField, combine_zero, number]

theorem measure_templateText (text : TemplateText) :
    text.encode.measure combine "type" = 0 := by
  cases text with
  | mk raw cooked =>
      cases cooked <;> simp [TemplateText.encode, Json.ofString?, Json.measure,
        Json.measureFields, Json.hasField, combine_zero]

variable [Std.Associative combine]

theorem measureAll_append (first second : List Node) :
    measureAll combine (first ++ second) =
      combine (measureAll combine first) (measureAll combine second) := by
  induction first with
  | nil => exact (zero_combine combine _).symm
  | cons node rest ih =>
      rw [List.cons_append, measureAll_cons, measureAll_cons, ih]
      exact (Std.Associative.assoc _ _ _).symm

theorem measure_encode (node : Node) :
    node.encode.measure combine "type" = measureAll combine node.children + 1 := by
  have single (node : Node) : measureAll combine [node] = node.encode.measure combine "type" :=
    combine_zero combine _
  cases node
  all_goals
    simp [encode, measure_typed, children, Json.measureFields, Json.measure, measureAll_encodeAll,
      measure_encodeOptional, measureAll_encodeHoles, measureFields_literal, measure_templateText,
      measureAll_append, measureAll_nil, measureAll_cons, single, combine_zero, zero_combine]

/-- A node is written with one object for every node below it and one more. -/
theorem countWith_encode (node : Node) :
    node.encode.countWith "type" =
      (node.children.map fun child => child.encode.countWith "type").foldr (· + ·) 0 + 1 :=
  measure_encode (· + ·) node

/-- The objects of a node lie one deeper than those of its children. -/
theorem heightWith_encode (node : Node) :
    node.encode.heightWith "type" =
      (node.children.map fun child => child.encode.heightWith "type").foldr max 0 + 1 :=
  measure_encode max node

end Node

end Estree

end ScriptTree
