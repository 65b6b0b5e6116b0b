import Mathlib.Data.List.ReduceOption
import Mathlib.Tactic.SplitIfs
import ScriptTree.Proofs.Estree.Nodes
import ScriptTree.Proofs.Rebuild.Builds

/-!
# What the built nodes are made of

A rule takes over the nodes it is given.  It puts at most a few inner nodes of
its own between them and the node it builds, such as the function of a method.
A property of single nodes therefore holds of everything below a built node if
it holds of what was given, of the inner nodes and of the built node itself.
-/

namespace ScriptTree

open Estree Node
open Fragment (flag option behind)

namespace Fragment

/-- The nodes of a fragment. -/
def nodes : Fragment → List Node
  | .node given => [given]
  | .token _ => []
  | .list given => given
  | .loop (.counting init test update) => init.toList ++ test.toList ++ update.toList
  | .loop (.overKeys left right) | .loop (.overValues left right) => [left, right]

def nodesOf (fragments : List Fragment) : List Node :=
  fragments.flatMap nodes

attribute [simp] nodes

@[simp]
theorem nodesOf_nil : nodesOf [] = [] :=
  rfl

@[simp]
theorem nodesOf_append (first second : List Fragment) :
    nodesOf (first ++ second) = nodesOf first ++ nodesOf second :=
  List.flatMap_append

@[simp]
theorem nodesOf_cons (fragment : Fragment) (rest : List Fragment) :
    nodesOf (fragment :: rest) = fragment.nodes ++ nodesOf rest :=
  rfl

@[simp]
theorem nodesOf_flag (present : Bool) (text : String) : nodesOf (flag present text) = [] := by
  cases present <;> rfl

@[simp]
theorem nodesOf_option (node : Option Node) : nodesOf (option node) = node.toList := by
  cases node <;> rfl

@[simp]
theorem nodesOf_behind (text : String) (node : Option Node) :
    nodesOf (behind text node) = node.toList := by
  cases node <;> rfl

@[simp]
theorem nodesOf_nodes (nodes : List Node) : nodesOf (nodes.map .node) = nodes := by
  induction nodes with
  | nil => rfl
  | cons node rest ih => simp [ih]

end Fragment

open Fragment (nodesOf)

namespace Rebuild

open Take

/-! ## Inner nodes -/

/-- The types of the nodes that a rule puts below the node it builds. -/
def isInner : Node → Bool
  | .variableDeclaration .. | .variableDeclarator .. | .function .. | .switchCase ..
  | .restElement .. | .assignmentPattern .. | .templateElement .. => true
  | _ => false

/-- A node that was given to a rule, an inner node made of such nodes, or a
node that was taken out of an inner node. -/
inductive Part (given : List Node) : Node → Prop
  | given {node : Node} (isGiven : node ∈ given) : Part given node
  | inner {node : Node} (inner : isInner node = true)
      (parts : ∀ child ∈ node.children, Part given child) : Part given node
  | child {node parent : Node} (isPart : Part given parent) (inner : isInner parent = true)
      (isChild : node ∈ parent.children) : Part given node

structure Made (given : List Node) (node : Node) : Prop where
  unnamed : ∀ name, node ≠ .identifier name
  parts : ∀ child ∈ node.children, Part given child

variable {given more : List Node} {node : Node}

theorem uses_of_isInner (inner : isInner node = true) : node.uses = node.children := by
  cases node <;> first | rfl | cases inner

theorem unnamed_of_isInner (inner : isInner node = true) (name : String) :
    node ≠ .identifier name := by
  rintro rfl
  cases inner

theorem Part.mono (part : Part given node) (subset : given ⊆ more) : Part more node := by
  induction part with
  | given isGiven => exact .given (subset isGiven)
  | inner inner _ ih => exact .inner inner ih
  | child _ inner isChild ih => exact ih.child inner isChild

section Every

variable {holds : Node → Prop}

theorem Part.every (all : ∀ other ∈ given, other.Every holds)
    (each : ∀ other, isInner other = true → (∀ child ∈ other.children, Part given child) →
      holds other) (part : Part given node) : node.Every holds := by
  induction part with
  | given isGiven => exact all _ isGiven
  | inner inner parts ih => exact .node (each _ inner parts) ih
  | child _ inner isChild ih => exact ih.of_child _ isChild

/-- A property holds of everything below a node that was made if it holds of
the node. -/
theorem Made.every (all : ∀ other ∈ given, other.Every holds)
    (each : ∀ other, isInner other = true → (∀ child ∈ other.children, Part given child) →
      holds other) (made : Made given node) (here : holds node) : node.Every holds :=
  .node here fun child isChild => (made.parts child isChild).every all each

end Every

/-! ## Lists of nodes -/

theorem between_nodes {separator : String} {items : List Fragment} {nodes : List Node}
    (between : Between separator items nodes) : nodesOf items = nodes := by
  induction between with
  | nil => rfl
  | separator earlier ih => simp [ih]
  | node given earlier ih => simp [ih]

theorem arrayItems_nodes {items : List Fragment} {elements : List (Option Node)} {isAfter : Bool}
    (isItems : ArrayItems items elements isAfter) : nodesOf items = elements.reduceOption := by
  induction isItems with
  | nil => rfl
  | comma earlier ih => simp [ih]
  | hole earlier ih => simp [ih, List.reduceOption_append]
  | element element earlier ih => simp [ih, List.reduceOption_append]

/-- Items between commas are parts if each of them is. -/
theorem commas_parts {Item : List Fragment → Node → Prop} {items : List Fragment}
    {nodes : List Node} (commas : Commas Item items nodes)
    (each : ∀ part node, Item part node → Part (nodesOf part) node) :
    ∀ node ∈ nodes, Part (nodesOf items) node := by
  induction commas with
  | first item => simpa using each _ _ item
  | @comma items part nodes node earlier item ih =>
      intro found isIn
      rcases List.mem_append.mp isIn with isEarlier | isLast
      · exact (ih found isEarlier).mono (by simp)
      · rw [List.mem_singleton.mp isLast]
        exact (each _ _ item).mono (by simp)

theorem declarator_part {part : List Fragment} (item : Declarator part node) :
    Part (nodesOf part) node := by
  obtain ⟨id, init, rfl, rfl⟩ := item
  exact .inner rfl fun child isChild => .given (by simpa [children] using isChild)

/-- One more node behind others. -/
theorem parts_snoc {nodes added : List Node} (all : ∀ found ∈ nodes, Part given found)
    (last : Part (given ++ added) node) :
    ∀ found ∈ nodes ++ [node], Part (given ++ added) found := by
  simp only [List.mem_append, List.mem_singleton, or_imp, forall_and, forall_eq]
  exact ⟨fun found isIn => (all found isIn).mono (List.subset_append_left _ _), last⟩

theorem parameters_parts {items : List Fragment} {params : List Node}
    (isItems : ParameterItems items params) : ∀ param ∈ params, Part (nodesOf items) param := by
  induction isItems with
  | nil => simp
  | comma earlier ih => simpa using ih
  | rest target earlier ih =>
      rw [Fragment.nodesOf_append]
      exact parts_snoc ih (.inner rfl fun child isChild => .given (by simp_all [children]))
  | plain param earlier ih =>
      rw [Fragment.nodesOf_append]
      exact parts_snoc ih (.given (by simp))
  | initialized target value earlier ih =>
      rw [Fragment.nodesOf_append]
      exact parts_snoc ih (.inner rfl fun child isChild => .given (by simp_all [children]))

/-- A statement is put into the last case, which is made anew. -/
theorem addToCases_parts {cases after : List Node}
    (all : ∀ found ∈ cases, Part given found) (isPart : Part given node)
    (added : addToCases cases node = some after) : ∀ found ∈ after, Part given found := by
  unfold addToCases at added
  split at added
  · cases added
    exact List.forall_mem_cons.mpr ⟨isPart, all⟩
  · rename_i test consequent earlier _
    cases added
    obtain ⟨last, others⟩ := List.forall_mem_cons.mp all
    refine List.forall_mem_cons.mpr ⟨.inner rfl fun child isChild => ?_, others⟩
    have isOld : child ∈ (Node.switchCase test consequent).children ∨ child = node := by
      simpa [children, or_assoc] using isChild
    rcases isOld with isOld | rfl
    · exact last.child rfl isOld
    · exact isPart
  · cases added

theorem cases_parts {items : List Fragment} {cases : List Node} (isItems : CaseItems items cases) :
    ∀ node ∈ cases, Part (nodesOf items) node := by
  induction isItems with
  | nil => simp
  | add node earlier added ih =>
      rw [Fragment.nodesOf_append]
      refine addToCases_parts (fun found isIn => ?_) (.given (by simp)) added
      exact (ih found isIn).mono (List.subset_append_left _ _)

theorem template_parts {items : List Fragment} {parts : TemplateParts}
    (isItems : TemplateItems items parts) :
    (∀ node ∈ (parts.closeText true).quasis, Part (nodesOf items) node) ∧
      ∀ node ∈ parts.expressions, Part (nodesOf items) node := by
  have text {given : List Node} (value : TemplateText) (isTail : Bool) :
      Part given (.templateElement value isTail) := .inner rfl (by simp [children])
  have all : (∀ node ∈ parts.quasis, Part (nodesOf items) node) ∧
      ∀ node ∈ parts.expressions, Part (nodesOf items) node := by
    induction isItems with
    | nil => simp
    | text value isTail earlier ih =>
        rw [Fragment.nodesOf_append]
        exact ⟨fun node isIn => (ih.1 node isIn).mono (List.subset_append_left _ _),
          fun node isIn => (ih.2 node isIn).mono (List.subset_append_left _ _)⟩
    | hole inner earlier ih =>
        rw [Fragment.nodesOf_append]
        simp only [TemplateParts.closeText, Array.mem_push, or_imp, forall_and, forall_eq]
        exact ⟨⟨fun node isIn => (ih.1 node isIn).mono (List.subset_append_left _ _), text _ _⟩,
          fun node isIn => (ih.2 node isIn).mono (List.subset_append_left _ _),
          .given (by simp)⟩
  refine ⟨?_, all.2⟩
  simp only [TemplateParts.closeText, Array.mem_push, or_imp, forall_and, forall_eq]
  exact ⟨all.1, text _ _⟩

theorem target_part {target : List Fragment} {left : Node} (isTarget : TargetOf target left) :
    Part (nodesOf target) left := by
  cases isTarget with
  | declared isKeyword id =>
      have declarator : Part [id] (.variableDeclarator id none) :=
        .inner rfl fun child isChild => .given (by simpa [children] using isChild)
      exact .inner rfl fun child isChild => by simp_all [children]
  | plain target => exact .given (by simp)

theorem method_part (modifiers : MethodModifiers) (params : List Node) (body : Node) :
    Part (params ++ [body]) (modifiers.function params body) :=
  .inner rfl fun child isChild =>
    .given (by simpa [MethodModifiers.function, children] using isChild)

theorem key_nodes {keys : List Fragment} {key : Node} {isComputed : Bool}
    (isKey : KeyOf keys key isComputed) : nodesOf keys = [key] := by
  cases isKey <;> rfl

end Rebuild

/-! ## All rules -/

open Rebuild Take

/-- A rule makes a name of its only argument. -/
def Rule.Names (rule : Rule) (given : List Fragment) (node : Node) : Prop :=
  rule ∈ [.variableName, .variableDefinition, .propertyName, .propertyDefinition, .label] ∧
    ∃ text, given = [.token text] ∧ node = .identifier text

/-- The nodes of what a rule builds are parts, or there is one node that is made
of parts, or one name that is made of a token. -/
theorem Rule.Builds.made {rule : Rule} {given : List Fragment} {built : Fragment}
    (builds : rule.Builds given built) : ∀ node ∈ built.nodes, Part (nodesOf given) node ∨
      (built = .node node ∧ Made (nodesOf given) node) ∨ rule.Names given node := by
  have whole {node : Node} (unnamed : ∀ name, node ≠ .identifier name)
      (parts : ∀ child ∈ node.children, Part (nodesOf given) child) :
      ∀ found ∈ (Fragment.node node).nodes, Part (nodesOf given) found ∨
        (.node node = Fragment.node found ∧ Made (nodesOf given) found) ∨
          rule.Names given found := by
    simpa using .inr (.inl ⟨unnamed, parts⟩)
  have taken {node : Node} (unnamed : ∀ name, node ≠ .identifier name)
      (subset : node.children ⊆ nodesOf given) :
      ∀ found ∈ (Fragment.node node).nodes, Part (nodesOf given) found ∨
        (.node node = Fragment.node found ∧ Made (nodesOf given) found) ∨
          rule.Names given found :=
    whole unnamed fun child isChild => .given (subset isChild)
  cases builds with
  | operator _ text => simp
  | variableName text =>
      unfold namedValue?
      split_ifs
      case neg => simpa using .inr (.inr ⟨by simp, text, rfl, rfl⟩)
      all_goals exact taken (by simp) (by simp [children])
  | name isName text =>
      simpa using .inr (.inr ⟨List.mem_cons_of_mem _ isName, text, rfl, rfl⟩)
  | parenthesizedExpression inner | finallyClause inner => simpa using .inl (.given (by simp))
  | variableDeclaration isKeyword commas ends =>
      refine whole (by simp) fun child isChild => ?_
      exact (commas_parts commas (fun _ _ => declarator_part) child isChild).mono (by simp)
  | sequenceExpression commas =>
      refine whole (by simp) fun child isChild => commas_parts commas ?_ child isChild
      rintro _ node rfl
      exact .given (by simp)
  | classBody between | objectExpression between =>
      exact taken (by simp) (by simp [children, between_nodes between])
  | argList between =>
      exact fun node isIn => .inl (.given (by simpa [between_nodes between] using isIn))
  | arrayExpression isItems =>
      exact taken (by simp) (by simp [children, arrayItems_nodes isItems])
  | paramList isItems =>
      exact fun node isIn => .inl ((parameters_parts isItems node isIn).mono (by simp))
  | switchBody isCases =>
      refine fun node isIn => .inl ((cases_parts isCases node ?_).mono (by simp))
      exact List.mem_reverse.mp isIn
  | templateString isItems =>
      obtain ⟨texts, holes⟩ := template_parts isItems
      refine whole (by simp) fun child isChild => ?_
      rcases List.mem_append.mp isChild with isText | isHole
      · exact (texts child (Array.mem_toList_iff.mp isText)).mono (by simp)
      · exact (holes child (Array.mem_toList_iff.mp isHole)).mono (by simp)
  | forInSpec isTarget | forOfSpec isTarget =>
      simp only [Fragment.nodes, List.mem_cons, List.not_mem_nil, or_false, forall_eq_or_imp,
        forall_eq]
      exact ⟨.inl ((target_part isTarget).mono (by simp)), .inl (.given (by simp))⟩
  | forSpec init test update =>
      exact fun node isIn => .inl (.given (by simpa [or_assoc] using isIn))
  | forStatement head body =>
      cases head <;> exact taken (by simp [loopStatement]) (by simp [loopStatement, children])
  | switchStatement | call | newCall | newBare =>
      exact taken (by simp) (by simp [children])
  | methodDeclaration isStatic isWords isKey params body =>
      exact whole (by simp) (by
        simpa [children] using ⟨.given (by simp [key_nodes isKey]),
          (method_part _ params body).mono (by simp)⟩)
  | propertyMethod isWords isKey params body =>
      exact whole (by simp) (by
        simpa [children] using ⟨.given (by simp [key_nodes isKey]),
          (method_part _ params body).mono (by simp)⟩)
  | propertyValue isWords isKey | propertyShorthand isKey =>
      exact taken (by simp) (by simp [children, key_nodes isKey])
  | _ => exact taken (by simp) (by simp [children])

/-- A property of single nodes holds of everything below the nodes that a rule
builds. -/
theorem Rule.Builds.every {holds : Node → Prop} {rule : Rule} {given : List Fragment}
    {built : Fragment} (builds : rule.Builds given built)
    (all : ∀ node ∈ nodesOf given, node.Every holds)
    (inner : ∀ node, isInner node = true →
      (∀ child ∈ node.children, Part (nodesOf given) child) → holds node)
    (made : ∀ node, built = .node node → Made (nodesOf given) node → holds node)
    (named : ∀ name, holds (.identifier name)) : ∀ node ∈ built.nodes, node.Every holds := by
  intro node isIn
  obtain part | ⟨isRoot, isMade⟩ | ⟨-, text, -, rfl⟩ := builds.made node isIn
  · exact part.every all inner
  · exact isMade.every all inner (made node isRoot isMade)
  · exact .node (named text) (by simp [children])

end ScriptTree
