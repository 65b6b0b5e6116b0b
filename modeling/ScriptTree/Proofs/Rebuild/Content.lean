import Mathlib.Data.List.Forall2
import Mathlib.Tactic.SplitIfs
import ScriptTree.Proofs.Newline
import ScriptTree.Proofs.Rebuild.Builds
import ScriptTree.Proofs.Tree
import ScriptTree.Proofs.Visit
import ScriptTree.Transform

/-!
# What a tree holds is kept

The names, literals and template texts of a tree come back in what the tree is
rebuilt into, each once and in the same order.  Template text may be cut in
other places, so texts next to each other are joined before the comparison.
-/

namespace ScriptTree

open Estree

/-- A name or literal, or a run of template text. -/
inductive Item where
  | word (text : String)
  | text (text : String)
  deriving DecidableEq

namespace Item

/-- Puts an item in front of others.  Text is joined with text, and empty text
is left out. -/
def put : Item → List Item → List Item
  | .word name, rest => .word name :: rest
  | .text first, .text second :: rest => .text (first ++ second) :: rest
  | .text first, rest => if first = "" then rest else .text first :: rest

/-- Items with adjacent texts joined and empty texts left out. -/
def settle (items : List Item) : List Item :=
  items.foldr put []

/-- The same items but for the cuts between texts. -/
def Same (first second : List Item) : Prop :=
  settle first = settle second

theorem put_empty (rest : List Item) : put (.text "") rest = rest := by
  cases rest with
  | nil => rfl
  | cons item rest =>
      cases item with
      | word name => rfl
      | text other => simp [put]

theorem put_text_append (first second : String) (rest : List Item) :
    put (.text (first ++ second)) rest = put (.text first) (put (.text second) rest) := by
  by_cases isEmpty : second = ""
  · rw [isEmpty, String.append_empty, put_empty]
  · have nonempty : first ++ second ≠ "" := by
      intro same
      exact isEmpty (String.append_eq_empty_iff.mp same).2
    match rest with
    | [] => simp [put, isEmpty, nonempty]
    | .word _ :: _ => simp [put, isEmpty, nonempty]
    | .text _ :: _ => simp [put, String.append_assoc]

theorem settle_put_append (item : Item) (first second : List Item) :
    settle (put item first ++ second) = put item (settle (first ++ second)) := by
  match item, first with
  | .word _, _ => rfl
  | .text given, .text other :: rest => exact put_text_append given other _
  | .text given, [] | .text given, .word _ :: _ =>
      by_cases isEmpty : given = ""
      · rw [isEmpty, put_empty, put_empty]
      · simp [put, isEmpty, settle]

theorem settle_settle_append (first second : List Item) :
    settle (settle first ++ second) = settle (first ++ second) := by
  induction first with
  | nil => rfl
  | cons item rest ih =>
      change settle (put item (settle rest) ++ second) = put item (settle (rest ++ second))
      rw [settle_put_append, ih]

theorem settle_append (first second : List Item) :
    settle (first ++ second) = first.foldr put (settle second) := by
  rw [settle, List.foldr_append]
  rfl

namespace Same

variable {first second third fourth : List Item}

theorem refl (items : List Item) : Same items items :=
  rfl

theorem of_eq (same : first = second) : Same first second :=
  congrArg settle same

theorem trans (same : Same first second) (later : Same second third) : Same first third :=
  Eq.trans same later

theorem append (same : Same first second) (later : Same third fourth) :
    Same (first ++ third) (second ++ fourth) := by
  unfold Same at *
  calc settle (first ++ third)
      = settle (settle first ++ third) := (settle_settle_append first third).symm
    _ = settle (settle second ++ third) := by rw [same]
    _ = settle (second ++ third) := settle_settle_append second third
    _ = second.foldr put (settle fourth) := by rw [settle_append, later]
    _ = settle (second ++ fourth) := (settle_append second fourth).symm

theorem text_append (before after : String) :
    Same [.text (before ++ after)] [.text before, .text after] :=
  put_text_append before after []

theorem text_empty : Same [.text ""] [] :=
  rfl

end Same

def weave : List (List Item) → List (List Item) → List Item
  | first :: firsts, second :: seconds => first ++ second ++ weave firsts seconds
  | firsts, [] => firsts.flatten
  | [], seconds => seconds.flatten

theorem weave_append {firsts seconds : List (List Item)} (others more : List (List Item))
    (sameLength : firsts.length = seconds.length) :
    weave (firsts ++ others) (seconds ++ more) = weave firsts seconds ++ weave others more := by
  induction firsts generalizing seconds with
  | nil =>
      cases seconds with
      | nil => simp [weave]
      | cons head tail => simp at sameLength
  | cons head tail ih =>
      cases seconds with
      | nil => simp at sameLength
      | cons other rest =>
          have shorter : tail.length = rest.length := by simpa using sameLength
          simp [weave, ih shorter]

theorem weave_add {firsts seconds : List (List Item)} (first second : List Item)
    (sameLength : firsts.length = seconds.length) :
    weave (firsts ++ [first]) (seconds ++ [second]) = weave firsts seconds ++ first ++ second := by
  simp [weave_append _ _ sameLength, weave]

theorem weave_close {firsts seconds : List (List Item)} (first : List Item)
    (sameLength : firsts.length = seconds.length) :
    weave (firsts ++ [first]) seconds = weave firsts seconds ++ first := by
  simpa [weave] using weave_append [first] [] sameLength

end Item

namespace Estree.Node

mutual

/-- The names, literals and texts of a node in the order they are written.  A
name that is both key and value of a property is written once. -/
def content : Node → List Item
  | .program body _ | .blockStatement body | .classBody body => contentAll body
  | .emptyStatement | .debuggerStatement => []
  | .expressionStatement inner | .throwStatement inner | .spreadElement inner
  | .restElement inner | .awaitExpression inner => content inner
  | .ifStatement test consequent alternate =>
      content test ++ content consequent ++ contentOption alternate
  | .returnStatement target | .breakStatement target | .continueStatement target =>
      contentOption target
  | .whileStatement first second | .doWhileStatement first second
  | .labeledStatement first second => content first ++ content second
  | .forStatement init test update body =>
      contentOption init ++ contentOption test ++ contentOption update ++ content body
  | .forInStatement left right body | .forOfStatement _ left right body =>
      content left ++ content right ++ content body
  | .tryStatement block handler finalizer =>
      content block ++ contentOption handler ++ contentOption finalizer
  | .catchClause param body => contentOption param ++ content body
  | .switchStatement discriminant cases => content discriminant ++ contentAll cases
  | .switchCase test consequent => contentOption test ++ contentAll consequent
  | .variableDeclaration declarations _ => contentAll declarations
  | .variableDeclarator id init => content id ++ contentOption init
  | .function _ id _ _ _ params body => contentOption id ++ contentAll params ++ content body
  | .classNode _ id superClass body =>
      contentOption id ++ contentOption superClass ++ content body
  | .methodDefinition _ _ key _ value => content key ++ content value
  | .identifier name => [.word name]
  | .literal given => [.word given.raw]
  | .thisExpression => [.word "this"]
  | .super => [.word "super"]
  | .arrayExpression elements => contentElements elements
  | .objectExpression parts | .sequenceExpression parts => contentAll parts
  | .property _ isShorthand _ key value _ =>
      if isShorthand then content key else content key ++ content value
  | .assignmentPattern left right => content left ++ content right
  | .templateLiteral quasis expressions =>
      Item.weave (contents quasis) (contents expressions)
  | .templateElement value _ => [.text value.raw]
  | .taggedTemplateExpression tag quasi => content tag ++ content quasi
  | .unaryExpression _ _ argument | .updateExpression _ _ argument => content argument
  | .binaryExpression left _ right | .logicalExpression left _ right
  | .assignmentExpression _ left right => content left ++ content right
  | .conditionalExpression test consequent alternate =>
      content test ++ content consequent ++ content alternate
  | .callExpression callee arguments _ | .newExpression callee arguments =>
      content callee ++ contentAll arguments
  | .memberExpression object key _ _ => content object ++ content key

def contentAll : List Node → List Item
  | [] => []
  | node :: rest => content node ++ contentAll rest

def contentOption : Option Node → List Item
  | none => []
  | some node => content node

def contentElements : List (Option Node) → List Item
  | [] => []
  | element :: rest => contentOption element ++ contentElements rest

def contents : List Node → List (List Item)
  | [] => []
  | node :: rest => content node :: contents rest

end

attribute [simp] contentAll contentOption contentElements contents

@[simp]
theorem contentAll_append (first second : List Node) :
    contentAll (first ++ second) = contentAll first ++ contentAll second := by
  induction first with
  | nil => rfl
  | cons node rest ih => simp [ih]

@[simp]
theorem contentElements_append (first second : List (Option Node)) :
    contentElements (first ++ second) = contentElements first ++ contentElements second := by
  induction first with
  | nil => rfl
  | cons element rest ih => simp [ih]

@[simp]
theorem contents_append (first second : List Node) :
    contents (first ++ second) = contents first ++ contents second := by
  induction first with
  | nil => rfl
  | cons node rest ih => simp [ih]

@[simp]
theorem contents_length (nodes : List Node) : (contents nodes).length = nodes.length := by
  induction nodes with
  | nil => rfl
  | cons node rest ih => simp [ih]

end Estree.Node

open Estree Node

/-- The content of the head of a loop. -/
def LoopHead.content : LoopHead → List Item
  | .counting init test update => contentOption init ++ contentOption test ++ contentOption update
  | .overKeys left right | .overValues left right => left.content ++ right.content

namespace Fragment

/-- The content of a fragment.  A token on its own is a sign or keyword. -/
def content : Fragment → List Item
  | .node given => given.content
  | .token _ => []
  | .list nodes => contentAll nodes
  | .loop head => head.content

@[simp]
theorem content_node (given : Node) : content (.node given) = given.content :=
  rfl

@[simp]
theorem content_token (text : String) : content (.token text) = [] :=
  rfl

@[simp]
theorem content_list (nodes : List Node) : content (.list nodes) = contentAll nodes :=
  rfl

@[simp]
theorem content_loop (head : LoopHead) : content (.loop head) = head.content :=
  rfl

def contentOf (fragments : List Fragment) : List Item :=
  fragments.flatMap content

@[simp]
theorem contentOf_nil : contentOf [] = [] :=
  rfl

@[simp]
theorem contentOf_append (first second : List Fragment) :
    contentOf (first ++ second) = contentOf first ++ contentOf second :=
  List.flatMap_append

@[simp]
theorem contentOf_cons (fragment : Fragment) (rest : List Fragment) :
    contentOf (fragment :: rest) = fragment.content ++ contentOf rest :=
  rfl

@[simp]
theorem contentOf_flag (present : Bool) (text : String) : contentOf (flag present text) = [] := by
  cases present <;> rfl

@[simp]
theorem contentOf_option (node : Option Node) :
    contentOf (option node) = contentOption node := by
  cases node with
  | none => rfl
  | some given => simp [option]

@[simp]
theorem contentOf_behind (text : String) (node : Option Node) :
    contentOf (behind text node) = contentOption node := by
  cases node with
  | none => rfl
  | some given => simp

@[simp]
theorem contentOf_nodes (nodes : List Node) :
    contentOf (nodes.map .node) = contentAll nodes := by
  induction nodes with
  | nil => rfl
  | cons node rest ih => simp [ih]

/-- Template text that is a fragment has its line breaks written as line
feeds. -/
def Settled : Fragment → Prop
  | .node (.templateElement value _) => '\r' ∉ value.raw.toList
  | _ => True

end Fragment

namespace Rule

open Fragment Rebuild Take

/-- What a terminal captures of its text. -/
def capture : Rule → String → List Item
  | .variableName, text | .variableDefinition, text | .propertyName, text
  | .propertyDefinition, text | .label, text | .number, text | .string, text
  | .regExp, text => [Item.word text]
  | .templateContent, text => [Item.text (TemplateText.ofText text.toList).raw]
  | _, _ => []

/-! ## Lists of arguments -/

theorem between_content {separator : String} {items : List Fragment} {nodes : List Node}
    (between : Between separator items nodes) : contentAll nodes = contentOf items := by
  induction between with
  | nil => rfl
  | separator earlier ih => simp [ih]
  | node given earlier ih => simp [ih]

theorem commas_content {Item : List Fragment → Node → Prop} {items : List Fragment}
    {nodes : List Node} (commas : Commas Item items nodes)
    (keeps : ∀ part node, Item part node → node.content = contentOf part) :
    contentAll nodes = contentOf items := by
  induction commas with
  | first item => simp [keeps _ _ item]
  | comma earlier item ih =>
      simp [ih, keeps _ _ item]

theorem declarator_content {part : List Fragment} {node : Node}
    (isDeclarator : Declarator part node) :
    node.content = contentOf part := by
  obtain ⟨id, init, rfl, rfl⟩ := isDeclarator
  simp [Node.content]

theorem arrayItems_content {items : List Fragment} {elements : List (Option Node)}
    {isAfter : Bool} (isItems : ArrayItems items elements isAfter) :
    contentElements elements = contentOf items := by
  induction isItems with
  | nil => rfl
  | comma earlier ih => simp [ih]
  | hole earlier ih =>
      simp [ih]
  | element element earlier ih =>
      simp [ih]

theorem parameterItems_content {items : List Fragment} {params : List Node}
    (isItems : ParameterItems items params) : contentAll params = contentOf items := by
  induction isItems with
  | nil => rfl
  | comma earlier ih => simp [ih]
  | rest target earlier ih =>
      simp [ih, Node.content]
  | plain param earlier ih => simp [ih]
  | initialized target value earlier ih =>
      simp [ih, Node.content]

theorem addToCases_content {cases after : List Node} {node : Node}
    (added : addToCases cases node = some after) :
    contentAll after.reverse = contentAll cases.reverse ++ node.content := by
  unfold addToCases at added
  split at added
  case h_1 test consequent =>
    cases added
    simp
  case h_2 test consequent earlier _ =>
    cases added
    simp [Node.content]
  case h_3 => cases added

theorem caseItems_content {items : List Fragment} {cases : List Node}
    (isCases : CaseItems items cases) : contentAll cases.reverse = contentOf items := by
  induction isCases with
  | nil => rfl
  | add node earlier added ih => simp [addToCases_content added, ih]

theorem words_content {words : List Fragment} {modifiers : MethodModifiers}
    (isWords : ModifierWords words modifiers) : contentOf words = [] := by
  cases isWords <;> simp

theorem key_content {keys : List Fragment} {key : Node} {isComputed : Bool}
    (isKey : KeyOf keys key isComputed) : contentOf keys = key.content := by
  cases isKey <;> simp

theorem target_content {target : List Fragment} {left : Node} (isTarget : TargetOf target left) :
    left.content = contentOf target := by
  cases isTarget <;> simp [Node.content]

theorem namedValue?_content (text : String) :
    ((namedValue? text).getD (.identifier text)).content = [.word text] := by
  unfold namedValue?
  split_ifs with isTrue isFalse isNull isThis isSuper
  all_goals simp_all [Node.content]

/-! ## Templates -/

/-- What is known of the parts of a template that were taken. -/
structure Kept (items : List Fragment) (parts : TemplateParts) : Prop where
  balanced : parts.quasis.size = parts.expressions.size
  noReturn : '\r' ∉ parts.text.toList
  same : Item.Same (Item.weave (contents parts.quasis.toList) (contents parts.expressions.toList) ++
    [.text parts.text]) (contentOf items)

theorem templateItems_kept {items : List Fragment} {parts : TemplateParts}
    (isItems : TemplateItems items parts) (settled : ∀ item ∈ items, Fragment.Settled item) :
    Kept items parts := by
  induction isItems with
  | nil => exact ⟨rfl, by simp, Item.Same.text_empty⟩
  | @text items parts value isTail earlier ih =>
      obtain ⟨balanced, noReturn, same⟩ := ih fun item isItem => settled item (by simp [isItem])
      have valueSettled : '\r' ∉ value.raw.toList :=
        settled (.node (.templateElement value isTail)) (by simp)
      refine ⟨balanced, by simp [noReturn, valueSettled], ?_⟩
      have joined := (Item.Same.refl (Item.weave (contents parts.quasis.toList)
        (contents parts.expressions.toList))).append (Item.Same.text_append parts.text value.raw)
      have added := same.append (Item.Same.refl [.text value.raw])
      rw [List.append_assoc] at added
      simpa [Node.content] using joined.trans added
  | @hole items parts inner earlier ih =>
      obtain ⟨balanced, noReturn, same⟩ := ih fun item isItem => settled item (by simp [isItem])
      refine ⟨by simp [TemplateParts.closeText, balanced], by simp [TemplateParts.closeText], ?_⟩
      have closed := (same.append (Item.Same.refl inner.content)).append Item.Same.text_empty
      simpa [TemplateParts.closeText, Node.content, TemplateText.ofText,
        Escape.normalizeNewlines_of_not_mem noReturn, Item.weave_add, balanced] using closed

theorem template_content {items : List Fragment} {parts : TemplateParts}
    (isItems : TemplateItems items parts) (settled : ∀ item ∈ items, Settled item) :
    Item.Same (Node.content (.templateLiteral (parts.closeText true).quasis.toList
      parts.expressions.toList)) (contentOf items) := by
  obtain ⟨balanced, noReturn, same⟩ := templateItems_kept isItems settled
  simpa [TemplateParts.closeText, Node.content, TemplateText.ofText,
    Escape.normalizeNewlines_of_not_mem noReturn, Item.weave_close, balanced] using same

/-! ## All rules -/

/-- Terminals keep the text they capture, and the other rules keep what they
are given. -/
theorem content_of_builds {rule : Rule} {given : List Fragment} {built : Fragment}
    (builds : Builds rule given built) (settled : ∀ fragment ∈ given, Settled fragment) :
    (∃ text, given = [.token text] ∧ built.content = rule.capture text) ∨
      (∀ text, rule.capture text = []) ∧ Item.Same built.content (contentOf given) := by
  cases builds with
  | literal isLiteral value raw =>
      simp only [List.mem_cons, List.not_mem_nil, or_false] at isLiteral
      obtain rfl | rfl | rfl := isLiteral <;> exact .inl ⟨raw, rfl, by simp [Node.content, capture]⟩
  | variableName text => exact .inl ⟨text, rfl, namedValue?_content text⟩
  | name isName text =>
      simp only [List.mem_cons, List.not_mem_nil, or_false] at isName
      obtain rfl | rfl | rfl | rfl := isName <;>
        exact .inl ⟨text, rfl, by simp [Node.content, capture]⟩
  | templateContent text => exact .inl ⟨text, rfl, by simp [Node.content, capture]⟩
  | operator isOperator text =>
      simp only [List.mem_cons, List.not_mem_nil, or_false] at isOperator
      obtain rfl | rfl | rfl | rfl | rfl | rfl | rfl | rfl := isOperator <;>
        exact .inr ⟨fun _ => rfl, .refl _⟩
  | unaryUpdate isUnary | unary isUnary | updateAfter isUnary =>
      obtain rfl | rfl := isUnary <;> exact .inr ⟨fun _ => rfl, .of_eq (by simp [Node.content])⟩
  | templateString isItems =>
      refine .inr ⟨fun _ => rfl, ?_⟩
      simpa using template_content isItems fun item isItem => settled item (by simp [isItem])
  | variableDeclaration isKeyword commas ends =>
      refine .inr ⟨fun _ => rfl, .of_eq ?_⟩
      simp [Node.content, commas_content commas fun _ _ => declarator_content]
  | sequenceExpression commas =>
      refine .inr ⟨fun _ => rfl, .of_eq ?_⟩
      rw [content_node, Node.content, commas_content commas]
      rintro _ node rfl
      simp
  | forStatement head body =>
      refine .inr ⟨fun _ => rfl, .of_eq ?_⟩
      cases head <;> simp [loopStatement, Node.content, LoopHead.content]
  | classBody between | objectExpression between | argList between =>
      exact .inr ⟨fun _ => rfl, .of_eq (by simp [Node.content, between_content between])⟩
  | arrayExpression isItems =>
      exact .inr ⟨fun _ => rfl, .of_eq (by simp [Node.content, arrayItems_content isItems])⟩
  | paramList isItems =>
      exact .inr ⟨fun _ => rfl, .of_eq (by simp [parameterItems_content isItems])⟩
  | switchBody isCases =>
      exact .inr ⟨fun _ => rfl, .of_eq (by simp [caseItems_content isCases])⟩
  | forInSpec isTarget | forOfSpec isTarget =>
      exact .inr ⟨fun _ => rfl, .of_eq (by simp [LoopHead.content, target_content isTarget])⟩
  | methodDeclaration isStatic isWords isKey | propertyValue isWords isKey
  | propertyMethod isWords isKey =>
      exact .inr ⟨fun _ => rfl, .of_eq (by simp [Node.content, MethodModifiers.function,
        words_content isWords, key_content isKey])⟩
  | propertyShorthand isKey =>
      exact .inr ⟨fun _ => rfl, .of_eq (by simp [Node.content, key_content isKey])⟩
  | _ => exact .inr ⟨fun _ => rfl, .of_eq (by simp [Node.content, LoopHead.content])⟩

theorem settled_of_builds {rule : Rule} {given : List Fragment} {built : Fragment}
    (builds : Builds rule given built) (settled : ∀ fragment ∈ given, Settled fragment) :
    Settled built := by
  cases builds with
  | templateContent text =>
      simpa [Settled, TemplateText.ofText] using Escape.normalizeNewlines_not_mem _
  | parenthesizedExpression inner | finallyClause inner =>
      exact settled (.node inner) (by simp)
  | variableName text =>
      unfold namedValue?
      split_ifs <;> trivial
  | forStatement head body => cases head <;> trivial
  | _ => trivial

theorem token_of_builds {rule : Rule} {given : List Fragment} {text : String}
    (builds : Builds rule given (.token text)) : given = [.token text] := by
  cases builds
  rfl

theorem capture_of_token {rule : Rule} {given : List Fragment} {text : String}
    (builds : Builds rule given (.token text)) (wording : String) : rule.capture wording = [] := by
  cases builds with
  | operator isOperator =>
      simp only [List.mem_cons, List.not_mem_nil, or_false] at isOperator
      obtain rfl | rfl | rfl | rfl | rfl | rfl | rfl | rfl := isOperator <;> rfl

end Rule

namespace Tree

variable {Label : Type} [Named Label]

/-- The text that a node covers which has at most one leaf below it. -/
def wording (source : Text) : Tree Label → String
  | .node _ span [] => ((span.text? source).map String.ofList).getD ""
  | .node _ _ (child :: _) => wording source child

/-- What a node captures if its rule is that of a named terminal. -/
def capture (source : Text) (tree : Tree Label) : List Item :=
  match Rule.ofName? tree.name with
  | some rule => rule.capture (tree.wording source)
  | none => []

/-- What the named terminals of a tree capture, from left to right. -/
def captured (source : Text) (tree : Tree Label) : List Item :=
  tree.preorder.flatMap fun found => found.2.capture source

theorem captured_eq (source : Text) (tree : Tree Label) :
    tree.captured source = tree.capture source ++ tree.children.flatMap (captured source) := by
  have each : ∀ tree : Tree Label, tree.captured source = tree.nodes.flatMap (capture source) := by
    intro tree
    rw [captured, ← preorder_nodes, List.flatMap_map]
  rw [each, nodes_eq, List.flatMap_cons, List.flatMap_assoc]
  congr 2
  funext child
  rw [each]

end Tree

/-! ## Trees -/

section

variable {Label : Type} [Named Label] {source : Text}

/-- A fragment holds what a tree captures.  A token holds nothing but its
text. -/
structure Fragment.Holds (source : Text) (tree : Tree Label) (fragment : Fragment) : Prop where
  settled : fragment.Settled
  same : Item.Same fragment.content (tree.captured source)
  token : ∀ text, fragment = .token text → tree.captured source = [] ∧ tree.wording source = text

open Fragment

/-- What is known of the arguments of a node. -/
structure Arranged (source : Text) (tree : Tree Label) (arguments : List Fragment) : Prop where
  settled : ∀ fragment ∈ arguments, Settled fragment
  same : Item.Same (contentOf arguments) (tree.children.flatMap (Tree.captured source))
  token : ∀ text, arguments = [.token text] →
    tree.children.flatMap (Tree.captured source) = [] ∧ tree.wording source = text

theorem holds_contentOf {trees : List (Tree Label)} {below : List Fragment}
    (holds : List.Forall₂ (Holds source) trees below) :
    Item.Same (contentOf below) (trees.flatMap (Tree.captured source)) := by
  induction holds with
  | nil => exact .refl []
  | cons first rest ih => exact first.same.append ih

theorem holds_settled {trees : List (Tree Label)} {below : List Fragment}
    (holds : List.Forall₂ (Holds source) trees below) :
    ∀ fragment ∈ below, Settled fragment := by
  induction holds with
  | nil => simp
  | cons first rest ih => simpa using ⟨first.settled, ih⟩

theorem argumentsOf_arranged {tree : Tree Label} {below arguments : List Fragment}
    (holds : List.Forall₂ (Holds source) tree.children below)
    (given : argumentsOf source tree below = .ok arguments) : Arranged source tree arguments := by
  obtain ⟨label, span, children⟩ := tree
  cases children with
  | nil =>
      unfold argumentsOf at given
      dsimp only [Tree.children, Tree.span] at given
      cases covered : span.text? source with
      | none =>
          rw [covered] at given
          cases given
      | some text =>
          rw [covered] at given
          cases given
          refine ⟨by simp [Settled], .refl [], ?_⟩
          rintro _ ⟨⟩
          refine ⟨rfl, ?_⟩
          rw [Tree.wording, covered]
          rfl
  | cons first rest =>
      cases given
      refine ⟨holds_settled holds, holds_contentOf holds, ?_⟩
      rintro text rfl
      obtain ⟨child, _, isHeld, none, same⟩ := List.forall₂_cons_right_iff.mp holds
      cases none
      cases same
      obtain ⟨captured, wording⟩ := isHeld.token text rfl
      refine ⟨by simpa [Tree.children] using captured, ?_⟩
      rw [Tree.wording]
      exact wording

theorem dispatch_holds {tree : Tree Label} {arguments : List Fragment} {fragment : Fragment}
    (arranged : Arranged source tree arguments)
    (run : dispatch tree.name arguments = .ok fragment) : Holds source tree fragment := by
  unfold dispatch at run
  cases found : Rule.ofName? tree.name with
  | none =>
      have captures : tree.capture source = [] := by rw [Tree.capture, found]
      rw [found] at run
      dsimp only at run
      split at run
      case h_1 text =>
        obtain ⟨none, wording⟩ := arranged.token text rfl
        have captured : tree.captured source = [] := by rw [Tree.captured_eq, captures, none]; rfl
        split at run
        case isTrue same =>
          cases run
          refine ⟨trivial, .of_eq captured.symm, ?_⟩
          rintro _ ⟨⟩
          exact ⟨captured, wording.trans same⟩
        case isFalse => cases run
      case h_2 => cases run
  | some rule =>
      rw [found] at run
      have builds := Rule.builds_of_process run
      have captures : tree.captured source = rule.capture (tree.wording source) ++
          tree.children.flatMap (Tree.captured source) := by
        rw [Tree.captured_eq, Tree.capture, found]
      refine ⟨Rule.settled_of_builds builds arranged.settled, ?_, ?_⟩
      · rw [captures]
        rcases Rule.content_of_builds builds arranged.settled with
          ⟨text, rfl, content⟩ | ⟨nothing, same⟩
        · obtain ⟨none, wording⟩ := arranged.token text rfl
          rw [none, wording, List.append_nil]
          exact .of_eq content
        · rw [nothing, List.nil_append]
          exact same.trans arranged.same
      · rintro text rfl
        obtain rfl := Rule.token_of_builds builds
        obtain ⟨none, wording⟩ := arranged.token text rfl
        refine ⟨?_, wording⟩
        rw [captures, none, Rule.capture_of_token builds, List.append_nil]

theorem leave_ok {limit : Option Nat} {depth : Nat} {tree : Tree Label} {below : List Fragment}
    {fragment : Fragment} (run : (rebuilder source limit).leave depth tree below = .ok fragment) :
    ∃ arguments, argumentsOf source tree below = .ok arguments ∧
      dispatch tree.name arguments = .ok fragment := by
  change (argumentsOf source tree below).bind (dispatch tree.name) = _ at run
  cases given : argumentsOf source tree below with
  | error error =>
      rw [given] at run
      cases run
  | ok arguments =>
      rw [given] at run
      exact ⟨arguments, rfl, run⟩

theorem fold_holds {limit : Option Nat} {depth : Nat} {tree : Tree Label} {fragment : Fragment}
    (run : (rebuilder source limit).fold depth tree = .ok fragment) :
    Holds source tree fragment := by
  induction tree using Tree.induct generalizing depth fragment with
  | node label span children ih =>
      obtain ⟨below, folded, left⟩ := Visitor.fold_ok run
      have holds := Visitor.foldAll_related (fun child isChild _ => ih child isChild) folded
      obtain ⟨arguments, given, dispatched⟩ := leave_ok left
      exact dispatch_holds (argumentsOf_arranged holds given) dispatched

/-- Rebuilding a tree of any origin loses, repeats and moves nothing of what
its named terminals capture. -/
theorem content_transformCursor (options : Options) (source : Text) (cursor after : Cursor Label)
    (fragment : Fragment)
    (run : transformCursor options source cursor = .ok (fragment, after)) :
    Item.settle fragment.content = Item.settle (cursor.focus.captured source) := by
  obtain ⟨folded, -⟩ := Cursor.visit_ok run
  exact (fold_holds folded).same

end

/-- A template whose texts stand on both sides of a name. -/
theorem content_transformCursor_template :
    ∃ (tree : NamedTree) (fragment : Fragment) (after : Cursor String),
      transformCursor ⟨.script, .standard⟩ ['\x60', 'a', '$', '\x7b', 'x', '\x7d', '\x60']
        (.ofTree tree) = .ok (fragment, after) ∧
      Item.settle fragment.content = [.text "a", .word "x"] := by
  let tree : NamedTree := .node "TemplateString" ⟨0, 7⟩
    [.leaf "\x60" ⟨0, 1⟩, .leaf "TemplateContent" ⟨1, 2⟩, .leaf "$\x7b" ⟨2, 4⟩,
      .leaf "VariableName" ⟨4, 5⟩, .leaf "\x7d" ⟨5, 6⟩, .leaf "\x60" ⟨6, 7⟩]
  have rebuilt : (transformCursor ⟨.script, .standard⟩
      ['\x60', 'a', '$', '\x7b', 'x', '\x7d', '\x60'] (.ofTree tree)).isOk = true := by
    decide +kernel
  cases run : transformCursor ⟨.script, .standard⟩
      ['\x60', 'a', '$', '\x7b', 'x', '\x7d', '\x60'] (.ofTree tree) with
  | error error =>
      rw [run] at rebuilt
      cases rebuilt
  | ok found =>
      refine ⟨tree, found.1, found.2, run, ?_⟩
      rw [content_transformCursor _ _ _ _ _ run]
      decide +kernel

end ScriptTree
