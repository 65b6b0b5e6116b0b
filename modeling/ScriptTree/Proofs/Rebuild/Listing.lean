import ScriptTree.Estree.Encode
import ScriptTree.Proofs.Rebuild.Means

/-!
# Lists are rebuilt as they were written

A list-shaped rule sees the items of a list mixed with separators.  Writing a
list out as such arguments and applying the rule gives the list back, whatever
its length, its holes and its optional separators.
-/

namespace ScriptTree

open Estree Take Rebuild
open Fragment (flag option behind)

namespace Estree

def Node.isCase : Node → Bool
  | .switchCase _ _ => true
  | _ => false

end Estree

/-! ## Entries -/

inductive Parameter where
  | plain (name : Node)
  | initialized (name value : Node)
  /-- All arguments that are left. -/
  | rest (name : Node)

namespace Parameter

def flatten : Parameter → List Fragment
  | plain name => [.node name]
  | initialized name value => [.node name, .token "=", .node value]
  | rest name => [.token "...", .node name]

/-- The node of a parameter. -/
def node : Parameter → Node
  | plain name => name
  | initialized name value => .assignmentPattern name value
  | rest name => .restElement name

end Parameter

/-- A declared name with its value. -/
structure Binding where
  name : Node
  init : Option Node

namespace Binding

/-- The arguments that stand for a declared name. -/
def flatten (binding : Binding) : List Fragment :=
  .node binding.name :: behind "=" binding.init

/-- The node of a declared name. -/
def node (binding : Binding) : Node :=
  .variableDeclarator binding.name binding.init

end Binding

/-- A case of a switch with its statements; the default case has no test. -/
structure Case where
  test : Option Node
  body : List Node
  /-- A statement is no case itself. -/
  plain : ∀ node ∈ body, node.isCase = false

namespace Case

/-- The arguments that stand for a case: its label and its statements. -/
def flatten (given : Case) : List Fragment :=
  .node (.switchCase given.test []) :: given.body.map .node

/-- The node of a case. -/
def node (given : Case) : Node :=
  .switchCase given.test given.body

end Case

/-! ## Lists -/

/-- Entries with commas between them, and perhaps one behind the last. -/
def withCommas (parts : List (List Fragment)) (closed : Bool) : List Fragment :=
  [.token ","].intercalate parts ++ flag closed ","

/-- A list as it is written, with the separators that its value does not
tell. -/
inductive Listing where
  /-- A comma follows every hole and every element.  Only behind a last element
  it is optional. -/
  | array (elements : List (Option Node)) (closed : Bool)
  | object (properties : List Node) (closed : Bool)
  | arguments (nodes : List Node) (closed : Bool)
  | parameters (entries : List Parameter) (closed : Bool)
  | declaration (kind : VariableKind) (first : Binding) (others : List Binding) (ended : Bool)
  | sequence (first : Node) (others : List Node)
  /-- Methods, and the semicolons before, between and behind them. -/
  | classBody (members : List (Option Node))
  | switchBody (cases : List Case)
  /-- The label of a case, or of the default case. -/
  | label (test : Option Node)

namespace Listing

/-- The rule that makes a list. -/
def rule : Listing → Rule
  | array _ _ => .arrayExpression
  | object _ _ => .objectExpression
  | arguments _ _ => .argList
  | parameters _ _ => .paramList
  | declaration _ _ _ _ => .variableDeclaration
  | sequence _ _ => .sequenceExpression
  | classBody _ => .classBody
  | switchBody _ => .switchBody
  | label (some _) => .caseLabel
  | label none => .defaultLabel

/-- The arguments of the rule. -/
def flatten : Listing → List Fragment
  | array elements closed =>
      .token "[" :: ((slotItems elements).map Fragment.entry ++
        flag (closed && endsInElement elements) "," ++ [.token "]"])
  | object properties closed =>
      .token "\x7b" :: (withCommas (properties.map fun node => [.node node]) closed ++
        [.token "\x7d"])
  | arguments nodes closed =>
      .token "(" :: (withCommas (nodes.map fun node => [.node node]) closed ++ [.token ")"])
  | parameters entries closed =>
      .token "(" :: (withCommas (entries.map Parameter.flatten) closed ++ [.token ")"])
  | declaration kind first others ended =>
      .token kind.name :: (withCommas ((first :: others).map Binding.flatten) false ++
        flag ended ";")
  | sequence first others => withCommas ((first :: others).map fun node => [.node node]) false
  | classBody members =>
      .token "\x7b" :: (members.map (Fragment.orToken ";") ++ [.token "\x7d"])
  | switchBody cases => .token "\x7b" :: (cases.flatMap Case.flatten ++ [.token "\x7d"])
  | label (some test) => [.token "case", .node test, .token ":"]
  | label none => [.token "default", .token ":"]

/-- What a list is rebuilt into. -/
def value : Listing → Fragment
  | array elements _ => .node (.arrayExpression elements)
  | object properties _ => .node (.objectExpression properties)
  | arguments nodes _ => .list nodes
  | parameters entries _ => .list (entries.map Parameter.node)
  | declaration kind first others _ =>
      .node (.variableDeclaration ((first :: others).map Binding.node) kind)
  | sequence first others => .node (.sequenceExpression (first :: others))
  | classBody members => .node (.classBody members.reduceOption)
  | switchBody cases => .list (cases.map Case.node)
  | label test => .node (.switchCase test [])

end Listing

/-! ## Items between separators -/

theorem intercalate_comma (first : List Fragment) (others : List (List Fragment)) :
    [Fragment.token ","].intercalate (first :: others) =
      first ++ others.flatMap fun part => .token "," :: part := by
  induction others generalizing first with
  | nil => simp [List.intercalate]
  | cons second others ih =>
      rw [List.intercalate, List.intersperse_cons_cons, List.flatten_cons, List.flatten_cons,
        ← List.intercalate, ih]
      simp

/-- What a comma and every entry keep holds of entries with commas. -/
theorem withCommas_holds {Entry : Type} {holds : List Fragment → List Node → Prop}
    (part : Entry → List Fragment) (node : Entry → Node)
    (comma : ∀ {items nodes}, holds items nodes → holds (items ++ [.token ","]) nodes)
    (item : ∀ entry {items nodes}, holds items nodes →
      holds (items ++ part entry) (nodes ++ [node entry]))
    (nil : holds [] []) (entries : List Entry) (closed : Bool) :
    holds (withCommas (entries.map part) closed) (entries.map node) := by
  have isOpen : holds ([.token ","].intercalate (entries.map part)) (entries.map node) := by
    cases entries with
    | nil => exact nil
    | cons first others =>
        have start := item first nil
        have step (entry : Entry) {items : List Fragment} {nodes : List Node}
            (earlier : holds items nodes) :
            holds (items ++ .token "," :: part entry) (nodes ++ [node entry]) := by
          simpa using item entry (comma earlier)
        have all := Fragment.flatMap_comma part node step start others
        rw [List.map_cons, intercalate_comma, List.flatMap_map]
        exact all
  cases closed with
  | true => exact comma isOpen
  | false => simpa [withCommas] using isOpen

theorem between_withCommas (nodes : List Node) (closed : Bool) :
    Between "," (withCommas (nodes.map fun node => [.node node]) closed) nodes := by
  have between : Between "," (withCommas (nodes.map fun node => [.node node]) closed)
      (nodes.map id) :=
    withCommas_holds _ id .separator (fun node _ _ earlier => earlier.node node) .nil nodes closed
  rwa [List.map_id] at between

theorem parameterItems_withCommas (entries : List Parameter) (closed : Bool) :
    ParameterItems (withCommas (entries.map Parameter.flatten) closed)
      (entries.map Parameter.node) := by
  refine withCommas_holds _ _ .comma (fun entry _ _ earlier => ?_) .nil entries closed
  cases entry with
  | plain name => exact earlier.plain name
  | initialized name value => exact earlier.initialized name value
  | rest name => exact earlier.rest name

theorem commas_withCommas {Entry : Type} {Item : List Fragment → Node → Prop}
    (part : Entry → List Fragment) (node : Entry → Node)
    (isItem : ∀ entry, Item (part entry) (node entry)) (first : Entry) (others : List Entry) :
    Commas Item (withCommas ((first :: others).map part) false) ((first :: others).map node) := by
  have start : Commas Item (part first) [node first] := .first (isItem first)
  have all := Fragment.flatMap_comma part node
    (fun entry _ _ earlier => earlier.comma (isItem entry)) start others
  rw [withCommas, List.map_cons, intercalate_comma, List.flatMap_map]
  simpa using all

theorem arrayItems_closed (elements : List (Option Node)) (closed : Bool) :
    ∃ isAfter, ArrayItems ((slotItems elements).map Fragment.entry ++
      flag (closed && endsInElement elements) ",") elements isAfter := by
  have isOpen := arrayItems_slotItems .nil elements
  cases isClosed : closed && endsInElement elements with
  | false => exact ⟨_, by simpa using isOpen⟩
  | true =>
      rw [(Bool.and_eq_true _ _ |>.mp isClosed).2] at isOpen
      exact ⟨false, isOpen.comma⟩

theorem addToCases_plain {test : Option Node} {body earlier : List Node} {node : Node}
    (plain : node.isCase = false) :
    addToCases (.switchCase test body :: earlier) node =
      some (.switchCase test (body ++ [node]) :: earlier) := by
  cases node <;> first | rfl | cases plain

/-- The statements of a case go to the case that was begun last. -/
theorem caseItems_body {items : List Fragment} {test : Option Node} {taken earlier body : List Node}
    (start : CaseItems items (.switchCase test taken :: earlier))
    (plain : ∀ node ∈ body, node.isCase = false) :
    CaseItems (items ++ body.map .node) (.switchCase test (taken ++ body) :: earlier) := by
  induction body generalizing items taken with
  | nil => simpa using start
  | cons node body ih =>
      have begun := start.add node (addToCases_plain (plain node (by simp)))
      simpa using ih begun fun later isLater => plain later (by simp [isLater])

theorem caseItems_flatten {items : List Fragment} {taken : List Node}
    (start : CaseItems items taken) (cases : List Case) :
    CaseItems (items ++ cases.flatMap Case.flatten) ((cases.map Case.node).reverse ++ taken) := by
  induction cases generalizing items taken with
  | nil => simpa using start
  | cons given cases ih =>
      have label := start.add (.switchCase given.test []) rfl
      have whole := caseItems_body label given.plain
      simpa [Case.flatten, Case.node] using ih whole

/-! ## Rounds -/

section

variable {items rest : List Fragment}

theorem Rebuild.ParameterItems.turns {params : List Node} (isItems : ParameterItems items params)
    (noValue : rest.head? ≠ some (.token "=")) :
    Turns ")" parameter (items ++ rest) #[] rest params.toArray := by
  induction isItems generalizing rest with
  | nil => exact .none
  | comma _ ih =>
      rw [List.append_assoc]
      exact .more (ih (by simp)) (by simp) (.bind .taken (.pure _)) le_rfl
  | rest target _ ih =>
      rw [List.append_assoc, ← List.push_toArray]
      refine .more (ih (by simp)) (by simp) ?_ (Nat.le_succ _)
      exact .bind (.passed (by simp)) (.bind .taken (.bind (.node target) (.pure _)))
  | plain param _ ih =>
      rw [List.append_assoc, ← List.push_toArray]
      refine .more (ih (by simp)) nofun ?_ le_rfl
      exact .bind (.passed nofun) (.bind (.passed nofun)
        (.bind (.node param) (.bind (.passed_head noValue) (.pure _))))
  | initialized target value _ ih =>
      rw [List.append_assoc, ← List.push_toArray]
      refine .more (ih (by simp)) nofun ?_ (Nat.le_add_right _ 2)
      exact .bind (.passed nofun) (.bind (.passed nofun)
        (.bind (.node target) (.bind .taken (.bind (.node value) (.pure _)))))

theorem Rebuild.CaseItems.turns {cases : List Node} (isItems : CaseItems items cases) :
    Turns "\x7d" (fun (cases : List Node) => do
      match addToCases cases (← Take.node "case or statement") with
      | some cases => return cases
      | none => Take.mismatch .statementBeforeCase) (items ++ rest) [] rest cases := by
  induction isItems generalizing rest with
  | nil => exact .none
  | add node _ added ih =>
      rw [List.append_assoc]
      refine .more ih nofun (.bind (.node node) ?_) le_rfl
      rw [added]
      exact .pure _

theorem Binding.declarator (binding : Binding) : Declarator binding.flatten binding.node :=
  ⟨binding.name, binding.init, rfl, rfl⟩

theorem Rebuild.Declarator.consumes {part : List Fragment} {node : Node}
    (isDeclarator : Declarator part node) (noValue : rest.head? ≠ some (.token "=")) :
    Consumes declarator (part ++ rest) node rest := by
  obtain ⟨id, init, rfl, rfl⟩ := isDeclarator
  cases init with
  | none => exact .bind (.node id) (.bind (.passed_head noValue) (.pure _))
  | some value => exact .bind (.node id) (.bind .taken (.bind (.node value) (.pure _)))

end

theorem Estree.VariableKind.ofKeyword?_name (kind : VariableKind) :
    VariableKind.ofKeyword? kind.name = some kind := by
  cases kind <;> rfl

/-! ## Lists and their arguments -/

theorem parameterItems_process {items : List Fragment} {params : List Node}
    (isItems : ParameterItems items params) :
    Rule.paramList.process (.token "(" :: (items ++ [.token ")"])) = .ok (.list params) := by
  have turns : Turns ")" parameter (items ++ [.token ")"]) #[] [.token ")"] params.toArray :=
    isItems.turns (by simp)
  exact Rule.process_of_consumes (.bind .expect (.bind turns.untilToken (.pure _)))

theorem declarators_process {items : List Fragment} {bindings : List Node} (kind : VariableKind)
    (commas : Commas Declarator items bindings) (ended : Bool) :
    Rule.variableDeclaration.process (.token kind.name :: (items ++ flag ended ";")) =
      .ok (.node (.variableDeclaration bindings kind)) := by
  have taken : Consumes (separated declarator) (items ++ flag ended ";") _ (flag ended ";") :=
    commas.separated Declarator.consumes (by cases ended <;> simp) (by cases ended <;> simp)
  have ends : Consumes (eat ";") (flag ended ";") ended [] := by
    cases ended with
    | false => exact .passed_head nofun
    | true => exact .taken
  refine Rule.process_of_consumes (.bind (.token kind.name) ?_)
  rw [VariableKind.ofKeyword?_name]
  exact .bind taken (.bind ends (.pure _))

theorem caseItems_process {items : List Fragment} {cases : List Node}
    (isItems : CaseItems items cases) :
    Rule.switchBody.process (.token "\x7b" :: (items ++ [.token "\x7d"])) =
      .ok (.list cases.reverse) :=
  Rule.process_of_consumes (.bind .expect (.bind isItems.turns.untilToken (.pure _)))

/-- Every list is rebuilt from the arguments that it is written out as. -/
theorem Listing.process_flatten (listing : Listing) :
    listing.rule.process listing.flatten = .ok listing.value := by
  cases listing with
  | array elements closed =>
      obtain ⟨isAfter, isItems⟩ := arrayItems_closed elements closed
      exact arrayItems_process isItems
  | object properties closed =>
      have between := between_withCommas properties closed
      exact Rule.process_of_consumes
        (.bind .expect (.bind (between.nodesUntil (by decide)) (.pure _)))
  | arguments nodes closed =>
      have between := between_withCommas nodes closed
      exact Rule.process_of_consumes
        (.bind .expect (.bind (between.nodesUntil (by decide)) (.pure _)))
  | parameters entries closed =>
      exact parameterItems_process (parameterItems_withCommas entries closed)
  | declaration kind first others ended =>
      have commas := commas_withCommas Binding.flatten Binding.node Binding.declarator first others
      exact declarators_process kind commas ended
  | sequence first others =>
      have flat : (sequence first others).flatten =
          .node first :: others.flatMap fun node => [.token ",", .node node] := by
        rw [flatten, withCommas, List.map_cons, intercalate_comma, List.flatMap_map]
        simp
      rw [flat]
      exact sequence_process first others
  | classBody members =>
      have between := between_orToken ";" members
      exact Rule.process_of_consumes
        (.bind .expect (.bind (between.nodesUntil (by decide)) (.pure _)))
  | switchBody cases =>
      have isItems := caseItems_flatten .nil cases
      rw [List.append_nil] at isItems
      rw [value, ← List.reverse_reverse (cases.map Case.node)]
      exact caseItems_process isItems
  | label test =>
      cases test with
      | none => exact Rule.process_of_consumes (.bind .expect (.bind .expect (.pure _)))
      | some test =>
          exact Rule.process_of_consumes
            (.bind .expect (.bind (.node test) (.bind .expect (.pure _))))

example (element : Node) :
    Rule.arrayExpression.process
        [.token "[", .token ",", .node element, .token ",", .token ",", .token "]"] =
      .ok (.node (.arrayExpression [none, some element, none])) :=
  rfl

end ScriptTree
