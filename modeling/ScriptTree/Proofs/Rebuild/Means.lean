import Mathlib.Data.List.ReduceOption
import ScriptTree.Proofs.Rebuild.Agreement
import ScriptTree.Proofs.Rebuild.Builds

/-!
# What a tree means

A tree means a fragment if it is rebuilt into it at every depth.  What a node
means follows from what its children mean, one rule at a time.
-/

namespace ScriptTree

open Estree

/-- A tree is rebuilt into a fragment, however deep it stands. -/
def Means (source : Text) (tree : SyntaxTree) (fragment : Fragment) : Prop :=
  ∀ depth, (rebuilder source none).fold depth tree = .ok fragment

/-- Labels whose leaves stay the tokens they are. -/
def Kind.isCopied (text : Text) : Kind → Bool
  | .fixed spelling => spelling.chars == text
  | .rule .arithOp | .rule .compareOp | .rule .logicOp | .rule .bitOp | .rule .updateOp
  | .rule .assignOp | .rule .equals => true
  | _ => false

section

variable {source text : Text} {span : Span} {rule : Rule} {children : List SyntaxTree}
  {given : List Fragment} {fragment : Fragment}

theorem foldAll_means (each : List.Forall₂ (Means source) children given) (depth : Nat) :
    (rebuilder source none).foldAll depth children = .ok given := by
  induction each with
  | nil => rfl
  | cons first rest ih =>
      rw [Visitor.foldAll, first depth, ih]
      rfl

/-- A node is what its rule makes of its arguments. -/
theorem means_node {tree : SyntaxTree} {arguments : List Fragment}
    (each : List.Forall₂ (Means source) tree.children given)
    (takes : argumentsOf source tree given = .ok arguments)
    (dispatched : dispatch tree.name arguments = .ok fragment) : Means source tree fragment := by
  intro depth
  rw [Visitor.fold_eq]
  change ((rebuilder source none).foldAll (depth + 1) tree.children).bind _ = _
  rw [foldAll_means each]
  change (argumentsOf source tree given).bind _ = _
  rw [takes]
  exact dispatched

namespace Means

theorem leaf {kind : Kind} (covers : span.text? source = some text)
    (dispatched : dispatch kind.name [.token (String.ofList text)] = .ok fragment) :
    Means source (.leaf kind span) fragment :=
  means_node .nil (argumentsOf_leaf rfl covers) dispatched

/-- A sign or an operator is its text. -/
theorem copied {kind : Kind} (covers : span.text? source = some text)
    (isCopied : kind.isCopied text = true) :
    Means source (.leaf kind span) (.token (String.ofList text)) := by
  refine leaf covers ?_
  cases kind with
  | fixed spelling =>
      obtain rfl : spelling.chars = text := by simpa [Kind.isCopied] using isCopied
      exact dispatch_token spelling
  | rule given =>
      refine (dispatch_rule given _).trans ?_
      cases given <;> first | rfl | cases isCopied

theorem variableName (covers : span.text? source = some text)
    (free : Rebuild.namedValue? (String.ofList text) = none) :
    Means source (.leaf (.rule .variableName) span) (.node (.identifier (String.ofList text))) := by
  refine leaf covers ((dispatch_rule .variableName _).trans ?_)
  change Except.ok (Fragment.node ((Rebuild.namedValue? (String.ofList text)).getD _)) = _
  rw [free]
  rfl

theorem propertyName (covers : span.text? source = some text) :
    Means source (.leaf (.rule .propertyName) span) (.node (.identifier (String.ofList text))) :=
  leaf covers (dispatch_rule .propertyName _)

theorem build (each : List.Forall₂ (Means source) children given) (nonempty : children ≠ [])
    (process : rule.process given = .ok fragment) :
    Means source (Grammar.build rule children) fragment :=
  means_node each (argumentsOf_children nonempty) ((dispatch_rule rule _).trans process)

end Means

end

/-! ## Steps that use up arguments -/

namespace Take

variable {Value Other : Type}

/-- A step takes the first of some fragments, yields a value and leaves the
rest. -/
def Consumes (step : Take Value) (given : List Fragment) (value : Value) (rest : List Fragment) :
    Prop :=
  ∀ rule position, ∃ last, step ⟨rule, position, given⟩ = .ok (value, ⟨rule, last, rest⟩)

namespace Consumes

variable {given between rest : List Fragment} {value : Value} {found : Other} {spelling : String}

theorem pure (value : Value) : Consumes (Pure.pure value) given value given :=
  fun _ position => ⟨position, rfl⟩

theorem bind {first : Take Other} {next : Other → Take Value}
    (consumes : Consumes first given found between)
    (later : Consumes (next found) between value rest) :
    Consumes (first >>= next) given value rest := by
  intro rule position
  obtain ⟨middle, run⟩ := consumes rule position
  obtain ⟨last, runNext⟩ := later rule middle
  refine ⟨last, ?_⟩
  change (first ⟨rule, position, given⟩).bind (fun found => next found.1 found.2) = _
  rw [run]
  exact runNext

theorem taken : Consumes (eat spelling) (.token spelling :: rest) true rest :=
  fun _ position => ⟨position + 1, run_eat_same⟩

theorem passed {fragment : Fragment} (other : fragment ≠ .token spelling) :
    Consumes (eat spelling) (fragment :: rest) false (fragment :: rest) :=
  fun _ position => ⟨position, run_eat_other other⟩

theorem next (fragment : Fragment) :
    Consumes Take.next (fragment :: rest) (some fragment) rest :=
  fun _ position => ⟨position + 1, rfl⟩

theorem expect : Consumes (Take.expect spelling) (.token spelling :: rest) () rest :=
  .bind .taken (.pure ())

theorem node {what : String} (given : Node) :
    Consumes (Take.node what) (.node given :: rest) given rest :=
  fun _ position => ⟨position + 1, rfl⟩

theorem token {what : String} (text : String) :
    Consumes (Take.token what) (.token text :: rest) text rest :=
  fun _ position => ⟨position + 1, rfl⟩

theorem passed_head (other : rest.head? ≠ some (.token spelling)) :
    Consumes (eat spelling) rest false rest := by
  cases rest with
  | nil => exact fun _ position => ⟨position, rfl⟩
  | cons fragment rest => exact passed fun same => other (congrArg some same)

end Consumes

/-- Rounds of a loop that lead from some fragments and a value to others. -/
inductive Turns (closing : String) (round : Value → Take Value) (given : List Fragment)
    (start : Value) : List Fragment → Value → Prop
  | none : Turns closing round given start given start
  | more {fragment : Fragment} {between rest : List Fragment} {value later : Value}
      (earlier : Turns closing round given start (fragment :: between) value)
      (other : fragment ≠ .token closing)
      (consumes : Consumes (round value) (fragment :: between) later rest)
      (shorter : rest.length ≤ between.length) : Turns closing round given start rest later

namespace Turns

variable {closing : String} {round : Value → Take Value} {given between rest behind : List Fragment}
  {start value last : Value}

theorem roundsUntil (turns : Turns closing round given start rest value)
    (ends : ∀ fuel, rest.length ≤ fuel →
      Consumes (roundsUntil closing round fuel value) rest last behind) :
    ∀ fuel, given.length ≤ fuel →
      Consumes (roundsUntil closing round fuel start) given last behind := by
  induction turns with
  | none => exact ends
  | more _ other consumes shorter ih =>
      refine ih fun fuel enough => ?_
      obtain ⟨fewer, rfl⟩ : ∃ fewer, fuel = fewer + 1 := ⟨fuel - 1, by simp at enough; omega⟩
      have left := ends fewer (shorter.trans (by simpa using enough))
      exact .bind (.passed other) (.bind consumes left)

/-- The rounds end at the closing token. -/
theorem untilToken (turns : Turns closing round given start (.token closing :: rest) value) :
    Consumes (untilToken closing start round) given value rest := by
  refine turns.roundsUntil (fun fuel _ => ?_) (given.length + 1) (Nat.le_succ _)
  cases fuel with
  | zero => exact .bind .expect (.pure value)
  | succ fuel => exact .bind .taken (.pure value)

end Turns

end Take

theorem Rule.process_of_consumes {rule : Rule} {given : List Fragment} {fragment : Fragment}
    (consumes : Take.Consumes (Rebuild.handler rule) given fragment []) :
    rule.process given = .ok fragment := by
  obtain ⟨last, run⟩ := consumes rule 0
  change (Rebuild.handler rule ⟨rule, 0, given⟩).bind _ = _
  rw [run]
  rfl

/-! ## Rules of operators -/

section

variable {operator : String}

theorem unary_process (plain : Rebuild.isUpdateOperator operator = false) (argument : Node) :
    Rule.unaryExpression.process [.token operator, .node argument] =
      .ok (.node (.unaryExpression operator true argument)) := by
  refine Rule.process_of_consumes (.bind (.next _) (.bind (.node argument) ?_))
  rw [plain]
  exact .pure _

theorem update_process (isUpdate : Rebuild.isUpdateOperator operator = true) (argument : Node) :
    Rule.unaryExpression.process [.token operator, .node argument] =
        .ok (.node (.updateExpression operator true argument)) ∧
      Rule.postfixExpression.process [.node argument, .token operator] =
        .ok (.node (.updateExpression operator false argument)) := by
  constructor
  · refine Rule.process_of_consumes (.bind (.next _) (.bind (.node argument) ?_))
    rw [isUpdate]
    exact .pure _
  · refine Rule.process_of_consumes (.bind (.next _) (.bind (.token operator) ?_))
    rw [isUpdate]
    exact .pure _

theorem binary_process (plain : Rebuild.isLogicalOperator operator = false) (left right : Node) :
    Rule.binaryExpression.process [.node left, .token operator, .node right] =
      .ok (.node (.binaryExpression left operator right)) := by
  refine Rule.process_of_consumes
    (.bind (.node left) (.bind (.token operator) (.bind (.node right) ?_)))
  rw [plain]
  exact .pure _

theorem logical_process (isLogical : Rebuild.isLogicalOperator operator = true)
    (left right : Node) :
    Rule.binaryExpression.process [.node left, .token operator, .node right] =
      .ok (.node (.logicalExpression left operator right)) := by
  refine Rule.process_of_consumes
    (.bind (.node left) (.bind (.token operator) (.bind (.node right) ?_)))
  rw [isLogical]
  exact .pure _

end

/-! ## Lists with separators -/

section

open Take Rebuild

variable {closing separator what : String} {items rest : List Fragment} {nodes : List Node}

/-- Nodes are taken whatever separators stand between them. -/
theorem Take.Between.nodesUntil (between : Between separator items nodes)
    (other : closing ≠ separator) :
    Consumes (Take.nodesUntil closing separator what) (items ++ .token closing :: rest) nodes
      rest := by
  let round (nodes : Array Node) : Take (Array Node) := do
    if ← eat separator then return nodes else return nodes.push (← Take.node what)
  have turns : ∀ rest, Turns closing round (items ++ rest) #[] rest nodes.toArray := by
    induction between with
    | nil => exact fun rest => .none
    | separator _ ih =>
        intro rest
        rw [List.append_assoc]
        exact .more (ih _) (by simpa using other.symm) (.bind .taken (.pure _)) le_rfl
    | node given _ ih =>
        intro rest
        rw [List.append_assoc, ← List.push_toArray]
        exact .more (ih _) nofun (.bind (.passed nofun) (.bind (.node given) (.pure _))) le_rfl
  exact .bind (turns _).untilToken (.pure _)

theorem Rebuild.ArrayItems.turns {elements : List (Option Node)} {isAfter : Bool}
    (isItems : ArrayItems items elements isAfter) :
    Turns "]" arrayElement (items ++ rest) ⟨#[], false⟩ rest ⟨elements.toArray, isAfter⟩ := by
  induction isItems generalizing rest with
  | nil => exact .none
  | comma _ ih =>
      rw [List.append_assoc]
      exact .more ih (by simp) (.bind .taken (.pure _)) le_rfl
  | hole _ ih =>
      rw [List.append_assoc, ← List.push_toArray]
      exact .more ih (by simp) (.bind .taken (.pure _)) le_rfl
  | element given _ ih =>
      rw [List.append_assoc, ← List.push_toArray]
      exact .more ih nofun (.bind (.passed nofun) (.bind (.node given) (.pure _))) le_rfl

/-- Items are taken as long as commas stand between them. -/
theorem Take.Commas.separated {Item : List Fragment → Node → Prop} {item : Take Node}
    (commas : Commas Item items nodes)
    (takes : ∀ {part node rest}, Item part node → rest.head? ≠ some (.token "=") →
      Consumes item (part ++ rest) node rest)
    (noComma : rest.head? ≠ some (.token ",")) (noValue : rest.head? ≠ some (.token "=")) :
    Consumes (Take.separated item) (items ++ rest) nodes rest := by
  have leads : ∀ {rest behind all}, rest.head? ≠ some (.token "=") →
      (∀ fuel, rest.length ≤ fuel →
        Consumes (itemsAfter item fuel nodes.toArray) rest all behind) →
      Consumes (Take.separated item) (items ++ rest) all behind := by
    induction commas with
    | first isItem =>
        intro rest behind all noValue ends
        refine .bind (takes isItem noValue) fun rule position => ?_
        exact ends rest.length le_rfl rule position
    | comma _ isItem ih =>
        intro rest behind all noValue ends
        rw [List.append_assoc]
        refine ih (by simp) fun fuel enough => ?_
        obtain ⟨fewer, rfl⟩ : ∃ fewer, fuel = fewer + 1 := ⟨fuel - 1, by simp at enough; omega⟩
        have left := ends fewer (by simp at enough; omega)
        rw [← List.push_toArray] at left
        exact .bind .taken (.bind (takes isItem noValue) left)
  refine leads noValue fun fuel _ => ?_
  cases fuel with
  | zero => exact .pure _
  | succ fuel => exact .bind (.passed_head noComma) (.pure _)

end

/-! ## Rules of lists -/

namespace Fragment

def orToken (text : String) : Option Node → Fragment
  | some given => .node given
  | none => .token text

/-- What a list is made of: a node, or a comma. -/
def entry : Option Node → Fragment
  | some given => .node given
  | none => .token ","

theorem entry_eq_orToken : entry = orToken "," := by
  funext item
  cases item <;> rfl

end Fragment

theorem Take.between_orToken (separator : String) (items : List (Option Node)) :
    Between separator (items.map (Fragment.orToken separator)) items.reduceOption := by
  induction items using List.reverseRecOn with
  | nil => exact .nil
  | append_singleton items item ih =>
      rw [List.map_append, List.reduceOption_append]
      cases item with
      | none => simpa [Fragment.orToken] using ih.separator
      | some given => simpa [Fragment.orToken] using ih.node given

/-- What every entry with a comma before it keeps holds of any number of
them. -/
theorem Fragment.flatMap_comma {Entry : Type} {holds : List Fragment → List Node → Prop}
    {items : List Fragment} {nodes : List Node} (part : Entry → List Fragment)
    (node : Entry → Node)
    (step : ∀ entry {items nodes}, holds items nodes →
      holds (items ++ .token "," :: part entry) (nodes ++ [node entry]))
    (start : holds items nodes) (entries : List Entry) :
    holds (items ++ entries.flatMap fun entry => .token "," :: part entry)
      (nodes ++ entries.map node) := by
  induction entries generalizing items nodes with
  | nil => simpa using start
  | cons entry entries ih => simpa using ih (step entry start)

/-- The elements of an array with their commas.  A comma follows every hole,
and every element but the last. -/
def slotItems {Item : Type} : List (Option Item) → List (Option Item)
  | [] => []
  | [some item] => [some item]
  | some item :: rest => some item :: none :: slotItems rest
  | none :: rest => none :: slotItems rest

def endsInElement (elements : List (Option Node)) : Bool :=
  elements.getLast?.join.isSome

theorem arrayItems_slotItems {before : List Fragment} {taken : List (Option Node)}
    (start : Rebuild.ArrayItems before taken false) (elements : List (Option Node)) :
    Rebuild.ArrayItems (before ++ (slotItems elements).map Fragment.entry) (taken ++ elements)
      (endsInElement elements) := by
  induction elements using slotItems.induct generalizing before taken with
  | case1 => simpa [slotItems, endsInElement] using start
  | case2 given => exact start.element given
  | case3 given rest several ih =>
      have later := ih (start.element given).comma
      have ends : endsInElement (some given :: rest) = endsInElement rest := by
        rw [endsInElement, List.getLast?_cons_of_ne_nil several, endsInElement]
      rw [ends, slotItems]
      · simpa [Fragment.entry] using later
      · exact several
  | case4 rest ih =>
      have later := ih start.hole
      have ends : endsInElement (none :: rest) = endsInElement rest := by
        cases rest <;> rfl
      rw [ends, slotItems]
      simpa [Fragment.entry] using later

theorem reduceOption_intersperse (nodes : List Node) :
    ((nodes.map some).intersperse none).reduceOption = nodes := by
  induction nodes with
  | nil => rfl
  | cons first others ih =>
      cases others with
      | nil => rfl
      | cons second others =>
          rw [List.map_cons, List.map_cons, List.intersperse_cons_cons,
            List.reduceOption_cons_of_some, List.reduceOption_cons_of_none, ← List.map_cons, ih]

theorem argList_process (items : List (Option Node)) :
    Rule.argList.process (.token "(" :: (items.map Fragment.entry ++ [.token ")"])) =
      .ok (.list items.reduceOption) := by
  rw [Fragment.entry_eq_orToken]
  exact Rule.process_of_consumes
    (.bind .expect (.bind ((Take.between_orToken "," items).nodesUntil (by decide)) (.pure _)))

theorem arrayItems_process {items : List Fragment} {elements : List (Option Node)} {isAfter : Bool}
    (isItems : Rebuild.ArrayItems items elements isAfter) :
    Rule.arrayExpression.process (.token "[" :: (items ++ [.token "]"])) =
      .ok (.node (.arrayExpression elements)) :=
  Rule.process_of_consumes (.bind .expect (.bind isItems.turns.untilToken (.pure _)))

theorem array_process (items : List (Option Node)) :
    Rule.arrayExpression.process
        (.token "[" :: ((slotItems items).map Fragment.entry ++ [.token "]"])) =
      .ok (.node (.arrayExpression items)) :=
  arrayItems_process (arrayItems_slotItems .nil items)

theorem sequence_process (first : Node) (items : List Node) :
    Rule.sequenceExpression.process
        (.node first :: items.flatMap fun item => [.token ",", .node item]) =
      .ok (.node (.sequenceExpression (first :: items))) := by
  let IsNode (part : List Fragment) (node : Node) : Prop := part = [.node node]
  have start : Take.Commas IsNode [.node first] [first] := .first rfl
  have commas := Fragment.flatMap_comma (fun node => [.node node]) id
    (fun _ _ _ earlier => earlier.comma rfl) start items
  rw [List.map_id] at commas
  have taken : Take.Consumes (Take.separated (Take.node "expression")) _ _ [] :=
    commas.separated (fun isNode _ => isNode ▸ .node _) nofun nofun
  rw [List.append_nil] at taken
  exact Rule.process_of_consumes (.bind taken (.pure _))

end ScriptTree
