import ScriptTree.Rebuild.Process

/-!
# Errors of rules

A rule fails only over what is below its node: because the arguments do not
fit, or because a literal has no value.
-/

namespace ScriptTree

open Estree

/-- An error about the arguments of one rule. -/
def TransformError.IsLocal : TransformError → Prop
  | .malformed _ _ | .literal _ _ => True
  | _ => False

namespace Take

variable {Value Other : Type}

/-- Whenever a step fails, its error is about the arguments. -/
def Faults (step : Take Value) : Prop :=
  ∀ arguments fault, step arguments = .error fault → fault.IsLocal

namespace Faults

/-! ## Steps -/

theorem pure (value : Value) : Faults (Pure.pure value) := by
  intro arguments fault run
  cases run

theorem bind {step : Take Other} {next : Other → Take Value} (first : Faults step)
    (later : ∀ value, Faults (next value)) : Faults (step >>= next) := by
  intro arguments fault run
  change (step arguments).bind (fun found => next found.1 found.2) = _ at run
  cases found : step arguments with
  | error other =>
      rw [found] at run
      cases run
      exact first arguments fault found
  | ok result =>
      rw [found] at run
      exact later result.1 result.2 fault run

theorem map {step : Take Other} (change : Other → Value) (faults : Faults step) :
    Faults (change <$> step) := by
  intro arguments fault run
  change (step arguments).bind (fun found => .ok (change found.1, found.2)) = _ at run
  cases found : step arguments with
  | error other =>
      rw [found] at run
      cases run
      exact faults arguments fault found
  | ok result =>
      rw [found] at run
      cases run

theorem get : Faults (get : Take Arguments) := by
  intro arguments fault run
  cases run

theorem lift {result : Except TransformError Value}
    (isLocal : ∀ fault, result = .error fault → fault.IsLocal) :
    Faults (liftM result : Take Value) := by
  intro arguments fault run
  cases result with
  | error other =>
      cases run
      exact isLocal fault rfl
  | ok value => cases run

theorem ite {test : Prop} [Decidable test] {yes no : Take Value} (yesFaults : Faults yes)
    (noFaults : Faults no) : Faults (if test then yes else no) := by
  by_cases holds : test
  · rwa [if_pos holds]
  · rwa [if_neg holds]

theorem mismatch (given : Mismatch) : Faults (Take.mismatch given : Take Value) := by
  intro arguments fault run
  cases run
  trivial

theorem unmet (what : String) : Faults (Take.unmet what : Take Value) :=
  .bind .get fun _ => mismatch _

theorem peek : Faults Take.peek :=
  .bind .get fun _ => .pure _

theorem next : Faults Take.next := by
  intro arguments fault run
  unfold Take.next at run
  split at run <;> cases run

/-! ## Single arguments -/

theorem node (what : String) : Faults (Take.node what) := by
  refine .bind peek fun found => ?_
  split
  · exact .bind next fun _ => .pure _
  · exact unmet what

theorem node? : Faults Take.node? := by
  refine .bind peek fun found => ?_
  split
  · exact .bind next fun _ => .pure _
  · exact .pure _

theorem token (what : String) : Faults (Take.token what) := by
  refine .bind peek fun found => ?_
  split
  · exact .bind next fun _ => .pure _
  · exact unmet what

theorem list (what : String) : Faults (Take.list what) := by
  refine .bind peek fun found => ?_
  split
  · exact .bind next fun _ => .pure _
  · exact unmet what

theorem loopHead : Faults Take.loopHead := by
  refine .bind peek fun found => ?_
  split
  · exact .bind next fun _ => .pure _
  · exact unmet _

theorem eat (spelling : String) : Faults (Take.eat spelling) := by
  refine .bind peek fun found => ?_
  split
  · exact .ite (.bind next fun _ => .pure _) (.pure _)
  · exact .pure _

theorem expect (spelling : String) : Faults (Take.expect spelling) :=
  .bind (eat spelling) fun _ => .ite (.pure _) (unmet _)

theorem finish : Faults Take.finish := by
  refine .bind .get fun arguments => ?_
  cases arguments.rest with
  | nil => exact .pure _
  | cons => exact mismatch _

/-! ## Runs of arguments -/

theorem roundsUntil {closing : String} {round : Value → Take Value}
    (each : ∀ value, Faults (round value)) (fuel : Nat) (value : Value) :
    Faults (Take.roundsUntil closing round fuel value) := by
  induction fuel generalizing value with
  | zero => exact .bind (expect closing) fun _ => .pure _
  | succ fuel ih =>
      exact .bind (eat closing) fun _ => .ite (.pure _) (.bind (each value) fun after => ih after)

theorem untilToken {closing : String} {start : Value} {round : Value → Take Value}
    (each : ∀ value, Faults (round value)) : Faults (Take.untilToken closing start round) :=
  .bind .get fun _ => roundsUntil each _ _

theorem nodesUntil (closing separator what : String) :
    Faults (Take.nodesUntil closing separator what) :=
  .bind (untilToken fun _ => .bind (eat _) fun _ => .ite (.pure _)
    (.bind (node _) fun _ => .pure _)) fun _ => .pure _

theorem itemsAfter {item : Take Node} (faults : Faults item) (fuel : Nat) (items : Array Node) :
    Faults (Take.itemsAfter item fuel items) := by
  induction fuel generalizing items with
  | zero => exact .pure _
  | succ fuel ih =>
      exact .bind (eat _) fun _ => .ite (.bind faults fun found => ih _) (.pure _)

theorem separated {item : Take Node} (faults : Faults item) : Faults (Take.separated item) :=
  .bind faults fun _ => .bind .get fun _ => itemsAfter faults _ _

theorem nodesToEnd (what : String) (fuel : Nat) (nodes : Array Node) :
    Faults (Take.nodesToEnd what fuel nodes) := by
  induction fuel generalizing nodes with
  | zero => exact .pure _
  | succ fuel ih =>
      exact .bind peek fun _ => .ite (.bind (node what) fun found => ih _) (.pure _)

end Faults

end Take

namespace Rebuild

open Take Take.Faults

/-! ## Statements -/

theorem script_faults : Faults script := by
  have rest : Faults (do
      let body ← Take.nodesToEnd "statement" (← get).rest.length #[]
      return Fragment.node (.program body .script)) :=
    .bind .get fun _ => .bind (nodesToEnd _ _ _) fun _ => .pure _
  refine .bind .get fun arguments => ?_
  split
  · exact .bind next fun _ => rest
  · exact rest

theorem expressionStatement_faults : Faults expressionStatement :=
  .bind (node _) fun _ => .bind (eat _) fun _ => .pure _

theorem declarator_faults : Faults declarator :=
  .bind (node _) fun _ => .bind (eat _) fun _ => .ite (.bind (node _) fun _ => .pure _) (.pure _)

theorem variableDeclaration_faults : Faults variableDeclaration := by
  refine .bind (token _) fun keyword => ?_
  split
  · exact mismatch _
  · exact .bind (separated declarator_faults) fun _ => .bind (eat _) fun _ => .pure _

theorem block_faults : Faults block :=
  .bind (expect _) fun _ => .bind (untilToken fun _ => .bind (node _) fun _ => .pure _) fun _ =>
    .pure _

theorem emptyStatement_faults : Faults emptyStatement :=
  .bind (expect _) fun _ => .pure _

theorem debuggerStatement_faults : Faults debuggerStatement :=
  .bind (expect _) fun _ => .bind (eat _) fun _ => .pure _

theorem labeledStatement_faults : Faults labeledStatement :=
  .bind (node _) fun _ => .bind (expect _) fun _ => .bind (node _) fun _ => .pure _

theorem jump_faults (keyword : String) (build : Option Node → Node) :
    Faults (jump keyword build) :=
  .bind (expect _) fun _ => .bind node? fun _ => .bind (eat _) fun _ => .pure _

theorem throwStatement_faults : Faults throwStatement :=
  .bind (expect _) fun _ => .bind (node _) fun _ => .bind (eat _) fun _ => .pure _

theorem ifStatement_faults : Faults ifStatement :=
  .bind (expect _) fun _ => .bind (node _) fun _ => .bind (node _) fun _ => .bind (eat _) fun _ =>
    .ite (.bind (node _) fun _ => .pure _) (.pure _)

theorem whileStatement_faults : Faults whileStatement :=
  .bind (expect _) fun _ => .bind (node _) fun _ => .bind (node _) fun _ => .pure _

theorem doStatement_faults : Faults doStatement :=
  .bind (expect _) fun _ => .bind (node _) fun _ => .bind (expect _) fun _ =>
    .bind (node _) fun _ => .bind (eat _) fun _ => .pure _

theorem forStatement_faults : Faults forStatement :=
  .bind (expect _) fun _ => .bind loopHead fun _ => .bind (node _) fun _ => .pure _

theorem forSpec_faults : Faults forSpec :=
  .bind (expect _) fun _ => .bind node? fun _ => .bind (expect _) fun _ => .bind node? fun _ =>
    .bind (expect _) fun _ => .bind node? fun _ => .bind (expect _) fun _ => .pure _

theorem peekVariableKind_faults : Faults peekVariableKind := by
  refine .bind peek fun found => ?_
  split
  · exact .pure _
  · exact .pure _

theorem iterationTarget_faults : Faults iterationTarget := by
  refine .bind peekVariableKind_faults fun found => ?_
  split
  · exact .bind next fun _ => .bind (node _) fun _ => .pure _
  · exact node _

theorem iterationSpec_faults (keyword : String) (build : Node → Node → LoopHead) :
    Faults (iterationSpec keyword build) :=
  .bind (expect _) fun _ => .bind iterationTarget_faults fun _ => .bind (expect _) fun _ =>
    .bind (node _) fun _ => .bind (expect _) fun _ => .pure _

theorem handler?_faults : Faults handler? := by
  refine .bind peek fun found => ?_
  split
  · exact node?
  · exact .pure _

theorem tryStatement_faults : Faults tryStatement :=
  .bind (expect _) fun _ => .bind (node _) fun _ => .bind handler?_faults fun _ =>
    .bind node? fun _ => .ite (mismatch _) (.pure _)

theorem catchClause_faults : Faults catchClause :=
  .bind (expect _) fun _ => .bind (eat _) fun _ => .ite
    (.bind (node _) fun _ => .bind (expect _) fun _ => .bind (node _) fun _ => .pure _)
    (.bind (node _) fun _ => .pure _)

theorem finallyClause_faults : Faults finallyClause :=
  .bind (expect _) fun _ => .bind (node _) fun _ => .pure _

theorem switchStatement_faults : Faults switchStatement :=
  .bind (expect _) fun _ => .bind (node _) fun _ => .bind (list _) fun _ => .pure _

theorem switchBody_faults : Faults switchBody := by
  refine .bind (expect _) fun _ => .bind (untilToken fun cases => ?_) fun _ => .pure _
  refine .bind (node _) fun found => ?_
  split
  · exact .pure _
  · exact mismatch _

theorem caseLabel_faults : Faults caseLabel :=
  .bind (expect _) fun _ => .bind (node _) fun _ => .bind (expect _) fun _ => .pure _

theorem defaultLabel_faults : Faults defaultLabel :=
  .bind (expect _) fun _ => .bind (expect _) fun _ => .pure _

/-! ## Functions and classes -/

theorem function_faults (form : FunctionForm) : Faults (function form) :=
  .bind (eat _) fun _ => .bind (expect _) fun _ => .bind (eat _) fun _ => .bind node? fun _ =>
    .bind (list _) fun _ => .bind (node _) fun _ => .pure _

theorem arrowFunction_faults : Faults arrowFunction := by
  have rest (isAsync : Bool) (params : List Node) : Faults (do
      Take.expect "=>"
      let body ← Take.node "arrow body"
      return Fragment.node
        (.function .arrow none (!isBlock body) false isAsync params body)) :=
    .bind (expect _) fun _ => .bind (node _) fun _ => .pure _
  refine .bind (eat _) fun isAsync => .bind next fun found => ?_
  split
  · exact .bind (.pure _) fun params => rest isAsync params
  · exact .bind (.pure _) fun params => rest isAsync params
  · exact .bind (mismatch _) fun params => rest isAsync params

theorem parameter_faults (params : Array Node) : Faults (parameter params) :=
  .bind (eat _) fun _ => .ite (.pure _) (.bind (eat _) fun _ => .ite
    (.bind (node _) fun _ => .pure _) (.bind (node _) fun _ => .bind (eat _) fun _ => .ite
      (.bind (node _) fun _ => .pure _) (.pure _)))

theorem paramList_faults : Faults paramList :=
  .bind (expect _) fun _ => .bind (untilToken parameter_faults) fun _ => .pure _

theorem take_faults : Faults MethodModifiers.take := by
  have star (build : Bool → MethodModifiers) : Faults (do return build (← Take.eat "*")) :=
    .bind (eat _) fun _ => .pure _
  exact .bind (eat _) fun _ => .ite (star _) (.bind (eat _) fun _ => .ite (star _)
    (.bind (eat _) fun _ => .ite (star _) (star _)))

theorem value_faults (modifiers : MethodModifiers) : Faults modifiers.value :=
  .bind (list _) fun _ => .bind (node _) fun _ => .pure _

theorem propertyKey_faults : Faults propertyKey :=
  .bind (eat _) fun _ => .ite (.bind (node _) fun _ => .bind (expect _) fun _ => .pure _)
    (.bind (node _) fun _ => .pure _)

theorem nextIsList_faults : Faults nextIsList := by
  refine .bind peek fun found => ?_
  split
  · exact .pure _
  · exact .pure _

theorem property_faults : Faults property := by
  refine .bind take_faults fun modifiers => .bind propertyKey_faults fun key =>
    .bind (eat _) fun _ =>
    .ite (.bind (node _) fun _ => .pure _) (.bind nextIsList_faults fun _ => .ite ?_ (.pure _))
  refine .bind (value_faults modifiers) fun value => ?_
  split
  · exact .pure _
  · exact .pure _

theorem methodDeclaration_faults : Faults methodDeclaration :=
  .bind (eat _) fun _ => .bind take_faults fun _ => .bind propertyKey_faults fun _ =>
    .bind (value_faults _) fun _ => .pure _

theorem classBody_faults : Faults classBody :=
  .bind (expect _) fun _ => .bind (nodesUntil _ _ _) fun _ => .pure _

theorem classId_faults : Faults classId := by
  refine .bind peek fun found => ?_
  split
  · exact .pure _
  · exact node?

theorem classDefinition_faults (form : ClassForm) : Faults (classDefinition form) := by
  have rest (id superClass : Option Node) : Faults (do
      let body ← Take.node "class body"
      return Fragment.node (.classNode form id superClass body)) :=
    .bind (node _) fun _ => .pure _
  exact .bind (expect _) fun _ => .bind classId_faults fun id => .bind (eat _) fun _ => .ite
    (.bind (.map _ (node _)) fun superClass => rest id superClass) (rest id none)

/-! ## Expressions -/

theorem unary_faults : Faults unary := by
  refine .bind next fun found => ?_
  split
  · exact .bind (node _) fun _ => .ite (.pure _) (.pure _)
  · exact .bind (token _) fun _ => .ite (.pure _) (mismatch _)
  · exact mismatch _

theorem binary_faults : Faults binary :=
  .bind (node _) fun _ => .bind (token _) fun _ => .bind (node _) fun _ =>
    .ite (.pure _) (.pure _)

theorem assignment_faults : Faults assignment :=
  .bind (node _) fun _ => .bind (token _) fun _ => .bind (node _) fun _ => .pure _

theorem conditional_faults : Faults conditional :=
  .bind (node _) fun _ => .bind (expect _) fun _ => .bind (node _) fun _ =>
    .bind (expect _) fun _ =>
    .bind (node _) fun _ => .pure _

theorem sequence_faults : Faults sequence :=
  .bind (separated (node _)) fun _ => .pure _

theorem awaitExpression_faults : Faults awaitExpression :=
  .bind (expect _) fun _ => .bind (node _) fun _ => .pure _

theorem parenthesized_faults : Faults parenthesized :=
  .bind (expect _) fun _ => .bind (node _) fun _ => .bind (expect _) fun _ => .pure _

theorem array_faults : Faults array :=
  .bind (expect _) fun _ => .bind (untilToken fun _ => .bind (eat _) fun _ => .ite
    (.ite (.pure _) (.pure _)) (.bind (node _) fun _ => .pure _)) fun _ => .pure _

theorem object_faults : Faults object :=
  .bind (expect _) fun _ => .bind (nodesUntil _ _ _) fun _ => .pure _

theorem spread_faults : Faults spread :=
  .bind (expect _) fun _ => .bind (node _) fun _ => .pure _

theorem member_faults : Faults member :=
  .bind (node _) fun _ => .bind (eat _) fun _ => .ite (.bind (node _) fun _ => .pure _)
    (.bind (expect _) fun _ => .bind (node _) fun _ => .bind (expect _) fun _ => .pure _)

theorem call_faults : Faults call :=
  .bind (node _) fun _ => .bind (list _) fun _ => .pure _

theorem argList_faults : Faults argList :=
  .bind (expect _) fun _ => .bind (nodesUntil _ _ _) fun _ => .pure _

theorem newExpression_faults : Faults newExpression :=
  .bind (expect _) fun _ => .bind (node _) fun _ => .bind peek fun _ => .ite
    (.bind (list _) fun _ => .pure _) (.pure _)

theorem taggedTemplate_faults : Faults taggedTemplate :=
  .bind (node _) fun _ => .bind (node _) fun _ => .pure _

/-! ## Names, literals and templates -/

theorem literal_faults (what : String) (decode : Text → Except LiteralFlaw LiteralValue) :
    Faults (literal what decode) := by
  refine .bind (token _) fun raw => .bind (.lift fun fault run => ?_) fun _ => .pure _
  unfold decodeLiteral at run
  split at run
  · cases run
  · cases run
    trivial

theorem templateParts_faults (fuel : Nat) (parts : TemplateParts) :
    Faults (templateParts fuel parts) := by
  induction fuel generalizing parts with
  | zero => exact mismatch _
  | succ fuel ih =>
      refine .bind next fun found => ?_
      split
      · exact ih _
      · exact .ite (.bind (node _) fun _ => .bind (expect _) fun _ => ih _)
          (.ite (.pure _) (mismatch _))
      · exact mismatch _
      · exact mismatch _

theorem templateString_faults : Faults templateString :=
  .bind (expect _) fun _ => .bind .get fun _ => .bind (templateParts_faults _ _) fun _ => .pure _

theorem token_faults (what : String) (build : String → Fragment) :
    Faults (do return build (← Take.token what)) :=
  .bind (token what) fun _ => .pure _

theorem handler_faults (rule : Rule) : Faults (handler rule) := by
  cases rule with
  | script => exact script_faults
  | expressionStatement => exact expressionStatement_faults
  | variableDeclaration => exact variableDeclaration_faults
  | functionDeclaration | functionExpression => exact function_faults _
  | classDeclaration | classExpression => exact classDefinition_faults _
  | classBody => exact classBody_faults
  | methodDeclaration => exact methodDeclaration_faults
  | returnStatement | breakStatement | continueStatement => exact jump_faults _ _
  | ifStatement => exact ifStatement_faults
  | whileStatement => exact whileStatement_faults
  | doStatement => exact doStatement_faults
  | forStatement => exact forStatement_faults
  | forSpec => exact forSpec_faults
  | forInSpec | forOfSpec => exact iterationSpec_faults _ _
  | block => exact block_faults
  | throwStatement => exact throwStatement_faults
  | tryStatement => exact tryStatement_faults
  | catchClause => exact catchClause_faults
  | finallyClause => exact finallyClause_faults
  | switchStatement => exact switchStatement_faults
  | switchBody => exact switchBody_faults
  | caseLabel => exact caseLabel_faults
  | defaultLabel => exact defaultLabel_faults
  | labeledStatement => exact labeledStatement_faults
  | emptyStatement => exact emptyStatement_faults
  | debuggerStatement => exact debuggerStatement_faults
  | parenthesizedExpression => exact parenthesized_faults
  | arrayExpression => exact array_faults
  | objectExpression => exact object_faults
  | property => exact property_faults
  | spread => exact spread_faults
  | templateString => exact templateString_faults
  | taggedTemplateExpression => exact taggedTemplate_faults
  | memberExpression => exact member_faults
  | callExpression => exact call_faults
  | argList => exact argList_faults
  | newExpression => exact newExpression_faults
  | unaryExpression | postfixExpression => exact unary_faults
  | awaitExpression => exact awaitExpression_faults
  | binaryExpression => exact binary_faults
  | conditionalExpression => exact conditional_faults
  | assignmentExpression => exact assignment_faults
  | sequenceExpression => exact sequence_faults
  | arrowFunction => exact arrowFunction_faults
  | paramList => exact paramList_faults
  | number | string | regExp => exact literal_faults _ _
  | variableName | variableDefinition | propertyName | propertyDefinition | label
  | templateContent | arithOp | compareOp | logicOp | bitOp | updateOp | assignOp | equals
  | star => exact token_faults _ _

end Rebuild

/-- A rule fails over its arguments alone. -/
theorem Rule.process_faults {rule : Rule} {fragments : List Fragment} {fault : TransformError}
    (run : rule.process fragments = .error fault) : fault.IsLocal := by
  change ((Rebuild.handler rule) ⟨rule, 0, fragments⟩).bind (fun found =>
    (Take.finish found.2).bind fun _ => .ok found.1) = _ at run
  cases found : (Rebuild.handler rule) ⟨rule, 0, fragments⟩ with
  | error other =>
      rw [found] at run
      cases run
      exact Rebuild.handler_faults rule _ _ found
  | ok result =>
      rw [found] at run
      cases finished : Take.finish result.2 with
      | error other =>
          change (Take.finish result.2).bind _ = _ at run
          rw [finished] at run
          cases run
          exact Take.Faults.finish _ _ finished
      | ok rest =>
          change (Take.finish result.2).bind _ = _ at run
          rw [finished] at run
          cases run

end ScriptTree
