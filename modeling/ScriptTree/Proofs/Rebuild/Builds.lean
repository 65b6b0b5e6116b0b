import ScriptTree.Proofs.Rebuild.Gives
import ScriptTree.Rebuild.Process

/-!
# What the rules build

A rule relates the fragments below a node to the fragment of the node.  The
relation is written out rule by rule, and whenever a rule succeeds, on
fragments of any origin, it holds.
-/

namespace ScriptTree

open Estree Fragment

namespace Rebuild

/-- A bound name with its value. -/
def Declarator (part : List Fragment) (node : Node) : Prop :=
  ∃ id init, part = .node id :: behind "=" init ∧ node = .variableDeclarator id init

/-- The elements of an array literal, and whether the last fragment was one of
them. -/
inductive ArrayItems : List Fragment → List (Option Node) → Bool → Prop
  | nil : ArrayItems [] [] false
  | comma {items : List Fragment} {elements : List (Option Node)}
      (earlier : ArrayItems items elements true) :
      ArrayItems (items ++ [.token ","]) elements false
  | hole {items : List Fragment} {elements : List (Option Node)}
      (earlier : ArrayItems items elements false) :
      ArrayItems (items ++ [.token ","]) (elements ++ [none]) false
  | element {items : List Fragment} {elements : List (Option Node)} {isAfter : Bool}
      (element : Node) (earlier : ArrayItems items elements isAfter) :
      ArrayItems (items ++ [.node element]) (elements ++ [some element]) true

/-- The parameters of a function. -/
inductive ParameterItems : List Fragment → List Node → Prop
  | nil : ParameterItems [] []
  | comma {items : List Fragment} {params : List Node} (earlier : ParameterItems items params) :
      ParameterItems (items ++ [.token ","]) params
  | rest {items : List Fragment} {params : List Node} (target : Node)
      (earlier : ParameterItems items params) :
      ParameterItems (items ++ [.token "...", .node target]) (params ++ [.restElement target])
  | plain {items : List Fragment} {params : List Node} (param : Node)
      (earlier : ParameterItems items params) :
      ParameterItems (items ++ [.node param]) (params ++ [param])
  | initialized {items : List Fragment} {params : List Node} (target value : Node)
      (earlier : ParameterItems items params) :
      ParameterItems (items ++ [.node target, .token "=", .node value])
        (params ++ [.assignmentPattern target value])

/-- The cases of a switch, the last one first. -/
inductive CaseItems : List Fragment → List Node → Prop
  | nil : CaseItems [] []
  | add {items : List Fragment} {cases after : List Node} (node : Node)
      (earlier : CaseItems items cases) (added : addToCases cases node = some after) :
      CaseItems (items ++ [.node node]) after

inductive TemplateItems : List Fragment → TemplateParts → Prop
  | nil : TemplateItems [] ⟨#[], #[], ""⟩
  | text {items : List Fragment} {parts : TemplateParts} (value : TemplateText) (isTail : Bool)
      (earlier : TemplateItems items parts) :
      TemplateItems (items ++ [.node (.templateElement value isTail)])
        { parts with text := parts.text ++ value.raw }
  | hole {items : List Fragment} {parts : TemplateParts} (inner : Node)
      (earlier : TemplateItems items parts) :
      TemplateItems (items ++ [.token "$\x7b", .node inner, .token "\x7d"])
        { parts.closeText false with expressions := parts.expressions.push inner }

inductive ModifierWords : List Fragment → MethodModifiers → Prop
  | async (isGenerator : Bool) :
      ModifierWords (.token "async" :: flag isGenerator "*") ⟨true, none, isGenerator⟩
  | get (isGenerator : Bool) :
      ModifierWords (.token "get" :: flag isGenerator "*") ⟨false, some .get, isGenerator⟩
  | set (isGenerator : Bool) :
      ModifierWords (.token "set" :: flag isGenerator "*") ⟨false, some .set, isGenerator⟩
  | none (isGenerator : Bool) :
      ModifierWords (flag isGenerator "*") ⟨false, Option.none, isGenerator⟩

inductive KeyOf : List Fragment → Node → Bool → Prop
  | computed (key : Node) : KeyOf [.token "[", .node key, .token "]"] key true
  | plain (key : Node) : KeyOf [.node key] key false

/-- The left side of a head over keys or values. -/
inductive TargetOf : List Fragment → Node → Prop
  | declared {keyword : String} {kind : VariableKind}
      (isKeyword : VariableKind.ofKeyword? keyword = some kind) (id : Node) :
      TargetOf [.token keyword, .node id] (.variableDeclaration [.variableDeclarator id none] kind)
  | plain (target : Node) : TargetOf [.node target] target

/-- The function of a method. -/
def MethodModifiers.function (modifiers : MethodModifiers) (params : List Node) (body : Node) :
    Node :=
  .function .expression none false modifiers.isGenerator modifiers.isAsync params body

end Rebuild

open Rebuild Take

inductive Rule.Builds : Rule → List Fragment → Fragment → Prop
  | emptyScript (text : String) : Builds .script [.token text] (.node (.program [] .script))
  | script (body : List Node) : Builds .script (body.map .node) (.node (.program body .script))
  | expressionStatement (expression : Node) (ends : Bool) :
      Builds .expressionStatement (.node expression :: flag ends ";")
        (.node (.expressionStatement expression))
  | variableDeclaration {keyword : String} {kind : VariableKind} {items : List Fragment}
      {declarations : List Node} (isKeyword : VariableKind.ofKeyword? keyword = some kind)
      (commas : Commas Declarator items declarations) (ends : Bool) :
      Builds .variableDeclaration (.token keyword :: items ++ flag ends ";")
        (.node (.variableDeclaration declarations kind))
  | functionDeclaration (isAsync isGenerator : Bool) (id : Option Node) (params : List Node)
      (body : Node) :
      Builds .functionDeclaration (flag isAsync "async" ++ .token "function" ::
          flag isGenerator "*" ++ option id ++ [.list params, .node body])
        (.node (.function .declaration id false isGenerator isAsync params body))
  | functionExpression (isAsync isGenerator : Bool) (id : Option Node) (params : List Node)
      (body : Node) :
      Builds .functionExpression (flag isAsync "async" ++ .token "function" ::
          flag isGenerator "*" ++ option id ++ [.list params, .node body])
        (.node (.function .expression id false isGenerator isAsync params body))
  | classDeclaration (id superClass : Option Node) (body : Node) :
      Builds .classDeclaration
        (.token "class" :: option id ++ behind "extends" superClass ++ [.node body])
        (.node (.classNode .declaration id superClass body))
  | classExpression (id superClass : Option Node) (body : Node) :
      Builds .classExpression
        (.token "class" :: option id ++ behind "extends" superClass ++ [.node body])
        (.node (.classNode .expression id superClass body))
  | classBody {items : List Fragment} {methods : List Node} (between : Between ";" items methods) :
      Builds .classBody (.token "\x7b" :: items ++ [.token "\x7d"]) (.node (.classBody methods))
  | methodDeclaration {words keys : List Fragment} {modifiers : MethodModifiers} {key : Node}
      {isComputed : Bool} (isStatic : Bool) (isWords : ModifierWords words modifiers)
      (isKey : KeyOf keys key isComputed) (params : List Node) (body : Node) :
      Builds .methodDeclaration
        (flag isStatic "static" ++ words ++ keys ++ [.list params, .node body])
        (.node (.methodDefinition isStatic isComputed key
          (methodKind isStatic isComputed modifiers.accessor key) (modifiers.function params body)))
  | returnStatement (argument : Option Node) (ends : Bool) :
      Builds .returnStatement (.token "return" :: option argument ++ flag ends ";")
        (.node (.returnStatement argument))
  | breakStatement (label : Option Node) (ends : Bool) :
      Builds .breakStatement (.token "break" :: option label ++ flag ends ";")
        (.node (.breakStatement label))
  | continueStatement (label : Option Node) (ends : Bool) :
      Builds .continueStatement (.token "continue" :: option label ++ flag ends ";")
        (.node (.continueStatement label))
  | ifStatement (test consequent : Node) (alternate : Option Node) :
      Builds .ifStatement
        (.token "if" :: .node test :: .node consequent :: behind "else" alternate)
        (.node (.ifStatement test consequent alternate))
  | whileStatement (test body : Node) :
      Builds .whileStatement [.token "while", .node test, .node body]
        (.node (.whileStatement test body))
  | doStatement (body test : Node) (ends : Bool) :
      Builds .doStatement
        (.token "do" :: .node body :: .token "while" :: .node test :: flag ends ";")
        (.node (.doWhileStatement body test))
  | forStatement (head : LoopHead) (body : Node) :
      Builds .forStatement [.token "for", .loop head, .node body] (.node (loopStatement head body))
  | forSpec (init test update : Option Node) :
      Builds .forSpec (.token "(" :: option init ++ .token ";" :: option test ++
          .token ";" :: option update ++ [.token ")"])
        (.loop (.counting init test update))
  | forInSpec {target : List Fragment} {left : Node} (isTarget : TargetOf target left)
      (right : Node) :
      Builds .forInSpec (.token "(" :: target ++ [.token "in", .node right, .token ")"])
        (.loop (.overKeys left right))
  | forOfSpec {target : List Fragment} {left : Node} (isTarget : TargetOf target left)
      (right : Node) :
      Builds .forOfSpec (.token "(" :: target ++ [.token "of", .node right, .token ")"])
        (.loop (.overValues left right))
  | block (body : List Node) :
      Builds .block (.token "\x7b" :: body.map .node ++ [.token "\x7d"])
        (.node (.blockStatement body))
  | throwStatement (argument : Node) (ends : Bool) :
      Builds .throwStatement (.token "throw" :: .node argument :: flag ends ";")
        (.node (.throwStatement argument))
  | tryStatement (block : Node) {handler finalizer : Option Node}
      (isHandler : ∀ node ∈ handler, ∃ param body, node = .catchClause param body)
      (isFinalizer : handler = none →
        ∃ node, finalizer = some node ∧ ∀ param body, node ≠ .catchClause param body) :
      Builds .tryStatement
        (.token "try" :: .node block :: option handler ++ option finalizer)
        (.node (.tryStatement block handler finalizer))
  | catchClause (body : Node) :
      Builds .catchClause [.token "catch", .node body] (.node (.catchClause none body))
  | catchBinding (param body : Node) :
      Builds .catchClause [.token "catch", .token "(", .node param, .token ")", .node body]
        (.node (.catchClause (some param) body))
  | finallyClause (body : Node) : Builds .finallyClause [.token "finally", .node body] (.node body)
  | switchStatement (discriminant : Node) (cases : List Node) :
      Builds .switchStatement [.token "switch", .node discriminant, .list cases]
        (.node (.switchStatement discriminant cases))
  | switchBody {items : List Fragment} {cases : List Node} (isCases : CaseItems items cases) :
      Builds .switchBody (.token "\x7b" :: items ++ [.token "\x7d"]) (.list cases.reverse)
  | caseLabel (test : Node) :
      Builds .caseLabel [.token "case", .node test, .token ":"]
        (.node (.switchCase (some test) []))
  | defaultLabel :
      Builds .defaultLabel [.token "default", .token ":"] (.node (.switchCase none []))
  | labeledStatement (label body : Node) :
      Builds .labeledStatement [.node label, .token ":", .node body]
        (.node (.labeledStatement label body))
  | emptyStatement : Builds .emptyStatement [.token ";"] (.node .emptyStatement)
  | debuggerStatement (ends : Bool) :
      Builds .debuggerStatement (.token "debugger" :: flag ends ";") (.node .debuggerStatement)
  | parenthesizedExpression (inner : Node) :
      Builds .parenthesizedExpression [.token "(", .node inner, .token ")"] (.node inner)
  | arrayExpression {items : List Fragment} {elements : List (Option Node)} {isAfter : Bool}
      (isItems : ArrayItems items elements isAfter) :
      Builds .arrayExpression (.token "[" :: items ++ [.token "]"])
        (.node (.arrayExpression elements))
  | objectExpression {items : List Fragment} {properties : List Node}
      (between : Between "," items properties) :
      Builds .objectExpression (.token "\x7b" :: items ++ [.token "\x7d"])
        (.node (.objectExpression properties))
  | propertyValue {words keys : List Fragment} {modifiers : MethodModifiers} {key : Node}
      {isComputed : Bool} (isWords : ModifierWords words modifiers)
      (isKey : KeyOf keys key isComputed) (value : Node) :
      Builds .property (words ++ keys ++ [.token ":", .node value])
        (.node (.property false false isComputed key value .init))
  | propertyMethod {words keys : List Fragment} {modifiers : MethodModifiers} {key : Node}
      {isComputed : Bool} (isWords : ModifierWords words modifiers)
      (isKey : KeyOf keys key isComputed) (params : List Node) (body : Node) :
      Builds .property (words ++ keys ++ [.list params, .node body])
        (.node (.property modifiers.accessor.isNone false isComputed key
          (modifiers.function params body) (modifiers.accessor.getD .init)))
  | propertyShorthand {keys : List Fragment} {key : Node} {isComputed : Bool}
      (isKey : KeyOf keys key isComputed) :
      Builds .property keys (.node (.property false true isComputed key key .init))
  | spread (argument : Node) :
      Builds .spread [.token "...", .node argument] (.node (.spreadElement argument))
  | templateString {items : List Fragment} {parts : TemplateParts}
      (isItems : TemplateItems items parts) :
      Builds .templateString (.token "\x60" :: items ++ [.token "\x60"])
        (.node (.templateLiteral (parts.closeText true).quasis.toList parts.expressions.toList))
  | taggedTemplate (tag quasi : Node) :
      Builds .taggedTemplateExpression [.node tag, .node quasi]
        (.node (.taggedTemplateExpression tag quasi))
  | member (object property : Node) :
      Builds .memberExpression [.node object, .token ".", .node property]
        (.node (.memberExpression object property false false))
  | computedMember (object property : Node) :
      Builds .memberExpression [.node object, .token "[", .node property, .token "]"]
        (.node (.memberExpression object property true false))
  | call (callee : Node) (arguments : List Node) :
      Builds .callExpression [.node callee, .list arguments]
        (.node (.callExpression callee arguments false))
  | argList {items : List Fragment} {arguments : List Node}
      (between : Between "," items arguments) :
      Builds .argList (.token "(" :: items ++ [.token ")"]) (.list arguments)
  | newCall (callee : Node) (arguments : List Node) :
      Builds .newExpression [.token "new", .node callee, .list arguments]
        (.node (.newExpression callee arguments))
  | newBare (callee : Node) :
      Builds .newExpression [.token "new", .node callee] (.node (.newExpression callee []))
  | unaryUpdate {rule : Rule} (isUnary : rule = .unaryExpression ∨ rule = .postfixExpression)
      {operator : String} (isUpdate : isUpdateOperator operator = true) (argument : Node) :
      Builds rule [.token operator, .node argument]
        (.node (.updateExpression operator true argument))
  | unary {rule : Rule} (isUnary : rule = .unaryExpression ∨ rule = .postfixExpression)
      (operator : String) (argument : Node) :
      Builds rule [.token operator, .node argument]
        (.node (.unaryExpression operator true argument))
  | updateAfter {rule : Rule} (isUnary : rule = .unaryExpression ∨ rule = .postfixExpression)
      {operator : String} (isUpdate : isUpdateOperator operator = true) (argument : Node) :
      Builds rule [.node argument, .token operator]
        (.node (.updateExpression operator false argument))
  | awaitExpression (argument : Node) :
      Builds .awaitExpression [.token "await", .node argument] (.node (.awaitExpression argument))
  | logical (left : Node) {operator : String} (isLogical : isLogicalOperator operator = true)
      (right : Node) :
      Builds .binaryExpression [.node left, .token operator, .node right]
        (.node (.logicalExpression left operator right))
  | binary (left : Node) (operator : String) (right : Node) :
      Builds .binaryExpression [.node left, .token operator, .node right]
        (.node (.binaryExpression left operator right))
  | conditionalExpression (test consequent alternate : Node) :
      Builds .conditionalExpression
        [.node test, .token "?", .node consequent, .token ":", .node alternate]
        (.node (.conditionalExpression test consequent alternate))
  | assignmentExpression (left : Node) (operator : String) (right : Node) :
      Builds .assignmentExpression [.node left, .token operator, .node right]
        (.node (.assignmentExpression operator left right))
  | sequenceExpression {items : List Fragment} {expressions : List Node}
      (commas : Commas (fun part node => part = [.node node]) items expressions) :
      Builds .sequenceExpression items (.node (.sequenceExpression expressions))
  | arrowFunction (isAsync : Bool) (params : List Node) (body : Node) :
      Builds .arrowFunction (flag isAsync "async" ++ [.list params, .token "=>", .node body])
        (.node (.function .arrow none (!isBlock body) false isAsync params body))
  | shortArrow (isAsync : Bool) (param body : Node) :
      Builds .arrowFunction (flag isAsync "async" ++ [.node param, .token "=>", .node body])
        (.node (.function .arrow none (!isBlock body) false isAsync [param] body))
  | paramList {items : List Fragment} {params : List Node} (isItems : ParameterItems items params) :
      Builds .paramList (.token "(" :: items ++ [.token ")"]) (.list params)
  | literal {rule : Rule} (isLiteral : rule ∈ [Rule.number, .string, .regExp])
      (value : LiteralValue) (raw : String) :
      Builds rule [.token raw] (.node (.literal ⟨value, raw⟩))
  | variableName (text : String) :
      Builds .variableName [.token text] (.node ((namedValue? text).getD (.identifier text)))
  | name {rule : Rule}
      (isName : rule ∈ [Rule.variableDefinition, .propertyName, .propertyDefinition, .label])
      (text : String) : Builds rule [.token text] (.node (.identifier text))
  | templateContent (text : String) :
      Builds .templateContent [.token text] (.node (.templateElement (.ofText text.toList) false))
  | operator {rule : Rule}
      (isOperator : rule ∈ [Rule.arithOp, .compareOp, .logicOp, .bitOp, .updateOp, .assignOp,
        .equals, .star])
      (text : String) : Builds rule [.token text] (.token text)

namespace Take.Gives

variable {Value : Type} {before : List Fragment} {post : List Fragment → Value → Prop}

/-! ## Parts of rules -/

theorem declarator : Gives [] Rebuild.declarator Declarator := by
  refine node fun id => choice (node fun init => ?_) ?_
  · exact returns ⟨id, some init, rfl, rfl⟩
  · exact returns ⟨id, none, rfl, rfl⟩

theorem modifiers {next : MethodModifiers → Take Value}
    (leads : ∀ words modifiers, ModifierWords words modifiers →
      Gives (before ++ words) (next modifiers) post) :
    Gives before (MethodModifiers.take >>= next) post := by
  have all : Gives [] MethodModifiers.take ModifierWords := by
    refine choice ?_ (choice ?_ (choice ?_ ?_))
    · exact eat fun isGenerator => returns (.async isGenerator)
    · exact eat fun isGenerator => returns (.get isGenerator)
    · exact eat fun isGenerator => returns (.set isGenerator)
    · exact eat fun isGenerator => returns (.none isGenerator)
  refine bind (all.behind.mono ?_)
  rintro _ modifiers ⟨words, rfl, isWords⟩
  exact leads words modifiers isWords

theorem propertyKey {next : Node × Bool → Take Value}
    (leads : ∀ keys key isComputed, KeyOf keys key isComputed →
      Gives (before ++ keys) (next (key, isComputed)) post) :
    Gives before (Rebuild.propertyKey >>= next) post := by
  have all : Gives [] Rebuild.propertyKey fun keys found => KeyOf keys found.1 found.2 := by
    refine choice (node fun key => expect ?_) (node fun key => ?_)
    · exact returns (.computed key)
    · exact returns (.plain key)
  refine bind (all.behind.mono ?_)
  rintro _ ⟨key, isComputed⟩ ⟨keys, rfl, isKey⟩
  exact leads keys key isComputed isKey

theorem methodValue {modifiers : MethodModifiers} {next : Node → Take Value}
    (leads : ∀ params body, Gives (before ++ [.list params, .node body])
      (next (modifiers.function params body)) post) :
    Gives before (modifiers.value >>= next) post := by
  refine bind (list fun params => node fun body => returns ?_)
  rw [List.append_assoc]
  exact leads params body

theorem iterationTarget {next : Node → Take Value}
    (leads : ∀ target left, TargetOf target left → Gives (before ++ target) (next left) post) :
    Gives before (Rebuild.iterationTarget >>= next) post := by
  refine bind ?_
  rintro ⟨rule, position, rest⟩ value after run
  match rest, run with
  | .node target :: rest, run =>
      cases run
      exact ⟨[.node _], rfl, leads _ _ (.plain _)⟩
  | .token keyword :: rest, run =>
      obtain ⟨found, between, peeked, later⟩ := bind_eq_ok run
      cases peeked
      cases isKeyword : VariableKind.ofKeyword? keyword with
      | none =>
          rw [isKeyword] at later
          cases later
      | some kind =>
          rw [isKeyword] at later
          match rest, later with
          | .node id :: rest, later =>
              cases later
              exact ⟨[.token keyword, .node id], rfl, leads _ _ (.declared isKeyword id)⟩

/-- A handler is taken only if it comes first. -/
theorem handler?_ok {arguments after : Arguments} {handler : Option Node}
    (run : Rebuild.handler? arguments = .ok (handler, after)) :
    (∃ param body, handler = some (.catchClause param body) ∧
        arguments.rest = .node (.catchClause param body) :: after.rest) ∨
      handler = none ∧ after = arguments ∧
        ∀ param body rest, arguments.rest ≠ .node (.catchClause param body) :: rest := by
  obtain ⟨rule, position, rest⟩ := arguments
  obtain ⟨_, _, peeked, run⟩ := bind_eq_ok run
  cases peeked
  match rest, run with
  | [], run | .token _ :: _, run | .list _ :: _, run | .loop _ :: _, run =>
      cases run
      exact .inr ⟨rfl, rfl, nofun⟩
  | .node given :: rest, run =>
      cases given with
      | catchClause param body =>
          cases run
          exact .inl ⟨param, body, rfl, rfl⟩
      | _ =>
          cases run
          exact .inr ⟨rfl, rfl, nofun⟩

/-- A handler and a finalizer, one of them the first node. -/
theorem handlers {next : Option Node → Option Node → Take Value}
    (leads : ∀ handler finalizer,
      (∀ node ∈ handler, ∃ param body, node = Node.catchClause param body) →
      (handler = none → ∀ node ∈ finalizer, ∀ param body, node ≠ Node.catchClause param body) →
      Gives (before ++ option handler ++ option finalizer) (next handler finalizer) post) :
    Gives before (Rebuild.handler? >>= fun handler => Take.node? >>= next handler) post := by
  intro arguments value after run
  obtain ⟨handler, between, handled, run⟩ := bind_eq_ok run
  obtain ⟨finalizer, behind, ended, run⟩ := bind_eq_ok run
  have split : between.rest = option finalizer ++ behind.rest := node?_ok ended
  have whole : arguments.rest = option handler ++ between.rest ∧
      (∀ node ∈ handler, ∃ param body, node = Node.catchClause param body) ∧
      (handler = none → ∀ node ∈ finalizer, ∀ param body, node ≠ .catchClause param body) := by
    obtain ⟨param, body, rfl, same⟩ | ⟨rfl, rfl, other⟩ := handler?_ok handled
    · refine ⟨same, fun node isNode => ?_, nofun⟩
      cases isNode
      exact ⟨param, body, rfl⟩
    · refine ⟨rfl, nofun, fun _ node isNode param body same => ?_⟩
      cases isNode
      exact other param body behind.rest (same ▸ split)
  obtain ⟨isSplit, isHandler, isFinalizer⟩ := whole
  obtain ⟨used, more, holds⟩ := leads handler finalizer isHandler isFinalizer _ _ _ run
  refine ⟨option handler ++ option finalizer ++ used, ?_, ?_⟩
  · rw [isSplit, split, more, List.append_assoc, List.append_assoc]
  · rwa [← List.append_assoc, ← List.append_assoc]

theorem classId {next : Option Node → Take Value}
    (leads : ∀ id, Gives (before ++ option id) (next id) post) :
    Gives before (Rebuild.classId >>= next) post := by
  refine bind (peek fun found => ?_)
  split
  · have := leads none
    exact returns (by rwa [option, Option.toList_none, List.map_nil, List.append_nil] at this)
  · rw [← bind_pure Take.node?]
    exact node? fun id => returns (leads id)

theorem templateParts {fuel : Nat} {used : List Fragment} {parts : TemplateParts}
    (start : TemplateItems used parts) :
    Gives used (Rebuild.templateParts fuel parts) fun all parts =>
      ∃ items before, all = items ++ [.token "\x60"] ∧ TemplateItems items before ∧
        parts = before.closeText true := by
  induction fuel generalizing used parts with
  | zero => exact fails
  | succ fuel ih =>
      refine next fails fun fragment => ?_
      split
      case h_1 value isTail same =>
        cases same
        exact ih (start.text value isTail)
      case h_2 text same =>
        cases same
        split
        case isTrue isHole =>
          subst isHole
          refine node fun inner => expect (ih ?_)
          rw [List.append_assoc, List.append_assoc]
          exact start.hole inner
        case isFalse =>
          split
          case isTrue isEnd =>
            subst isEnd
            exact returns ⟨used, parts, rfl, start, rfl⟩
          case isFalse => exact fails
      case h_3 => exact fails
      case h_4 => exact fails

end Take.Gives

namespace Rule

open Take.Gives

/-! ## Statements -/

theorem script_builds : Gives [] Rebuild.script (Builds .script) := by
  have statements : Gives [] (do
      let body ← Take.nodesToEnd "statement" (← MonadState.get).rest.length #[]
      return .node (.program body .script)) (Builds .script) := by
    refine Gives.get fun _ => Gives.bind ((nodesToEnd #[] rfl).mono ?_)
    rintro _ body rfl
    exact returns (.script body)
  rintro ⟨rule, position, rest⟩ value after run
  obtain ⟨_, _, got, run⟩ := bind_eq_ok run
  cases got
  split at run
  case h_1 text same =>
    cases same
    cases run
    exact ⟨[.token text], rfl, .emptyScript text⟩
  case h_2 => exact statements _ _ _ run

theorem expressionStatement_builds :
    Gives [] Rebuild.expressionStatement (Builds .expressionStatement) :=
  node fun expression => eat fun ends => returns (.expressionStatement expression ends)

theorem variableDeclaration_builds :
    Gives [] Rebuild.variableDeclaration (Builds .variableDeclaration) := by
  refine token fun keyword => ?_
  split
  case h_1 => exact fails
  case h_2 kind isKeyword =>
    refine separated Declarator declarator fun items declarations commas =>
      eat fun ends => returns ?_
    exact .variableDeclaration isKeyword commas ends

theorem block_builds : Gives [] Rebuild.block (Builds .block) := by
  refine expect (untilToken (fun items body => items = body.toList.map .node) rfl ?_ ?_)
  · rintro _ body rfl
    refine node fun given => returns ?_
    rw [Array.toList_push, List.map_append]
    rfl
  · rintro _ body rfl
    exact returns (.block body.toList)

theorem emptyStatement_builds : Gives [] Rebuild.emptyStatement (Builds .emptyStatement) :=
  expect (returns .emptyStatement)

theorem debuggerStatement_builds :
    Gives [] Rebuild.debuggerStatement (Builds .debuggerStatement) :=
  expect (eat fun ends => returns (.debuggerStatement ends))

theorem labeledStatement_builds : Gives [] Rebuild.labeledStatement (Builds .labeledStatement) :=
  node fun label => expect (node fun body => returns (.labeledStatement label body))

theorem jump_builds {rule : Rule} {keyword : String} {build : Option Node → Node}
    (builds : ∀ target ends, Builds rule (.token keyword :: option target ++ flag ends ";")
      (.node (build target))) :
    Gives [] (Rebuild.jump keyword build) (Builds rule) :=
  expect (node? fun target => eat fun ends => returns (builds target ends))

theorem throwStatement_builds : Gives [] Rebuild.throwStatement (Builds .throwStatement) :=
  expect (node fun argument => eat fun ends => returns (.throwStatement argument ends))

theorem ifStatement_builds : Gives [] Rebuild.ifStatement (Builds .ifStatement) := by
  refine expect (node fun test => node fun consequent => choice (node fun alternate => ?_) ?_)
  · exact returns (.ifStatement test consequent (some alternate))
  · exact returns (.ifStatement test consequent none)

theorem whileStatement_builds : Gives [] Rebuild.whileStatement (Builds .whileStatement) :=
  expect (node fun test => node fun body => returns (.whileStatement test body))

theorem doStatement_builds : Gives [] Rebuild.doStatement (Builds .doStatement) :=
  expect (node fun body => expect (node fun test => eat fun ends =>
    returns (.doStatement body test ends)))

theorem forStatement_builds : Gives [] Rebuild.forStatement (Builds .forStatement) :=
  expect (loopHead fun head => node fun body => returns (.forStatement head body))

theorem forSpec_builds : Gives [] Rebuild.forSpec (Builds .forSpec) := by
  refine expect (node? fun init => expect (node? fun test => expect (node? fun update =>
    expect (returns ?_))))
  simpa using Builds.forSpec init test update

theorem iterationSpec_builds {rule : Rule} {keyword : String} {build : Node → Node → LoopHead}
    (builds : ∀ (target : List Fragment) (left right : Node), TargetOf target left →
      Builds rule (.token "(" :: target ++ [.token keyword, .node right, .token ")"])
        (.loop (build left right))) :
    Gives [] (Rebuild.iterationSpec keyword build) (Builds rule) := by
  refine expect (iterationTarget fun target left isTarget => expect (node fun right =>
    expect (returns ?_)))
  simpa using builds target left right isTarget

theorem tryStatement_builds : Gives [] Rebuild.tryStatement (Builds .tryStatement) := by
  refine expect (node fun block => handlers fun handler finalizer isHandler isFinalizer => ?_)
  split
  case isTrue => exact fails
  case isFalse present =>
    refine returns (.tryStatement block isHandler fun missing => ?_)
    subst missing
    cases finalizer with
    | none => exact absurd rfl present
    | some node => exact ⟨node, rfl, isFinalizer rfl node rfl⟩

theorem catchClause_builds : Gives [] Rebuild.catchClause (Builds .catchClause) := by
  refine expect (choice (node fun param => expect (node fun body => ?_)) (node fun body => ?_))
  · exact returns (.catchBinding param body)
  · exact returns (.catchClause body)

theorem finallyClause_builds : Gives [] Rebuild.finallyClause (Builds .finallyClause) :=
  expect (node fun body => returns (.finallyClause body))

theorem switchStatement_builds : Gives [] Rebuild.switchStatement (Builds .switchStatement) :=
  expect (node fun discriminant => list fun cases =>
    returns (.switchStatement discriminant cases))

theorem switchBody_builds : Gives [] Rebuild.switchBody (Builds .switchBody) := by
  refine expect (untilToken CaseItems .nil ?_ ?_)
  · intro used cases earlier
    refine node fun given => ?_
    split
    case h_1 after added => exact returns (earlier.add given added)
    case h_2 => exact fails
  · intro items cases isCases
    exact returns (.switchBody isCases)

theorem caseLabel_builds : Gives [] Rebuild.caseLabel (Builds .caseLabel) :=
  expect (node fun test => expect (returns (.caseLabel test)))

theorem defaultLabel_builds : Gives [] Rebuild.defaultLabel (Builds .defaultLabel) :=
  expect (expect (returns .defaultLabel))

/-! ## Expressions -/

theorem unary_builds {rule : Rule} (isUnary : rule = .unaryExpression ∨ rule = .postfixExpression) :
    Gives [] Rebuild.unary (Builds rule) := by
  refine next fails fun fragment => ?_
  split
  case h_1 operator same =>
    cases same
    refine node fun argument => ?_
    split
    case isTrue isUpdate => exact returns (.unaryUpdate isUnary isUpdate argument)
    case isFalse => exact returns (.unary isUnary operator argument)
  case h_2 argument same =>
    cases same
    refine token fun operator => ?_
    split
    case isTrue isUpdate => exact returns (.updateAfter isUnary isUpdate argument)
    case isFalse => exact fails
  case h_3 => exact fails

theorem binary_builds : Gives [] Rebuild.binary (Builds .binaryExpression) := by
  refine node fun left => token fun operator => node fun right => ?_
  split
  case isTrue isLogical => exact returns (.logical left isLogical right)
  case isFalse => exact returns (.binary left operator right)

theorem assignment_builds : Gives [] Rebuild.assignment (Builds .assignmentExpression) :=
  node fun left => token fun operator => node fun right =>
    returns (.assignmentExpression left operator right)

theorem conditional_builds : Gives [] Rebuild.conditional (Builds .conditionalExpression) :=
  node fun test => expect (node fun consequent => expect (node fun alternate =>
    returns (.conditionalExpression test consequent alternate)))

theorem sequence_builds : Gives [] Rebuild.sequence (Builds .sequenceExpression) := by
  refine separated (fun part node => part = [.node node]) ?_ fun items nodes commas => ?_
  · rw [← bind_pure (Take.node _)]
    exact node fun given => returns rfl
  · exact returns (.sequenceExpression commas)

theorem awaitExpression_builds : Gives [] Rebuild.awaitExpression (Builds .awaitExpression) :=
  expect (node fun argument => returns (.awaitExpression argument))

theorem parenthesized_builds :
    Gives [] Rebuild.parenthesized (Builds .parenthesizedExpression) :=
  expect (node fun inner => expect (returns (.parenthesizedExpression inner)))

theorem array_builds : Gives [] Rebuild.array (Builds .arrayExpression) := by
  refine expect (untilToken
    (fun items elements => ArrayItems items elements.taken.toList elements.afterElement)
    .nil ?_ ?_)
  · rintro used ⟨taken, isAfter⟩ earlier
    refine choice ?_ (node fun element => returns ?_)
    · split
      case isTrue after => 
        cases isAfter with
        | true => exact returns earlier.comma
        | false => cases after
      case isFalse after =>
        cases isAfter with
        | true => exact absurd rfl after
        | false =>
            refine returns ?_
            rw [Array.toList_push]
            exact earlier.hole
    · rw [Array.toList_push]
      exact earlier.element element
  · intro items elements isItems
    exact returns (.arrayExpression isItems)

theorem object_builds : Gives [] Rebuild.object (Builds .objectExpression) :=
  expect (nodesUntil fun _ _ between => returns (.objectExpression between))

theorem spread_builds : Gives [] Rebuild.spread (Builds .spread) :=
  expect (node fun argument => returns (.spread argument))

theorem member_builds : Gives [] Rebuild.member (Builds .memberExpression) := by
  refine node fun object => choice (node fun property => ?_)
    (expect (node fun property => expect ?_))
  · exact returns (.member object property)
  · exact returns (.computedMember object property)

theorem call_builds : Gives [] Rebuild.call (Builds .callExpression) :=
  node fun callee => list fun arguments => returns (.call callee arguments)

theorem argList_builds : Gives [] Rebuild.argList (Builds .argList) :=
  expect (nodesUntil fun _ _ between => returns (.argList between))

theorem newExpression_builds : Gives [] Rebuild.newExpression (Builds .newExpression) := by
  refine expect (node fun callee => peek fun found => ?_)
  split
  · exact list fun arguments => returns (.newCall callee arguments)
  · exact returns (.newBare callee)

theorem taggedTemplate_builds :
    Gives [] Rebuild.taggedTemplate (Builds .taggedTemplateExpression) :=
  node fun tag => node fun quasi => returns (.taggedTemplate tag quasi)

theorem templateString_builds : Gives [] Rebuild.templateString (Builds .templateString) := by
  refine expect (get fun _ => bind ((templateParts .nil).behind.mono ?_))
  rintro _ _ ⟨_, rfl, items, parts, rfl, isItems, rfl⟩
  exact returns (.templateString isItems)

/-! ## Functions and classes -/

theorem function_builds {rule : Rule} {form : FunctionForm}
    (builds : ∀ (isAsync isGenerator : Bool) (id : Option Node) (params : List Node)
      (body : Node), Builds rule
      (flag isAsync "async" ++ .token "function" :: flag isGenerator "*" ++ option id ++
        [.list params, .node body])
      (.node (.function form id false isGenerator isAsync params body))) :
    Gives [] (Rebuild.function form) (Builds rule) := by
  refine eat fun isAsync => expect (eat fun isGenerator => node? fun id => list fun params =>
    node fun body => returns ?_)
  simpa using builds isAsync isGenerator id params body

theorem arrowFunction_builds : Gives [] Rebuild.arrowFunction (Builds .arrowFunction) := by
  refine eat fun isAsync => next (bind fails) fun fragment => ?_
  cases fragment with
  | list params =>
      refine bind (returns (expect (node fun body => returns ?_)))
      simpa using Builds.arrowFunction isAsync params body
  | node param =>
      refine bind (returns (expect (node fun body => returns ?_)))
      simpa using Builds.shortArrow isAsync param body
  | token text => exact bind fails
  | loop head => exact bind fails

theorem paramList_builds : Gives [] Rebuild.paramList (Builds .paramList) := by
  refine expect (untilToken (fun items params => ParameterItems items params.toList) .nil ?_ ?_)
  · intro used params earlier
    refine choice (returns earlier.comma) (choice (node fun target => returns ?_)
      (node fun param => choice (node fun value => returns ?_) (returns ?_)))
    · simpa using earlier.rest target
    · simpa using earlier.initialized param value
    · simpa using earlier.plain param
  · intro items params isItems
    exact returns (.paramList isItems)

theorem nextIsList {Value : Type} {before : List Fragment} {next : Bool → Take Value}
    {post : List Fragment → Value → Prop} (gives : ∀ isList, Gives before (next isList) post) :
    Gives before (Rebuild.nextIsList >>= next) post := by
  refine bind (peek fun found => ?_)
  split
  · exact returns (gives true)
  · exact returns (gives false)

theorem property_builds : Gives [] Rebuild.property (Builds .property) := by
  refine modifiers fun words modifiers isWords =>
    propertyKey fun keys key isComputed isKey => choice (node fun value => returns ?_) ?_
  · simpa using Builds.propertyValue isWords isKey value
  · refine nextIsList fun isList => ?_
    split
    case isTrue =>
      refine methodValue fun params body => ?_
      have builds := Builds.propertyMethod isWords isKey params body
      cases accessor : modifiers.accessor with
      | some kind => exact returns (by simpa [accessor] using builds)
      | none => exact returns (by simpa [accessor] using builds)
    case isFalse plain =>
      have missing : words = [] := by
        cases isWords with
        | none isGenerator => cases isGenerator <;> simp_all [MethodModifiers.any, flag]
        | _ => simp [MethodModifiers.any] at plain
      subst missing
      exact returns (.propertyShorthand isKey)

theorem methodDeclaration_builds :
    Gives [] Rebuild.methodDeclaration (Builds .methodDeclaration) := by
  refine eat fun isStatic => modifiers fun words modifiers isWords =>
    propertyKey fun keys key isComputed isKey => methodValue fun params body => returns ?_
  exact .methodDeclaration isStatic isWords isKey params body

theorem classBody_builds : Gives [] Rebuild.classBody (Builds .classBody) :=
  expect (nodesUntil fun _ _ between => returns (.classBody between))

theorem classDefinition_builds {rule : Rule} {form : ClassForm}
    (builds : ∀ id superClass body, Builds rule
      (.token "class" :: option id ++ behind "extends" superClass ++ [.node body])
      (.node (.classNode form id superClass body))) :
    Gives [] (Rebuild.classDefinition form) (Builds rule) := by
  refine expect (classId fun id => choice ?_ (bind (returns (node fun body => returns ?_))))
  · rw [map_eq_pure_bind, bind_assoc]
    refine node fun superClass => bind (returns (node fun body => returns ?_))
    simpa using builds id (some superClass) body
  · simpa using builds id none body

/-! ## Terminals -/

theorem operatorToken_builds {rule : Rule}
    (isOperator : rule ∈ [Rule.arithOp, .compareOp, .logicOp, .bitOp, .updateOp, .assignOp,
      .equals, .star]) : Gives [] Rebuild.operatorToken (Builds rule) :=
  token fun text => returns (.operator isOperator text)

theorem name_builds {rule : Rule}
    (isName : rule ∈ [Rule.variableDefinition, .propertyName, .propertyDefinition, .label]) :
    Gives [] Rebuild.name (Builds rule) :=
  token fun text => returns (.name isName text)

theorem literal_builds {rule : Rule} (isLiteral : rule ∈ [Rule.number, .string, .regExp])
    {what : String} {decode : Text → Except LiteralFlaw LiteralValue} :
    Gives [] (Rebuild.literal what decode) (Builds rule) := by
  refine token fun raw => lifts fun literal decoded => returns ?_
  unfold Rebuild.decodeLiteral at decoded
  split at decoded
  case h_1 value _ =>
    cases decoded
    exact .literal isLiteral value raw
  case h_2 => cases decoded

/-! ## All rules -/

theorem handler_builds (rule : Rule) : Gives [] (Rebuild.handler rule) (Builds rule) := by
  cases rule with
  | script => exact script_builds
  | expressionStatement => exact expressionStatement_builds
  | variableDeclaration => exact variableDeclaration_builds
  | functionDeclaration => exact function_builds .functionDeclaration
  | classDeclaration => exact classDefinition_builds .classDeclaration
  | classBody => exact classBody_builds
  | methodDeclaration => exact methodDeclaration_builds
  | returnStatement => exact jump_builds .returnStatement
  | ifStatement => exact ifStatement_builds
  | whileStatement => exact whileStatement_builds
  | doStatement => exact doStatement_builds
  | forStatement => exact forStatement_builds
  | forSpec => exact forSpec_builds
  | forInSpec => exact iterationSpec_builds fun _ _ right isTarget => .forInSpec isTarget right
  | forOfSpec => exact iterationSpec_builds fun _ _ right isTarget => .forOfSpec isTarget right
  | block => exact block_builds
  | breakStatement => exact jump_builds .breakStatement
  | continueStatement => exact jump_builds .continueStatement
  | throwStatement => exact throwStatement_builds
  | tryStatement => exact tryStatement_builds
  | catchClause => exact catchClause_builds
  | finallyClause => exact finallyClause_builds
  | switchStatement => exact switchStatement_builds
  | switchBody => exact switchBody_builds
  | caseLabel => exact caseLabel_builds
  | defaultLabel => exact defaultLabel_builds
  | labeledStatement => exact labeledStatement_builds
  | emptyStatement => exact emptyStatement_builds
  | debuggerStatement => exact debuggerStatement_builds
  | parenthesizedExpression => exact parenthesized_builds
  | arrayExpression => exact array_builds
  | objectExpression => exact object_builds
  | property => exact property_builds
  | spread => exact spread_builds
  | templateString => exact templateString_builds
  | taggedTemplateExpression => exact taggedTemplate_builds
  | memberExpression => exact member_builds
  | callExpression => exact call_builds
  | argList => exact argList_builds
  | newExpression => exact newExpression_builds
  | unaryExpression => exact unary_builds (.inl rfl)
  | postfixExpression => exact unary_builds (.inr rfl)
  | awaitExpression => exact awaitExpression_builds
  | binaryExpression => exact binary_builds
  | conditionalExpression => exact conditional_builds
  | assignmentExpression => exact assignment_builds
  | sequenceExpression => exact sequence_builds
  | arrowFunction => exact arrowFunction_builds
  | functionExpression => exact function_builds .functionExpression
  | classExpression => exact classDefinition_builds .classExpression
  | paramList => exact paramList_builds
  | number | string | regExp => exact literal_builds (by decide)
  | variableName => exact token fun text => returns (.variableName text)
  | variableDefinition | propertyName | propertyDefinition | label => exact name_builds (by decide)
  | templateContent => exact token fun text => returns (.templateContent text)
  | arithOp | compareOp | logicOp | bitOp | updateOp | assignOp | equals | star =>
      exact operatorToken_builds (by decide)

/-- What a rule makes of some fragments it builds from them. -/
theorem builds_of_process {rule : Rule} {given : List Fragment} {built : Fragment}
    (run : rule.process given = .ok built) : Builds rule given built := by
  unfold Rule.process at run
  cases handled : (Rebuild.handler rule).run ⟨rule, 0, given⟩ with
  | error error =>
      rw [handled] at run
      cases run
  | ok found =>
      obtain ⟨fragment, rule', position, rest⟩ := found
      rw [handled] at run
      obtain ⟨used, split, builds⟩ := handler_builds rule _ _ _ handled
      cases rest with
      | cons first rest => cases run
      | nil =>
          cases run
          rw [List.append_nil] at split
          cases split
          exact builds

end Rule

end ScriptTree
