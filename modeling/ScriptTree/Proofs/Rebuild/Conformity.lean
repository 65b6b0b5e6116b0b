import ScriptTree.Proofs.Grammar.Inversion
import ScriptTree.Proofs.Rebuild.Content
import ScriptTree.Proofs.Rebuild.Matching

/-!
# Rebuilt texts conform to the schema

The rules take any node in any position.  That each node ends up in a slot
that admits it follows from the labels the grammar allows below each rule,
matched one by one with what the rule builds.
-/

namespace ScriptTree

open Estree
open Fragment (flag option behind)

/-! ## Rules -/

section Rules

open Shape Take Rebuild

/-- The inputs of an arrow function and its body, with an arrow between them. -/
theorem arrow_fits {kinds : List Kind} {inputs : Fragment} {body : Node} {isAsync : Bool}
    (takes : Rule.arrowFunction.Takes kinds)
    (fits : List.Forall₂ Kind.Fits kinds
      (flag isAsync "async" ++ [inputs, .token "=>", .node body])) :
    ∃ input kind : Kind, (input = .rule .variableDefinition ∨ input = .rule .paramList) ∧
      input.Fits inputs ∧ (kind.isExpression = true ∨ kind = .rule .block) ∧
      kind.Fits (.node body) := by
  obtain ⟨modifier, -, input, kind, isInput, isBody, rfl⟩ := takes
  rw [List.append_cons, List.append_cons (modifier ++ _), List.append_cons (flag isAsync _),
    List.append_cons (flag isAsync _ ++ _), forall₂_snoc, forall₂_snoc, forall₂_snoc] at fits
  obtain ⟨⟨⟨-, inputFits⟩, -⟩, bodyFits⟩ := fits
  exact ⟨input, kind, isInput, inputFits, isBody, bodyFits⟩

theorem sorts_of_builds {rule : Rule} {kinds : List Kind} {given : List Fragment}
    {built : Fragment} (takes : rule.Takes kinds)
    (long : rule = .sequenceExpression → 1 < kinds.length)
    (fits : List.Forall₂ Kind.Fits kinds given) (builds : rule.Builds given built) :
    Kind.Sorts (.rule rule) built := by
  cases builds with
  | emptyScript | script | templateString | variableName | templateContent => cases takes
  | literal isLiteral =>
      simp only [List.mem_cons, List.not_mem_nil, or_false] at isLiteral
      rcases isLiteral with rfl | rfl | rfl <;> cases takes
  | name isName =>
      simp only [List.mem_cons, List.not_mem_nil, or_false] at isName
      rcases isName with rfl | rfl | rfl | rfl <;> cases takes
  | operator isOperator => trivial
  | expressionStatement expression ends =>
      obtain ⟨value, isExpression, ending, -, rfl⟩ := takes
      exact sorts_node rfl
        (.expressionStatement ((List.forall₂_cons.mp fits).1.expression isExpression))
  | variableDeclaration isKeyword commas ends =>
      obtain ⟨keyword, -, inner, separated, ending, isEnding, rfl⟩ := takes
      have inside := ending_matched separated commas isEnding (List.forall₂_cons.mp fits).2
      exact sorts_node rfl (.variableDeclaration (commas_length commas)
        (declarators_conform separated commas inside))
  | functionDeclaration isAsync isGenerator id params body =>
      obtain ⟨modifier, -, star, isStar, name, isName, needed, rfl⟩ := takes
      obtain ⟨named, present, ⟨plain, last, rfl, allPlain, isRest⟩, inner⟩ :=
        function_conforms isStar isName fits
      obtain ⟨found, rfl⟩ := Option.isSome_iff_exists.mp (present (needed rfl))
      exact sorts_node rfl (.functionDeclaration (named found rfl) allPlain isRest inner)
  | functionExpression isAsync isGenerator id params body =>
      obtain ⟨modifier, -, star, isStar, name, isName, -, rfl⟩ := takes
      obtain ⟨named, -, ⟨plain, last, rfl, allPlain, isRest⟩, inner⟩ :=
        function_conforms isStar isName fits
      exact sorts_node rfl (.functionExpression named allPlain isRest inner)
  | classDeclaration id superClass body =>
      obtain ⟨name, isName, needed, heritage, isHeritage, rfl⟩ := takes
      obtain ⟨named, present, parent, inner⟩ := class_matched isName isHeritage fits
      obtain ⟨found, rfl⟩ := Option.isSome_iff_exists.mp (present (needed rfl))
      exact sorts_node rfl (.classDeclaration (named found rfl) parent inner)
  | classExpression id superClass body =>
      obtain ⟨name, isName, -, heritage, isHeritage, rfl⟩ := takes
      obtain ⟨named, -, parent, inner⟩ := class_matched isName isHeritage fits
      exact sorts_node rfl (.classExpression named parent inner)
  | classBody between =>
      obtain ⟨inner, many, rfl⟩ := takes
      refine sorts_node rfl (.classBody fun node isIn => ?_)
      obtain ⟨kind, isSort, fit⟩ :=
        exists_sort many rfl (forall₂_bracketed fits) (mem_of_between between node isIn)
      obtain rfl := eq_of_beq isSort
      exact fit.conforms rfl
  | methodDeclaration isStatic isWords isKey params body =>
      obtain ⟨static, -, words, -, key, isShape, rfl⟩ := takes
      obtain ⟨keyConforms, value⟩ := method_conforms isShape isKey _ fits
      exact sorts_node rfl (.methodDefinition keyConforms value)
  | returnStatement argument ends =>
      obtain ⟨keyword, target, sort, isRow, isTarget, ending, isEnding, rfl⟩ := takes
      have found := target_matched isTarget isEnding fits
      simp at isRow
      obtain ⟨-, rfl⟩ := isRow
      refine sorts_node rfl (.returnStatement fun node isIn => ?_)
      obtain ⟨kind, isSort, fit⟩ := found node isIn
      exact fit.expression isSort
  | breakStatement label ends =>
      obtain ⟨keyword, target, sort, isRow, isTarget, ending, isEnding, rfl⟩ := takes
      have found := target_matched isTarget isEnding fits
      simp at isRow
      obtain ⟨-, rfl⟩ := isRow
      refine sorts_node rfl (.breakStatement fun node isIn => ?_)
      obtain ⟨kind, isSort, fit⟩ := found node isIn
      obtain rfl := eq_of_beq isSort
      exact fit.conforms rfl
  | continueStatement label ends =>
      obtain ⟨keyword, target, sort, isRow, isTarget, ending, isEnding, rfl⟩ := takes
      have found := target_matched isTarget isEnding fits
      simp at isRow
      obtain ⟨-, rfl⟩ := isRow
      refine sorts_node rfl (.continueStatement fun node isIn => ?_)
      obtain ⟨kind, isSort, fit⟩ := found node isIn
      obtain rfl := eq_of_beq isSort
      exact fit.conforms rfl
  | ifStatement test consequent alternate =>
      obtain ⟨condition, branch, isTest, isBranch, rfl | ⟨other, isOther, rfl⟩⟩ := takes
      · cases alternate with
        | none =>
            simp only [behind, List.forall₂_cons] at fits
            exact sorts_node rfl (.ifStatement (fits.2.1.expression isTest)
              (fits.2.2.1.statement isBranch) (by simp))
        | some alternate => simp [behind] at fits
      · cases alternate with
        | none => simp [behind] at fits
        | some alternate =>
            simp only [behind, List.forall₂_cons] at fits
            refine sorts_node rfl (.ifStatement (fits.2.1.expression isTest)
              (fits.2.2.1.statement isBranch) ?_)
            simpa using fits.2.2.2.2.1.statement isOther
  | whileStatement test body =>
      obtain ⟨condition, inner, isTest, isBody, rfl⟩ := takes
      simp only [List.forall₂_cons] at fits
      exact sorts_node rfl
        (.whileStatement (fits.2.1.expression isTest) (fits.2.2.1.statement isBody))
  | doStatement body test ends =>
      obtain ⟨inner, condition, isBody, isTest, ending, -, rfl⟩ := takes
      simp only [List.cons_append, List.forall₂_cons] at fits
      exact sorts_node rfl
        (.doWhileStatement (fits.2.1.statement isBody) (fits.2.2.2.1.expression isTest))
  | forStatement head body =>
      obtain ⟨kind, -, inner, isBody, rfl⟩ := takes
      simp only [List.forall₂_cons] at fits
      have isHead : head.Conforms := fits.2.1.sorts
      have isStatement := fits.2.2.1.statement isBody
      cases head with
      | counting init test update =>
          exact sorts_node rfl (.forStatement isHead.1 isHead.2.1 isHead.2.2 isStatement)
      | overKeys left right =>
          exact sorts_node rfl (.forInStatement isHead.1 isHead.2 isStatement)
      | overValues left right =>
          exact sorts_node rfl (.forOfStatement isHead.1 isHead.2 isStatement)
  | forSpec init test update =>
      obtain ⟨starts, tests, steps, isInit, isTest, isUpdate, rfl⟩ := takes
      exact counting_conforms isInit isTest isUpdate fits
  | forInSpec isLeft right =>
      obtain ⟨target, subject, isSubject, isTarget, rfl⟩ := takes
      exact iteration_conforms isSubject isTarget isLeft fits
  | forOfSpec isLeft right =>
      obtain ⟨target, subject, isSubject, isTarget, rfl⟩ := takes
      exact iteration_conforms isSubject isTarget isLeft fits
  | block body =>
      obtain ⟨inner, many, rfl⟩ := takes
      have inside := forall₂_bracketed fits
      refine sorts_node rfl (.blockStatement fun node isIn => ?_)
      obtain ⟨kind, member, fit⟩ := exists_fits inside (List.mem_map_of_mem isIn)
      obtain ⟨parts, all, rfl⟩ := many
      obtain ⟨part, isPart, inPart⟩ := List.mem_flatten.mp member
      obtain ⟨found, isStatement, rfl⟩ := all part isPart
      rw [List.mem_singleton.mp inPart] at fit
      exact fit.statement isStatement
  | throwStatement argument ends =>
      obtain ⟨value, isExpression, ending, -, rfl⟩ := takes
      simp only [List.forall₂_cons] at fits
      exact sorts_node rfl (.throwStatement (fits.2.1.expression isExpression))
  | tryStatement block isHandler isFinalizer =>
      obtain ⟨handlers, isHandlers, finalizers, isFinalizers, -, rfl⟩ := takes
      exact sorts_node rfl (try_conforms isHandlers isFinalizers isHandler isFinalizer fits)
  | catchClause body =>
      obtain ⟨bound, rfl | rfl, rfl⟩ := takes
      · simp only [List.nil_append, List.forall₂_cons] at fits
        exact sorts_node rfl (.catchClause (by simp) (fits.2.1.conforms rfl))
      · simp at fits
  | catchBinding param body =>
      obtain ⟨bound, rfl | rfl, rfl⟩ := takes
      · simp at fits
      · simp only [List.cons_append, List.nil_append, List.forall₂_cons] at fits
        refine sorts_node rfl (.catchClause ?_ (fits.2.2.2.2.1.conforms rfl))
        simpa using fits.2.2.1.conforms rfl
  | finallyClause body =>
      obtain rfl := takes
      simp only [List.forall₂_cons] at fits
      exact sorts_node rfl (fits.2.1.conforms rfl)
  | switchStatement discriminant cases =>
      obtain ⟨subject, isExpression, rfl⟩ := takes
      simp only [List.forall₂_cons] at fits
      exact sorts_node rfl (.switchStatement (fits.2.1.expression isExpression)
        (fits.2.2.1.sorts.2.1 rfl))
  | switchBody isCases =>
      obtain ⟨inner, isShape, rfl⟩ := takes
      have all := cases_conform isShape isCases (forall₂_bracketed fits)
      exact ⟨by simp, fun _ node isIn => all node (List.mem_reverse.mp isIn), by simp⟩
  | caseLabel test =>
      obtain ⟨value, isExpression, rfl⟩ := takes
      simp only [List.forall₂_cons] at fits
      refine sorts_node rfl (.switchCase ?_ (by simp))
      simpa using fits.2.1.expression isExpression
  | defaultLabel => exact sorts_node rfl (.switchCase (by simp) (by simp))
  | labeledStatement label body =>
      obtain ⟨inner, isStatement, rfl⟩ := takes
      simp only [List.forall₂_cons] at fits
      exact sorts_node rfl
        (.labeledStatement (fits.1.conforms rfl) (fits.2.2.1.statement isStatement))
  | emptyStatement => exact sorts_node rfl .emptyStatement
  | debuggerStatement => exact sorts_node rfl .debuggerStatement
  | parenthesizedExpression inner =>
      obtain ⟨value, isExpression, rfl⟩ := takes
      simp only [List.forall₂_cons] at fits
      exact sorts_node rfl (fits.2.1.expression isExpression)
  | arrayExpression isItems =>
      obtain ⟨inner, many, rfl⟩ := takes
      refine sorts_node rfl (.arrayExpression fun node isIn => ?_)
      obtain ⟨kind, isSort, fit⟩ :=
        exists_sort many rfl (forall₂_bracketed fits) (mem_of_arrayItems isItems node isIn)
      exact fit.element isSort
  | objectExpression between =>
      obtain ⟨inner, many, rfl⟩ := takes
      refine sorts_node rfl (.objectExpression fun node isIn => ?_)
      obtain ⟨kind, isSort, fit⟩ :=
        exists_sort many rfl (forall₂_bracketed fits) (mem_of_between between node isIn)
      exact fit.entry isSort
  | argList between =>
      obtain ⟨inner, many, rfl⟩ := takes
      refine ⟨fun _ node isIn => ?_, by simp, by simp⟩
      obtain ⟨kind, isSort, fit⟩ :=
        exists_sort many rfl (forall₂_bracketed fits) (mem_of_between between node isIn)
      exact fit.element isSort
  | paramList isItems =>
      obtain ⟨inner, rest, many, isRest, rfl⟩ := takes
      exact ⟨by simp, by simp, fun _ =>
        paramList_conforms many isRest isItems (forall₂_bracketed fits)⟩
  | propertyValue isWords isKey value =>
      obtain ⟨keyConforms, isValue⟩ := propertyValue_conforms takes isKey fits
      exact sorts_node rfl (.property keyConforms isValue)
  | propertyMethod isWords isKey params body =>
      obtain ⟨keyConforms, value⟩ := propertyMethod_conforms _ takes isKey fits
      exact sorts_node rfl (.property keyConforms (.functionValue value))
  | propertyShorthand isKey =>
      obtain ⟨keyConforms, value⟩ := propertyShorthand_conforms takes isKey fits
      exact sorts_node rfl (.property keyConforms value)
  | spread argument =>
      obtain ⟨value, isExpression, rfl⟩ := takes
      simp only [List.forall₂_cons] at fits
      exact sorts_node rfl (.spreadElement (fits.2.1.expression isExpression))
  | taggedTemplate tag quasi =>
      obtain ⟨value, isExpression, rfl⟩ := takes
      simp only [List.forall₂_cons] at fits
      exact sorts_node rfl
        (.taggedTemplate (fits.1.expression isExpression) (fits.2.1.conforms rfl))
  | member object property =>
      obtain ⟨operand, isOperand, rfl | ⟨key, isKey, rfl⟩⟩ := takes
      · simp only [List.forall₂_cons] at fits
        exact sorts_node rfl
          (.memberExpression (fits.1.expression isOperand) (fits.2.2.1.conforms rfl))
      · simp at fits
  | computedMember object property =>
      obtain ⟨operand, isOperand, rfl | ⟨key, isKey, rfl⟩⟩ := takes
      · simp at fits
      · simp only [List.forall₂_cons] at fits
        exact sorts_node rfl
          (.computedMember (fits.1.expression isOperand) (fits.2.2.1.expression isKey))
  | call callee arguments =>
      obtain ⟨called, isExpression, rfl⟩ := takes
      simp only [List.forall₂_cons] at fits
      exact sorts_node rfl
        (.callExpression (fits.1.expression isExpression) (fits.2.1.sorts.1 rfl))
  | newCall callee arguments =>
      obtain ⟨called, isExpression, inputs, isInputs, rfl⟩ := takes
      simp only [List.mem_cons, List.not_mem_nil, or_false] at isInputs
      rcases isInputs with rfl | rfl
      · simp at fits
      · simp only [List.forall₂_cons] at fits
        exact sorts_node rfl
          (.newExpression (fits.2.1.expression isExpression) (fits.2.2.1.sorts.1 rfl))
  | newBare callee =>
      obtain ⟨called, isExpression, inputs, -, rfl⟩ := takes
      simp only [List.forall₂_cons] at fits
      exact sorts_node rfl (.newExpression (fits.2.1.expression isExpression) (by simp))
  | unaryUpdate isUnary isUpdate argument =>
      rcases isUnary with rfl | rfl
      · exact sorts_node rfl (.updateExpression (operand_conforms takes fits))
      · exact (operand_not_after takes fits).elim
  | unary isUnary operator argument =>
      rcases isUnary with rfl | rfl
      · exact sorts_node rfl (.unaryExpression (operand_conforms takes fits))
      · exact (operand_not_after takes fits).elim
  | updateAfter isUnary isUpdate argument =>
      rcases isUnary with rfl | rfl
      · obtain ⟨_, operand, -, isExpression, rfl⟩ := takes
        simp only [List.forall₂_cons] at fits
        exact absurd fits.2.1 (Kind.Fits.not_token (isNode_of_isExpression isExpression))
      · obtain ⟨operand, isExpression, rfl⟩ := takes
        simp only [List.forall₂_cons] at fits
        exact sorts_node rfl (.updateExpression (fits.1.expression isExpression))
  | awaitExpression argument =>
      obtain ⟨operand, isExpression, rfl⟩ := takes
      simp only [List.forall₂_cons] at fits
      exact sorts_node rfl (.awaitExpression (fits.2.1.expression isExpression))
  | logical left isLogical right =>
      obtain ⟨first, operator, second, isFirst, -, isSecond, rfl⟩ := takes
      simp only [List.forall₂_cons] at fits
      exact sorts_node rfl
        (.logicalExpression (fits.1.expression isFirst) (fits.2.2.1.expression isSecond))
  | binary left operator right =>
      obtain ⟨first, _, second, isFirst, -, isSecond, rfl⟩ := takes
      simp only [List.forall₂_cons] at fits
      exact sorts_node rfl
        (.binaryExpression (fits.1.expression isFirst) (fits.2.2.1.expression isSecond))
  | conditionalExpression test consequent alternate =>
      obtain ⟨condition, first, second, isTest, isFirst, isSecond, rfl⟩ := takes
      simp only [List.forall₂_cons] at fits
      exact sorts_node rfl (.conditionalExpression (fits.1.expression isTest)
        (fits.2.2.1.expression isFirst) (fits.2.2.2.2.1.expression isSecond))
  | assignmentExpression left operator right =>
      obtain ⟨target, _, value, isTarget, -, isValue, rfl⟩ := takes
      simp only [List.forall₂_cons] at fits
      exact sorts_node rfl
        (.assignmentExpression (fits.1.expression isTarget) (fits.2.2.1.expression isValue))
  | sequenceExpression commas =>
      have size := sequence_length commas (fits.length_eq ▸ long rfl)
      exact sorts_node rfl (.sequenceExpression size (sequence_conforms takes commas fits))
  | arrowFunction isAsync params body =>
      obtain ⟨inputs, kind, rfl | rfl, inputFits, isBody, bodyFits⟩ := arrow_fits takes fits
      · obtain ⟨name, same⟩ := inputFits.yields
        cases same
      · exact sorts_node rfl (arrow_conforms (inputFits.sorts.2.2 rfl) isBody bodyFits)
  | shortArrow isAsync param body =>
      obtain ⟨inputs, kind, rfl | rfl, inputFits, isBody, bodyFits⟩ := arrow_fits takes fits
      · have isParam : ConformingParams [param] :=
          ⟨[param], none, rfl, by simpa using .namedParam (inputFits.conforms rfl), by simp⟩
        exact sorts_node rfl (arrow_conforms isParam isBody bodyFits)
      · obtain ⟨nodes, same⟩ := inputFits.yields
        cases same

/-- A template conforms whatever pieces it has. -/
theorem sorts_of_template {kinds : List Kind} {given : List Fragment} {built : Fragment}
    (template : Template kinds) (fits : List.Forall₂ Kind.Fits kinds given)
    (builds : Rule.templateString.Builds given built) :
    Kind.Sorts (.rule .templateString) built := by
  obtain ⟨inner, many, rfl⟩ := template
  cases builds with
  | templateString isItems =>
      exact sorts_node rfl (template_conforms many isItems (forall₂_bracketed fits))
  | literal isRule | name isRule | operator isRule => simp at isRule
  | unaryUpdate isUnary | unary isUnary | updateAfter isUnary => simp at isUnary

theorem namedValue_conforms (name : String) :
    Conforms .expression ((namedValue? name).getD (.identifier name)) := by
  unfold namedValue?
  split_ifs
  · exact .literalValue .literal
  · exact .literalValue .literal
  · exact .literalValue .literal
  · exact .thisExpression
  · exact .super
  · exact .nameValue .identifier

theorem sorts_of_terminal {rule : Rule} {text : String} {built : Fragment}
    (terminal : rule.isTerminal = true) (builds : rule.Builds [.token text] built) :
    Kind.Sorts (.rule rule) built := by
  generalize [Fragment.token text] = given at builds
  cases builds with
  | literal isLiteral =>
      simp only [List.mem_cons, List.not_mem_nil, or_false] at isLiteral
      rcases isLiteral with rfl | rfl | rfl <;> exact sorts_node rfl .literal
  | variableName name => exact sorts_node rfl (namedValue_conforms name)
  | name isName =>
      simp only [List.mem_cons, List.not_mem_nil, or_false] at isName
      rcases isName with rfl | rfl | rfl | rfl <;> exact sorts_node rfl .identifier
  | templateContent => exact sorts_node rfl .templateElement
  | operator isOperator => trivial
  | unaryUpdate isUnary | unary isUnary | updateAfter isUnary =>
      rcases isUnary with rfl | rfl <;> cases terminal
  | _ => cases terminal

end Rules

/-! ## Sequences -/

namespace Grammar

variable {settings : Settings}

/-- A round of a sequence adds a comma and an assignment, or adds nothing where
no comma follows. -/
theorem sequenceRound_reads {category : Category} {again : Bool} {scope : Scope}
    {point last : Point} {before trees : List SyntaxTree}
    (reads : (Phrase.sequenceRound again).Reads settings category scope point before last trees) :
    trees.length = before.length + 2 ∨
      again = false ∧ trees = before ∧
        ∃ token, point.next settings.dialect = .ok token ∧ token.isPunctuator .comma = false := by
  obtain ⟨_, _, ⟨token, -, -, rfl, rfl⟩, _, _, ⟨tree, -, rfl⟩, -, rfl, rfl⟩ |
    ⟨_, _, ⟨⟨token, scanned, noComma⟩, rfl, rfl⟩, stops, rfl, rfl⟩ := reads
  · exact .inl (by simp)
  · exact .inr ⟨stops, rfl, token, scanned, by simpa using noComma⟩

theorem sequenceRounds_grow {category : Category} {scope : Scope} {point last : Point}
    {before trees : List SyntaxTree}
    (reads : (Phrase.many (Phrase.sequenceRound true)).Reads settings category scope point before
      last trees) :
    (last = point ∧ trees = before) ∨ before.length < trees.length := by
  induction reads using Phrase.Reads.rounds with
  | start => exact .inl ⟨rfl, rfl⟩
  | round _ step ih =>
      obtain longer | ⟨impossible, -⟩ := sequenceRound_reads step
      · have size : before.length ≤ _ := ih.elim (fun same => by rw [same.2]) Nat.le_of_lt
        right
        omega
      · cases impossible

/-- A comma follows the first assignment of a sequence, so that there is a
second one. -/
theorem sequence_makes {tree : SyntaxTree} (makes : Phrase.sequence.Makes settings tree) :
    1 < tree.children.length := by
  obtain ⟨scope, point, last, -, middle, _, ⟨first, -, rfl⟩, _, _,
    ⟨⟨comma, scanned, isComma⟩, rfl, rfl⟩,
    behind, trees, ⟨stop, between, rounds, final⟩, rfl, reduced⟩ := makes
  obtain rfl := List.singleton_inj.mp reduced
  change 1 < trees.length
  have grown := sequenceRounds_grow rounds
  rcases sequenceRound_reads final with longer | ⟨-, rfl, token, scannedLast, noComma⟩
  · rw [longer]
    omega
  · rcases grown with ⟨rfl, -⟩ | longer
    · rw [scanned] at scannedLast
      cases scannedLast
      exact absurd (isComma.symm.trans noComma) Bool.true_eq_false.mp
    · simpa using longer

def LongSequence (tree : SyntaxTree) : Prop :=
  tree.label = .rule .sequenceExpression → tree.children ≠ [] → 1 < tree.children.length

theorem Traced.longSequence {tree : SyntaxTree} (traced : Traced settings tree) :
    LongSequence tree := by
  intro isSequence nonempty
  obtain ⟨phrase, readBy, makes⟩ := traced _ isSequence rfl nonempty
  cases readBy with
  | sequence => exact sequence_makes makes
  | function isFunction => simp at isFunction
  | asyncFunction isFunction => simp at isFunction

end Grammar

/-! ## Trees -/

section Trees

variable {source : Text} {limit : Option Nat}

/-- What a node of a tree that was read turns into fits its label. -/
theorem leave_fits {depth : Nat} {tree : SyntaxTree} {below : List Fragment} {fragment : Fragment}
    (shaped : Grammar.Shaped tree) (spelled : Spelled source tree)
    (long : Grammar.LongSequence tree)
    (fits : List.Forall₂ Kind.Fits (tree.children.map Tree.label) below)
    (run : (rebuilder source limit).leave depth tree below = .ok fragment) :
    tree.label.Fits fragment := by
  have yields := fits.imp fun _ _ fit => fit.yields
  have yielded : tree.label.Yields fragment := by
    obtain ⟨found, same, yields⟩ | ⟨raw, flaw, same⟩ :=
      (leave_gives shaped spelled yields :
        tree.label.Gives ((rebuilder source limit).leave depth tree below))
    · rw [run] at same
      cases same
      exact yields
    · rw [run] at same
      cases same
  refine ⟨yielded, ?_⟩
  obtain ⟨arguments, given, dispatched⟩ := leave_ok run
  obtain ⟨label, span, children⟩ := tree
  cases label with
  | fixed spelling =>
      obtain rfl : fragment = .token spelling.text := yielded
      trivial
  | rule rule =>
      change dispatch rule.name arguments = _ at dispatched
      rw [dispatch_rule] at dispatched
      have builds := Rule.builds_of_process dispatched
      obtain ⟨isLeaf, terminal⟩ | ⟨rfl, template⟩ | takes := shaped
      · obtain ⟨text, covers, -⟩ := spelled isLeaf
        rw [argumentsOf_leaf isLeaf covers] at given
        cases given
        exact sorts_of_terminal terminal builds
      · have nonempty : children ≠ [] := by
          rintro rfl
          obtain ⟨inner, -, same⟩ := template
          cases same
        rw [argumentsOf_children (by exact nonempty)] at given
        cases given
        exact sorts_of_template template fits builds
      · have nonempty := Rule.Takes.nonempty takes
        rw [ne_eq, List.map_eq_nil_iff] at nonempty
        rw [argumentsOf_children nonempty] at given
        cases given
        refine sorts_of_builds takes ?_ fits builds
        rintro rfl
        simpa using long rfl nonempty

theorem fold_fits {depth : Nat} {tree : SyntaxTree} {fragment : Fragment}
    (shaped : tree.Every Grammar.Shaped) (spelled : tree.Every (Spelled source))
    (long : tree.Every Grammar.LongSequence)
    (run : (rebuilder source limit).fold depth tree = .ok fragment) :
    tree.label.Fits fragment := by
  induction tree using Tree.induct generalizing depth fragment with
  | node label span children ih =>
      obtain ⟨below, folded, left⟩ := Visitor.fold_ok run
      have fits : List.Forall₂ Kind.Fits (children.map Tree.label) below :=
        List.forall₂_map_left_iff.mpr (Visitor.foldAll_related (fun child isChild _ =>
          ih child isChild (shaped.of_child child isChild) (spelled.of_child child isChild)
            (long.of_child child isChild)) folded)
      exact leave_fits shaped.here spelled.here long.here fits left

/-- A script is rebuilt as a program of its statements. -/
theorem script_conforms {children : List SyntaxTree} {span : Span} {depth : Nat}
    {below : List Fragment} {fragment : Fragment}
    (statements : ∀ child ∈ children, child.label.isStatement = true)
    (fits : List.Forall₂ Kind.Fits (children.map Tree.label) below)
    (run : (rebuilder source limit).leave depth (.node (.rule .script) span children) below =
      .ok fragment) :
    ∃ program, fragment = .node program ∧ Conforms .program program := by
  obtain ⟨arguments, given, dispatched⟩ := leave_ok run
  change dispatch Rule.script.name arguments = _ at dispatched
  rw [dispatch_rule] at dispatched
  have builds := Rule.builds_of_process dispatched
  cases builds with
  | emptyScript text => exact ⟨_, rfl, .program (by simp)⟩
  | script body =>
      refine ⟨_, rfl, .program fun node isIn => ?_⟩
      cases children with
      | nil =>
          unfold argumentsOf at given
          dsimp only [Tree.children] at given
          split at given
          · have same := Except.ok.inj given
            have isNode : Fragment.node node ∈ body.map Fragment.node := List.mem_map_of_mem isIn
            rw [← same] at isNode
            simp at isNode
          · cases given
      | cons first rest =>
          cases given
          obtain ⟨kind, member, fit⟩ := exists_fits fits (List.mem_map_of_mem isIn)
          obtain ⟨child, isChild, rfl⟩ := List.mem_map.mp member
          exact fit.statement (statements child isChild)
  | literal isRule | name isRule | operator isRule => simp at isRule
  | unaryUpdate isUnary | unary isUnary | updateAfter isUnary => simp at isUnary

end Trees

/-- Whatever a text is rebuilt as conforms to the schema. -/
theorem transform_conforms (options : Options) (source : Text) (program : Node)
    (run : transform options source = .ok program) : Conforms .program program := by
  obtain ⟨tree, parsed, folded⟩ := transform_ok run
  obtain ⟨children, _, _, rfl, -, statements, -, -⟩ := Grammar.allShaped_composes.parseWith parsed
  obtain ⟨_, same, -, shaped, spelled⟩ := parse_shaped parsed
  cases same
  obtain ⟨_, same, known⟩ := Grammar.parseWith_known parsed
  cases same
  obtain ⟨below, foldedAll, left⟩ := Visitor.fold_ok folded
  have fits : List.Forall₂ Kind.Fits (children.map Tree.label) below :=
    List.forall₂_map_left_iff.mpr (Visitor.foldAll_related (fun child isChild _ =>
      fold_fits (shaped child isChild) (spelled child isChild)
        ((known child isChild).1.mono fun _ placed => placed.traced.longSequence)) foldedAll)
  obtain ⟨found, isProgram, conforms⟩ := script_conforms statements fits left
  cases isProgram
  exact conforms

/-- A call in a template, with a spread argument. -/
theorem transform_conforms_template :
    ∃ program, transform ⟨.script, .standard⟩ "\x60a$\x7bf(...x)\x7d\x60".toList = .ok program ∧
      Conforms .program program := by
  have rebuilt : (transform ⟨.script, .standard⟩
      "\x60a$\x7bf(...x)\x7d\x60".toList).isOk = true := by
    decide +kernel
  cases run : transform ⟨.script, .standard⟩ "\x60a$\x7bf(...x)\x7d\x60".toList with
  | error error =>
      rw [run] at rebuilt
      cases rebuilt
  | ok program => exact ⟨program, rfl, transform_conforms _ _ _ run⟩

end ScriptTree
