import ScriptTree.Proofs.Grammar.Arrival

/-!
# Layers around an operand

An operand is read through a layer for each kind of operator that may follow
it.  A layer whose operators do not follow leaves the operand as it is, and
one whose operator follows builds a tree around it.
-/

namespace ScriptTree

namespace Grammar

/-- Whether a token is an access, call or template that belongs to the operand
before it. -/
def belongsToOperand : TokenKind → Bool
  | .punctuator .dot | .punctuator .leftBracket | .punctuator .leftParen
  | .punctuator .backtick => true
  | _ => false

/-- What can leave a name alone belongs to no other operand either. -/
theorem belongsToOperand_of_leaves {kind : TokenKind} (leaves : leavesName kind = true) :
    belongsToOperand kind = false := by
  unfold belongsToOperand
  split <;> first | rfl | cases leaves

/-- What an assignment sign is not. -/
theorem assignmentKind?_other {kind : TokenKind} {rule : Rule}
    (found : assignmentKind? kind = some rule) :
    leavesName kind = true ∧ BinaryOperator.ofToken? kind false = none ∧
      kind ≠ .punctuator .question ∧ kind ≠ .punctuator .arrow := by
  unfold assignmentKind? at found
  split at found <;> first | exact ⟨rfl, rfl, nofun, nofun⟩ | cases found

def endsOperand : TokenKind → Bool
  | .punctuator .rightParen | .punctuator .rightBracket | .punctuator .comma
  | .punctuator .semicolon | .punctuator .colon => true
  | _ => false

theorem endsOperand_other {kind : TokenKind} (ends : endsOperand kind = true) :
    leavesName kind = true ∧ BinaryOperator.ofToken? kind false = none ∧
      assignmentKind? kind = none ∧ kind ≠ .punctuator .question ∧ kind ≠ .punctuator .arrow := by
  unfold endsOperand at ends
  split at ends <;> first | exact ⟨rfl, rfl, rfl, nofun, nofun⟩ | cases ends

theorem isPunctuator_true {token : Token} {sign : Punctuator}
    (kind : token.kind = .punctuator sign) : token.isPunctuator sign = true := by
  rw [Token.isPunctuator, kind, beq_self_eq_true]

theorem isPunctuator_false {token : Token} {sign : Punctuator}
    (other : token.kind ≠ .punctuator sign) : token.isPunctuator sign = false :=
  beq_false_of_ne other

namespace Arrives

variable {settings : Settings} {descent : Descent} {point middle last : Point}
  {token sign : Token} {base operand left right test target tree : SyntaxTree} {level : Nat}

/-! ## Accesses and calls -/

/-- Nothing more belongs to an operand. -/
theorem memberStep_done (next : point.next settings.dialect = .ok token)
    (ends : belongsToOperand token.kind = false) (operand : SyntaxTree) :
    Arrives settings (memberStep descent true operand) point (.done operand) point := by
  unfold memberStep
  refine .bind (.peek next) ?_
  cases kind : token.kind with
  | punctuator sign =>
      rw [kind] at ends
      cases sign
      case dot | leftBracket | leftParen | backtick => cases ends
      all_goals exact .pure _
  | _ => exact .pure _

theorem memberChain_done (rounds : 0 < descent.rounds)
    (next : point.next settings.dialect = .ok token) (ends : belongsToOperand token.kind = false)
    (operand : SyntaxTree) :
    Arrives settings (memberChain descent true operand) point operand point :=
  .iterate_done rounds (.memberStep_done next ends operand)

/-- One access or call follows an operand, and nothing more. -/
theorem memberChain_once (rounds : 1 < descent.rounds)
    (step : Arrives settings (memberStep descent true base) point (.again operand) last)
    (behind : last.next settings.dialect = .ok token) (ends : belongsToOperand token.kind = false) :
    Arrives settings (memberChain descent true base) point operand last := by
  obtain ⟨fewer, same⟩ : ∃ fewer, descent.rounds = fewer + 1 := ⟨descent.rounds - 1, by omega⟩
  unfold memberChain
  rw [same]
  exact .iterate_again step
    (.iterate_done (by omega) (.memberStep_done behind ends operand))

theorem leftHandSide (next : point.next settings.dialect = .ok token)
    (notNew : token.isKeyword .newWord = false)
    (reads : Arrives settings (primary descent) point base middle)
    (chain : Arrives settings (memberChain descent true base) middle operand last) :
    Arrives settings (Grammar.leftHandSide descent) point operand last := by
  unfold Grammar.leftHandSide
  refine .bind (.nextIsKeyword next _) ?_
  rw [notNew]
  exact .bind reads chain

/-! ## Operators with one operand -/

theorem assignable (tree : SyntaxTree) :
    Arrives settings (Grammar.assignable tree) point (isAssignable settings.source tree) point :=
  .bind .settings (.pure _)

theorem withPostfix_plain
    (reads : Arrives settings (Grammar.leftHandSide descent) point operand last)
    (behind : last.next settings.dialect = .ok token) (leaves : leavesName token.kind = true) :
    Arrives settings (withPostfix descent) point operand last := by
  have isSign_false {sign : Punctuator} (belongs : leavesName (.punctuator sign) = false) :
      token.isPunctuator sign = false := by
    refine isPunctuator_false fun same => ?_
    rw [same, belongs] at leaves
    cases leaves
  unfold withPostfix
  refine .bind reads (.bind (.peek behind) ?_)
  rw [isSign_false rfl, isSign_false rfl]
  exact .pure _

theorem withPostfix_update
    (reads : Arrives settings (Grammar.leftHandSide descent) point operand middle)
    (behind : middle.next settings.dialect = .ok sign)
    (isUpdate : (sign.isPunctuator .increment || sign.isPunctuator .decrement) = true)
    (sameLine : isPostfixAt settings sign = true)
    (target : isAssignable settings.source operand = true) :
    Arrives settings (withPostfix descent) point
      (build .postfixExpression [operand, .leaf (.rule .updateOp) sign.span]) (.after sign) := by
  unfold withPostfix
  refine .bind reads (.bind (.peek behind) ?_)
  rw [isUpdate]
  refine .bind .settings ?_
  rw [sameLine]
  refine .bind (.assignable operand) ?_
  rw [target]
  exact .bind (.leaf behind _) (.pure _)

/-- What starts with no operator is read as an operand. -/
theorem unary_plain (next : point.next settings.dialect = .ok token)
    (noPrefix : prefixKind? token.kind = none)
    (reads : Arrives settings (withPostfix descent) point operand last) :
    Arrives settings (unary descent) point operand last := by
  unfold unary
  refine .bind (.peek next) ?_
  rw [noPrefix]
  refine .state fun state kept => ?_
  have notAsync : state.inAsync = false := congrArg Scope.inAsync kept
  rw [notAsync]
  exact reads

theorem unary_operator {kind : Kind} (unbounded : settings.limit = none)
    (next : point.next settings.dialect = .ok token) (isPrefix : prefixKind? token.kind = some kind)
    (plain : (kind == .rule .updateOp) = false)
    (reads : Arrives settings (descent.read .unary) (.after token) operand last) :
    Arrives settings (unary descent) point
      (build .unaryExpression [.leaf kind token.span, operand]) last := by
  unfold unary
  refine .bind (.peek next) ?_
  simp only [isPrefix, plain, Bool.false_and]
  exact .bind .settings (.bind (.leaf next _)
    (.bind (.nested unbounded reads) (.bind (.assignable operand) (.pure _))))

theorem unary_update (unbounded : settings.limit = none)
    (next : point.next settings.dialect = .ok token)
    (isPrefix : prefixKind? token.kind = some (.rule .updateOp))
    (isBefore : isPrefixAt settings token = true)
    (reads : Arrives settings (descent.read .unary) (.after token) operand last)
    (target : isAssignable settings.source operand = true) :
    Arrives settings (unary descent) point
      (build .unaryExpression [.leaf (.rule .updateOp) token.span, operand]) last := by
  unfold unary
  refine .bind (.peek next) ?_
  simp only [isPrefix, beq_self_eq_true, Bool.true_and]
  refine .bind .settings ?_
  rw [isBefore]
  refine .bind (.leaf next _) (.bind (.nested unbounded reads) (.bind (.assignable operand) ?_))
  rw [target]
  exact .pure _

/-! ## Operators with two operands -/

theorem binaryStep_done (next : point.next settings.dialect = .ok token)
    (ends : BinaryOperator.ofToken? token.kind false = none) (left : SyntaxTree) :
    Arrives settings (binaryStep descent level left) point (.done left) point := by
  intro state stands
  have isIn : state.noIn = false := congrArg Scope.noIn stands.scope
  refine ⟨state.look token, stands.look next,
    Grammar.binaryStep_done (stands.facing next) fun operator found => ?_⟩
  rw [isIn, ends] at found
  cases found

theorem binary_plain (rounds : 0 < descent.rounds)
    (reads : Arrives settings (unary descent) point left last)
    (behind : last.next settings.dialect = .ok token)
    (ends : BinaryOperator.ofToken? token.kind false = none) :
    Arrives settings (binary descent level) point left last :=
  .bind reads (.iterate_done rounds (.binaryStep_done behind ends left))

theorem binary_once {operator : BinaryOperator} (unbounded : settings.limit = none)
    (rounds : 1 < descent.rounds) (reads : Arrives settings (unary descent) point left middle)
    (behind : middle.next settings.dialect = .ok sign)
    (found : BinaryOperator.ofToken? sign.kind false = some operator)
    (tight : level ≤ operator.level)
    (later : Arrives settings (descent.read (.binary operator.operandLevel)) (.after sign) right
      last)
    (follows : last.next settings.dialect = .ok token)
    (ends : BinaryOperator.ofToken? token.kind false = none) :
    Arrives settings (binary descent level) point
      (build .binaryExpression [left, .leaf operator.kind sign.span, right]) last := by
  have step : Arrives settings (binaryStep descent level left) middle
      (.again (build .binaryExpression [left, .leaf operator.kind sign.span, right])) last := by
    intro state stands
    obtain ⟨after, standsAfter, run⟩ := Arrives.nested unbounded later _ (stands.pass sign)
    have isIn : state.noIn = false := congrArg Scope.noIn stands.scope
    exact ⟨after, standsAfter,
      binaryStep_again (stands.facing behind) (by rwa [isIn]) tight run⟩
  obtain ⟨fewer, same⟩ : ∃ fewer, descent.rounds = fewer + 1 := ⟨descent.rounds - 1, by omega⟩
  unfold binary
  refine .bind reads ?_
  rw [same]
  exact .iterate_again step (.iterate_done (by omega) (.binaryStep_done follows ends _))

/-! ## Choices and assignments -/

theorem conditional_plain
    (reads : Arrives settings (binary descent BinaryOperator.lowest) point test last)
    (behind : last.next settings.dialect = .ok token)
    (notQuestion : token.isPunctuator .question = false) :
    Arrives settings (conditional descent) point test last :=
  .bind reads (.bind (.accept_none behind notQuestion) (.pure _))

theorem conditional_choice {question colon : Token} {consequent alternate : SyntaxTree}
    {behind : Point}
    (reads : Arrives settings (binary descent BinaryOperator.lowest) point test middle)
    (asks : middle.next settings.dialect = .ok question)
    (isQuestion : question.isPunctuator .question = true)
    (first : Arrives settings (descent.read .assignment) (.after question) consequent behind)
    (divides : behind.next settings.dialect = .ok colon)
    (isColon : colon.isPunctuator .colon = true)
    (second : Arrives settings (descent.read .assignment) (.after colon) alternate last) :
    Arrives settings (conditional descent) point
      (build .conditionalExpression [test, .leaf (.fixed (.punctuator .question)) question.span,
        consequent, .leaf (.fixed (.punctuator .colon)) colon.span, alternate]) last :=
  .bind reads (.bind (.accept_some asks isQuestion)
    (.bind (.withIn first) (.bind (.expect divides isColon) (.bind second (.pure _)))))

theorem assignment_plain (unbounded : settings.limit = none)
    (noArrow : Arrives settings (arrow? descent) point none point)
    (reads : Arrives settings (conditional descent) point tree last)
    (behind : last.next settings.dialect = .ok token)
    (ends : assignmentKind? token.kind = none) :
    Arrives settings (assignment descent) point tree last := by
  refine .nested unbounded (.bind noArrow (.bind reads (.bind (.peek behind) ?_)))
  rw [ends]
  exact .pure _

theorem assignment_assigns {rule : Rule} (unbounded : settings.limit = none)
    (noArrow : Arrives settings (arrow? descent) point none point)
    (reads : Arrives settings (conditional descent) point target middle)
    (behind : middle.next settings.dialect = .ok sign)
    (assigns : assignmentKind? sign.kind = some rule)
    (isTarget : isAssignable settings.source target = true)
    (later : Arrives settings (descent.read .assignment) (.after sign) right last) :
    Arrives settings (assignment descent) point
      (build .assignmentExpression [target, .leaf (.rule rule) sign.span, right]) last := by
  refine .nested unbounded (.bind noArrow (.bind reads (.bind (.peek behind) ?_)))
  rw [assigns]
  refine .bind (.assignable target) ?_
  rw [isTarget]
  exact .bind (.leaf behind _) (.bind later (.pure _))

theorem expression_plain (reads : Arrives settings (descent.read .assignment) point tree last)
    (behind : last.next settings.dialect = .ok token)
    (notComma : token.isPunctuator .comma = false) :
    Arrives settings (expression descent) point tree last := by
  unfold expression
  refine .bind reads (.bind (.nextIs behind _) ?_)
  rw [notComma]
  exact .pure _

end Arrives

end Grammar

end ScriptTree
