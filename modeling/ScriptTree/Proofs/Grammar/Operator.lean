import ScriptTree.Proofs.Grammar.Operand

/-!
# Phrases of operators
-/

namespace ScriptTree

namespace Grammar

namespace Phrase

def assignsLast (source : Text) (trees : List SyntaxTree) : Bool :=
  trees.getLast?.any (isAssignable source)

def updates (token : Token) : Bool :=
  token.isPunctuator .increment || token.isPunctuator .decrement

/-- An operand, with `++` or `--` if it follows in the same line. -/
def withPostfix : Phrase :=
  .all [leftHandSide,
    .all [.given fun settings _ point _ => ∃ token, point.next settings.dialect = .ok token ∧
        isPostfixAt settings token = true,
      .ensure assignsLast, .named .updateOp, .reduce .postfixExpression] <|>
    .given fun settings _ point _ => ∃ token, point.next settings.dialect = .ok token ∧
      (updates token = true → isPostfixAt settings token = false)]

/-- An operator in front of its operand.  What `++` and `--` are applied to
must be assignable. -/
def prefixed (label : Kind) : Phrase :=
  .all [.given fun settings _ point _ => label = .rule .updateOp →
      ∃ token, point.next settings.dialect = .ok token ∧ isPrefixAt settings token = true,
    .take label, .ask .unary,
    .ensure fun source trees => label != .rule .updateOp || assignsLast source trees,
    .reduce .unaryExpression]

/-- An operand with the operators in front of it. -/
def unary : Phrase :=
  .byKind fun kind =>
    match prefixKind? kind with
    | some label => prefixed label
    | none =>
        .all [.given fun _ scope _ _ => scope.inAsync = true, .contextual .awaitWord, .ask .unary,
          .reduce .awaitExpression] <|> withPostfix

/-- No operator of the given level or a tighter one comes next. -/
def endsLevel (level : Nat) : Phrase :=
  .given fun settings scope point _ => ∃ token, point.next settings.dialect = .ok token ∧
    ∀ operator, BinaryOperator.ofToken? token.kind scope.noIn = some operator →
      operator.level < level

/-- A binary operator of at least the given level, with its right operand. -/
def operation (level : Nat) (kind : TokenKind) (operator : BinaryOperator) (again : Bool) :
    Phrase :=
  .all [.given fun _ scope _ _ => level ≤ operator.level ∧
      BinaryOperator.ofToken? kind scope.noIn = some operator,
    .take operator.kind, .ask (.binary operator.operandLevel), .reduce .binaryExpression,
    .leave again true]

def binaryRound (level : Nat) (again : Bool) : Phrase :=
  (.byKind fun kind =>
    match BinaryOperator.ofToken? kind false with
    | some operator => operation level kind operator again
    | none => .given fun _ _ _ _ => False) <|>
    .all [endsLevel level, .leave again false]

/-- Operands joined by operators of at least the given level. -/
def binary (level : Nat) : Phrase :=
  .all [unary, .loop (binaryRound level)]

/-- A choice between two values, or a value without one. -/
def conditional : Phrase :=
  .all [binary BinaryOperator.lowest,
    .all [.sign .question, .within (.withNoIn false) (.ask .assignment), .sign .colon,
      .ask .assignment, .reduce .conditionalExpression] <|> .done]

end Phrase

variable {settings : Settings} {category : Category}

open Implements

theorem admits_prefix {token : Token} {label : Kind} (found : prefixKind? token.kind = some label) :
    label.admits token = true := by
  unfold prefixKind? at found
  split at found
  all_goals cases found
  all_goals rename_i is
  all_goals simp [Kind.admits, Token.isPunctuator, Token.isKeyword, prefixKind?, is]

/-- An operator in the head of a loop is one elsewhere too. -/
theorem operator_elsewhere {kind : TokenKind} {noIn : Bool} {operator : BinaryOperator}
    (found : BinaryOperator.ofToken? kind noIn = some operator) :
    BinaryOperator.ofToken? kind false = some operator := by
  cases noIn with
  | false => exact found
  | true =>
      unfold BinaryOperator.ofToken? at found ⊢
      split at found <;> simp_all

theorem admits_operator {token : Token} {noIn : Bool} {operator : BinaryOperator}
    (found : BinaryOperator.ofToken? token.kind noIn = some operator) :
    operator.kind.admits token = true := by
  have elsewhere := operator_elsewhere found
  unfold BinaryOperator.ofToken? at found
  split at found
  case h_1 sign is =>
    unfold BinaryOperator.ofPunctuator? at found
    split at found
    all_goals cases found
    all_goals simp [Kind.admits, BinaryOperator.left, elsewhere]
  case h_2 is =>
    cases found
    simp [Kind.admits, Token.isKeyword, is]
  case h_3 is =>
    split at found
    all_goals cases found
    simp [Kind.admits, Token.isKeyword, is]
  case h_4 => cases found

theorem withPostfix_produces : Produces settings category .withPostfix withPostfix := by
  unfold withPostfix
  refine andThen leftHandSide_produces fun operand => ?_
  refine peek_then fun token => ite (fun isUpdate => ?_) fun other => ?_
  · refine settings_then (ite (fun follows => ?_) fun apart => ?_)
    · simp only [assignable, bind_assoc, pure_bind]
      refine settings_then (ite (fun assigns => ?_) fun _ => fail)
      refine inl (given (fun _ _ holds => ⟨token, holds.2, follows⟩) ?_)
      refine given (fun _ _ _ => by simpa [Phrase.assignsLast] using assigns) ?_
      refine andThen (takes fun _ _ holds => ⟨token, holds.2, isUpdate⟩) fun operator => ?_
      exact reduces (by simp)
    · refine inr (yields fun _ _ holds => ?_)
      exact ⟨⟨token, holds.2, fun _ => by simpa using apart⟩, rfl, rfl⟩
  · refine inr (yields fun _ _ holds => ?_)
    exact ⟨⟨token, holds.2, fun isUpdate => absurd isUpdate other⟩, rfl, rfl⟩

theorem unary_produces : Produces settings category .unary unary := by
  unfold unary
  refine peek_byKind fun token => ?_
  cases found : prefixKind? token.kind with
  | some label =>
      refine settings_then (ite (fun _ => fail) fun accepted => ?_)
      refine given (fun _ _ holds isUpdate => ⟨token, holds.2, ?_⟩) ?_
      · simpa [isUpdate] using accepted
      refine andThen (takes fun _ _ holds => ⟨token, holds.2, admits_prefix found⟩)
        fun operator => ?_
      refine andThen (nested ask) fun operand => ?_
      simp only [assignable, bind_assoc, pure_bind]
      refine settings_then (ite (fun _ => fail) fun assigns => ?_)
      refine given (fun _ _ _ => ?_) (reduces (by simp))
      simpa [Phrase.assignsLast, Classical.or_iff_not_imp_left] using assigns
  | none =>
      refine state_then fun current => ite (fun awaits => ?_) fun _ => ?_
      · rw [Bool.and_eq_true] at awaits
        refine inl (given (fun _ _ holds => ?_) ?_)
        · rw [← holds.2.1]
          exact awaits.1
        · refine andThen takes_contextual fun keyword => ?_
          exact andThen (nested ask) fun operand => reduces (by simp)
      · exact inr withPostfix_produces.always

theorem binary_rounds {level : Nat} :
    Rounds settings category (.binaryRound level) (fun tree => [tree]) (fun tree => [tree])
      (fun left descent => binaryStep descent level left) := by
  intro left
  unfold binaryStep
  refine peek_then fun token => state_then fun current => ?_
  cases found : BinaryOperator.ofToken? token.kind current.noIn with
  | none =>
      refine inr (given (fun scope _ holds => ⟨token, holds.1.2, fun operator known => ?_⟩)
        (stop rfl))
      rw [← holds.2.1] at known
      exact absurd known (by simp [State.scope, found])
  | some operator =>
      refine ite (fun loose => ?_) fun tight => ?_
      · refine inr (given (fun scope _ holds => ⟨token, holds.1.2, fun other known => ?_⟩)
          (stop rfl))
        rw [← holds.2.1] at known
        obtain rfl : operator = other := Option.some.inj (found.symm.trans known)
        exact loose
      · refine inl (ofKind (fun _ _ holds => holds.1.2) ?_)
        simp only [operator_elsewhere found]
        refine given (fun scope _ holds => ⟨Nat.le_of_not_lt tight, ?_⟩) ?_
        · rw [← holds.2.1]
          exact found
        refine andThen (takes fun _ _ holds => ⟨token, holds.1.2, admits_operator found⟩)
          fun sign => ?_
        exact andThen (nested ask) fun right => again_with (by simp)

theorem binary_produces {level : Nat} :
    Produces settings category (.binary level) (binary · level) := by
  unfold binary
  exact andThen unary_produces fun left => loops binary_rounds

theorem conditional_produces : Produces settings category .conditional conditional := by
  unfold conditional
  refine andThen binary_produces fun test => ?_
  refine accept_then (fun question => ?_) (finish rfl)
  refine andThen (withIn ask) fun consequent => ?_
  refine andThen takes_sign fun colon => ?_
  exact andThen ask fun alternate => reduces (by simp)

end Grammar

end ScriptTree
