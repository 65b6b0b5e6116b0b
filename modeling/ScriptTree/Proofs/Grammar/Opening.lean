import ScriptTree.Proofs.Grammar.Braces

/-!
# Where operands start

Whether a slash opens a pattern is decided by what stands in front of it alone.
The phrases are followed, and the trail along with them, to see which tokens
stand in front of an operand.  An array needs a second look, because its loop
goes on behind an element that a bracket follows, where no operand can start.
-/

namespace ScriptTree

namespace Token

/-- Whether an operand may follow a token behind which a slash divides. -/
def precedesOperand (token : Token) : Bool :=
  token.isWord .awaitWord || token.isWord .ofWord || Grammar.isExtends token ||
    token.isPunctuator .increment || token.isPunctuator .decrement

end Token

namespace Kind

/-- Labels of the tokens that an operand may follow. -/
def isOpening : Kind → Bool
  | .fixed (.keyword _) | .fixed (.contextual .awaitWord) | .fixed (.contextual .ofWord) => true
  | .fixed (.punctuator sign) => sign.allowsPatternAfter
  | .rule .equals | .rule .star | .rule .updateOp | .rule .assignOp | .rule .arithOp
  | .rule .compareOp | .rule .logicOp | .rule .bitOp => true
  | _ => false

end Kind

namespace Grammar

/-! ## Tokens in front of an operand -/

theorem assignmentKind?_allows {kind : TokenKind} {rule : Rule}
    (found : assignmentKind? kind = some rule) : kind.allowsPatternAfter = true := by
  unfold assignmentKind? at found
  split at found <;> first | rfl | cases found

theorem ofToken?_allows {kind : TokenKind} {noIn : Bool} {operator : BinaryOperator}
    (found : BinaryOperator.ofToken? kind noIn = some operator) :
    kind.allowsPatternAfter = true := by
  cases kind with
  | punctuator sign => cases sign <;> first | rfl | cases found
  | keyword word => rfl
  | _ => cases found

theorem prefixKind?_allows {kind : TokenKind} {label : Kind}
    (found : prefixKind? kind = some label) :
    kind.allowsPatternAfter = true ∨ kind = .punctuator .increment ∨
      kind = .punctuator .decrement := by
  unfold prefixKind? at found
  split at found <;> simp_all [TokenKind.allowsPatternAfter, Punctuator.allowsPatternAfter]

theorem ofToken?_opening {kind : TokenKind} {noIn : Bool} {operator : BinaryOperator}
    (found : BinaryOperator.ofToken? kind noIn = some operator) :
    operator.kind.isOpening = true := by
  cases kind with
  | punctuator sign => cases sign <;> cases found <;> rfl
  | keyword word => cases word <;> cases noIn <;> cases found <;> rfl
  | _ => cases found

theorem prefixKind?_opening {kind : TokenKind} {label : Kind}
    (found : prefixKind? kind = some label) : label.isOpening = true := by
  unfold prefixKind? at found
  split at found <;> cases found <;> rfl

theorem assignmentKind?_opening {kind : TokenKind} {rule : Rule}
    (found : assignmentKind? kind = some rule) : (Kind.rule rule).isOpening = true := by
  unfold assignmentKind? at found
  split at found <;> cases found <;> rfl

/-- Behind a token with such a label a slash opens a pattern, but for a few
tokens. -/
theorem isOpening_admits {kind : Kind} {token : Token} (opening : kind.isOpening = true)
    (admits : kind.admits token = true) :
    token.kind.allowsPatternAfter = true ∨ token.precedesOperand = true := by
  have isSign {sign : Punctuator} (allows : sign.allowsPatternAfter = true)
      (is : token.isPunctuator sign = true) : token.kind.allowsPatternAfter = true := by
    rw [eq_of_beq is]
    exact allows
  have operates (admits : (prefixKind? token.kind == some kind ||
      (BinaryOperator.ofToken? token.kind false).any (·.kind == kind)) = true) :
      token.kind.allowsPatternAfter = true ∨ token.precedesOperand = true := by
    rcases Bool.or_eq_true_iff.mp admits with isPrefix | isBinary
    · rcases prefixKind?_allows (eq_of_beq isPrefix) with allows | is | is
      · exact .inl allows
      · exact .inr (by simp [Token.precedesOperand, Token.isPunctuator, is])
      · exact .inr (by simp [Token.precedesOperand, Token.isPunctuator, is])
    · cases found : BinaryOperator.ofToken? token.kind false with
      | none =>
          rw [found] at isBinary
          cases isBinary
      | some operator => exact .inl (ofToken?_allows found)
  unfold Kind.isOpening at opening
  split at opening
  case h_1 word =>
    by_cases isExtends : word = .extendsWord
    · subst isExtends
      change isExtends token = true at admits
      exact .inr (by simp [Token.precedesOperand, admits])
    · left
      have is : token.isKeyword word = true := by
        cases word <;> first | exact admits | exact absurd rfl isExtends
      rw [eq_of_beq is]
      rfl
  case h_2 =>
    change token.isWord .awaitWord = true at admits
    exact .inr (by simp [Token.precedesOperand, admits])
  case h_3 =>
    change token.isWord .ofWord = true at admits
    exact .inr (by simp [Token.precedesOperand, admits])
  case h_4 sign => exact .inl (isSign opening admits)
  case h_5 => exact .inl (isSign rfl admits)
  case h_6 => exact .inl (isSign rfl admits)
  case h_7 =>
    rcases Bool.or_eq_true_iff.mp admits with is | is
    · exact .inr (by simp [Token.precedesOperand, is])
    · exact .inr (by simp [Token.precedesOperand, is])
  case h_8 => exact .inl (assignmentKind?_allows (eq_of_beq admits))
  case h_9 => exact operates admits
  case h_10 => exact operates admits
  case h_11 => exact operates admits
  case h_12 => exact operates admits
  case h_13 => cases opening

/-! ## Points where an operand may start -/

/-- Whether an operand may follow although a slash divides. -/
def Previous.precedesOperand : Previous → Bool
  | .token last => last.precedesOperand
  | _ => false

/-- A property of the points that the trail comes to behind something after
which a slash opens a pattern, or after which an operand may follow anyway. -/
def Readying (settings : Settings) (ready : Point → Prop) : Prop :=
  ∀ ⦃point previous⦄, point.Behind settings previous →
    previous.allowsPattern = true ∨ previous.precedesOperand = true → ready point

/-- What is known of the point between two steps of a phrase. -/
structure Readiness where
  /-- An operand may start here. -/
  opens : Prop
  /-- An operand may start here, or a closing bracket comes next. -/
  settles : Prop

namespace Readiness

/-- Nothing is known. -/
def none : Readiness :=
  ⟨False, False⟩

/-- An operand may start here. -/
def full : Readiness :=
  ⟨True, True⟩

/-- An operand may start here if a condition holds. -/
def when (condition : Prop) : Readiness :=
  ⟨condition, condition⟩

variable (settings : Settings) (ready : Point → Prop)

structure Holds (known : Readiness) (point : Point) : Prop where
  opens : known.opens → ready point
  settles : known.settles → ready point ∨ Sees settings point (·.isPunctuator .rightBracket)

variable {settings ready}

theorem Holds.full {point : Point} (isReady : ready point) :
    Readiness.full.Holds settings ready point :=
  ⟨fun _ => isReady, fun _ => .inl isReady⟩

theorem Holds.none (point : Point) : Readiness.none.Holds settings ready point :=
  ⟨False.elim, False.elim⟩

end Readiness

namespace Phrase

/-- What is known behind a phrase, given what is known in front of it. -/
def following : Phrase → Readiness → Readiness
  | .done, known | .reduce _, known => known
  | .take kind, _ => .when (kind.isOpening = true)
  | .ask _, _ | .template, _ => .none
  | .sub inner, known | .within _ inner, known => inner.following known
  | .seq first second, known => second.following (first.following known)
  | .either first second, known =>
      ⟨(first.following known).opens ∧ (second.following known).opens,
        (first.following known).settles ∧ (second.following known).settles⟩
  | .many inner, known =>
      ⟨known.opens ∧ (inner.following .full).opens,
        known.settles ∧ (inner.following ⟨False, True⟩).settles⟩
  | .given holds, known =>
      ⟨known.opens ∨ ∀ settings scope point trees, holds settings scope point trees →
          known.settles ∧ ¬Sees settings point (·.isPunctuator .rightBracket),
        known.settles ∨ ∀ settings scope point trees, holds settings scope point trees →
          Sees settings point (·.isPunctuator .rightBracket)⟩
  | .byKind family, known =>
      ⟨∀ kind, ((family kind).following known).opens,
        ∀ kind, ((family kind).following known).settles⟩

/-- Operands are asked for only where one may start. -/
def Guards : Phrase → Readiness → Prop
  | .ask goal, known => goal = .statement ∨ known.opens
  | .sub inner, known | .within _ inner, known => inner.Guards known
  | .seq first second, known => first.Guards known ∧ second.Guards (first.following known)
  | .either first second, known => first.Guards known ∧ second.Guards known
  | .many inner, known => inner.Guards ((Phrase.many inner).following known)
  | .byKind family, known => ∀ kind, (family kind).Guards known
  | .done, _ | .take _, _ | .reduce _, _ | .given _, _ | .template, _ => True

variable {settings : Settings} {category : Category} {ready : Point → Prop}

section

variable {scope inside : Scope} {point last target : Point} {before trees : List SyntaxTree}
  {goal : Goal} {known : Readiness}
  (asked : ∀ {goal scope point tree last}, category goal scope point tree last →
    keeping settings goal scope point tree last)
  (readying : Readying settings ready)

include asked readying

theorem following_holds {phrase : Phrase} (tracked : phrase.Tracked settings point)
    (reads : phrase.Reads settings category scope point before last trees)
    (holds : known.Holds settings ready point) :
    (phrase.following known).Holds settings ready last := by
  induction phrase generalizing scope point last before trees known with
  | done =>
      obtain ⟨rfl, -⟩ := reads
      exact holds
  | take kind =>
      obtain ⟨token, scanned, admits, rfl, -⟩ := reads
      have opens (opening : kind.isOpening = true) : ready (.after token) :=
        readying (tracked.token scanned admits) (isOpening_admits opening admits)
      exact ⟨opens, fun opening => .inl (opens opening)⟩
  | ask goal => exact .none last
  | sub inner ih =>
      obtain ⟨added, reads, -⟩ := reads
      exact ih tracked reads holds
  | reduce rule =>
      obtain ⟨rfl, -⟩ := reads
      exact holds
  | seq first second firstIh secondIh =>
      obtain ⟨middle, between, firstReads, secondReads⟩ := reads
      exact secondIh (tracked.behind asked firstReads) secondReads
        (firstIh tracked.front firstReads holds)
  | either first second firstIh secondIh =>
      rcases reads with reads | reads
      · have behind := firstIh tracked.left reads holds
        exact ⟨fun opens => behind.opens opens.1, fun settles => behind.settles settles.1⟩
      · have behind := secondIh tracked.right reads holds
        exact ⟨fun opens => behind.opens opens.2, fun settles => behind.settles settles.2⟩
  | many inner ih =>
      -- Each of the two facts is kept by every round that starts with it.
      induction reads using Reads.rounds with
      | start => exact ⟨fun opens => holds.opens opens.1, fun settles => holds.settles settles.1⟩
      | round earlier step current =>
          have round := tracked.round asked earlier
          constructor
          · intro opens
            exact (ih round step (.full (current.opens opens))).opens opens.2
          · intro settles
            exact (ih round step ⟨False.elim, fun _ => current.settles settles⟩).settles settles.2
  | within change inner ih => exact ih tracked reads holds
  | given condition =>
      obtain ⟨met, rfl, -⟩ := reads
      constructor
      · rintro (opens | implies)
        · exact holds.opens opens
        · obtain ⟨settles, notClosing⟩ := implies _ _ _ _ met
          exact (holds.settles settles).resolve_right notClosing
      · rintro (settles | implies)
        · exact holds.settles settles
        · exact .inr (implies _ _ _ _ met)
  | byKind family ih =>
      obtain ⟨token, scanned, reads⟩ := reads
      have behind := ih token.kind (tracked.chosen token.kind) reads holds
      exact ⟨fun opens => behind.opens (opens _), fun settles => behind.settles (settles _)⟩
  | template => exact .none last

theorem Guards.calls_ready {phrase : Phrase} (guards : phrase.Guards known)
    (tracked : phrase.Tracked settings point) (holds : known.Holds settings ready point)
    (calls : phrase.Calls settings category scope point before goal inside target) :
    goal = .statement ∨ ready target := by
  induction phrase generalizing scope point before known with
  | ask other =>
      obtain ⟨rfl, -, rfl⟩ := calls
      exact guards.imp_right holds.opens
  | sub inner ih => exact ih guards tracked holds calls
  | seq first second firstIh secondIh =>
      rcases calls with calls | ⟨middle, between, reads, calls⟩
      · exact firstIh guards.1 tracked.front holds calls
      · have behind := following_holds asked readying tracked.front reads holds
        exact secondIh guards.2 (tracked.behind asked reads) behind calls
  | either first second firstIh secondIh =>
      rcases calls with calls | calls
      · exact firstIh guards.1 tracked.left holds calls
      · exact secondIh guards.2 tracked.right holds calls
  | many inner ih =>
      obtain ⟨middle, between, reads, calls⟩ := calls
      have behind := following_holds asked readying tracked reads holds
      exact ih guards (tracked.round asked reads) behind calls
  | within change inner ih => exact ih guards tracked holds calls
  | byKind family ih =>
      obtain ⟨token, -, calls⟩ := calls
      exact ih token.kind (guards token.kind) (tracked.chosen token.kind) holds calls
  | template =>
      obtain ⟨token, scanned, opens, calls⟩ := calls
      obtain ⟨_, braces, outer, -, within⟩ := tracked
      have behind := chunkCalls_behind asked calls (within.backtick scanned opens)
      exact .inr (readying behind (.inl rfl))
  | _ => exact calls.elim

end

/-! ## The phrases of the grammar -/

section Guards

attribute [simp] Guards following Readiness.none Readiness.full Readiness.when Kind.isOpening
  Punctuator.allowsPatternAfter

@[simp]
theorem guards_orElse (first second : Phrase) (known : Readiness) :
    (first <|> second).Guards known ↔ first.Guards known ∧ second.Guards known :=
  Iff.rfl

@[simp]
theorem following_orElse (first second : Phrase) (known : Readiness) :
    (first <|> second).following known =
      ⟨(first.following known).opens ∧ (second.following known).opens,
        (first.following known).settles ∧ (second.following known).settles⟩ :=
  rfl

variable (known : Readiness)

theorem parameters_guards : parameters.Guards known := by
  simp [parameters, parameter, commaOrEnd, all, loop]

theorem block_guards : block.Guards known := by
  simp [block, statementRound, all, loop]

theorem methodRest_guards (isAsync : Bool) : (methodRest isAsync).Guards known := by
  simp [methodRest, functionBody, parameters_guards, block_guards, all]

theorem function_guards (rule : Rule) (isAsync : Bool) : (function rule isAsync).Guards known := by
  simp [function, function.rest, functionName, functionBody, parameters_guards, block_guards, all]

theorem method_guards : method.Guards known := by
  simp [method, methodFromWord, leading, starred, methodFromKey, propertyKey, modifier,
    methodRest_guards, all]

theorem classDefinition_guards (rule : Rule) : (classDefinition rule).Guards known := by
  simp [classDefinition, className, heritage, classBody, classRound, method_guards, all, loop]

theorem arguments_guards : arguments.Guards known := by
  simp [arguments, argument, element, spread, commaOrEnd, all, loop]

/-- Behind an element that a bracket follows, no further element is asked
for. -/
theorem array_guards : array.Guards known := by
  have round {known : Readiness} (again : Bool) (settles : known.settles) :
      (arrayRound again).Guards known := by
    have opens :
        ((ahead fun token => !token.isPunctuator .rightBracket).following known).opens := by
      refine .inr fun settings scope point trees met => ⟨settles, ?_⟩
      rintro ⟨token, scanned, closes⟩
      obtain ⟨other, same, differs⟩ := met
      obtain rfl := Except.ok.inj (scanned.symm.trans same)
      simp [closes] at differs
    have element (known : Readiness) (opens : known.opens) : element.Guards known :=
      ⟨⟨trivial, .inr rfl, trivial⟩, .inr opens⟩
    exact ⟨⟨trivial, trivial⟩, ⟨trivial, trivial⟩, trivial, element _ opens,
      ⟨trivial, trivial⟩, trivial, trivial⟩
  have settles : ((arrayRound true).following ⟨False, True⟩).settles := by
    refine And.intro (Or.inr fun _ _ _ _ again => ?_) (And.intro (Or.inl rfl) (And.intro ?_ ?_))
    · exact Bool.noConfusion (show true = false from again)
    · exact Or.inl (Or.inr fun _ _ _ _ closes => closes)
    · exact Or.inl rfl
  exact ⟨trivial, ⟨round true ⟨rfl, settles⟩, round false ⟨rfl, settles⟩⟩, trivial, trivial⟩

theorem property_guards : property.Guards known := by
  simp [property, leading, starred, propertyMethod, plainProperty, propertyKey, modifier,
    methodRest_guards, all]

theorem object_guards : object.Guards known := by
  simp [object, objectRound, entry, spread, property_guards, commaOrEnd, all, loop]

theorem primary_guards : primary.Guards known := by
  intro kind
  dsimp only
  split
  · simp [nameOrFunction, asyncFunction, function_guards, modifier, all]
  · trivial
  · trivial
  · trivial
  · exact function_guards _ _ _
  · exact classDefinition_guards _ _
  · simp [parenthesized, all]
  · exact array_guards _
  · exact object_guards _
  · trivial
  · trivial

theorem memberRound_guards (allowCall again : Bool) :
    (memberRound allowCall again).Guards known := by
  simp [memberRound, arguments_guards, all]

theorem construction_guards : construction.Guards known := by
  simp [construction, primary_guards, memberRound_guards, arguments_guards, all, loop]

theorem leftHandSide_guards : leftHandSide.Guards known := by
  simp [leftHandSide, construction_guards, primary_guards, memberRound_guards, all, loop]

theorem unary_guards : unary.Guards known := by
  intro kind
  dsimp only
  split
  · rename_i label found
    exact ⟨trivial, trivial, .inr (prefixKind?_opening found), trivial, trivial⟩
  · simp [withPostfix, leftHandSide_guards, all]

theorem binaryRound_guards (level : Nat) (again : Bool) :
    (binaryRound level again).Guards known := by
  refine ⟨fun kind => ?_, trivial, trivial⟩
  dsimp only
  split
  · rename_i operator found
    exact ⟨trivial, trivial, .inr (ofToken?_opening found), trivial, trivial⟩
  · trivial

theorem binary_guards (level : Nat) : (binary level).Guards known := by
  simp [binary, unary_guards, binaryRound_guards, all, loop]

theorem assignment_guards : assignment.Guards known := by
  have assigned : assigned.Guards known := by
    refine ⟨⟨binary_guards _ _, ?_⟩, fun kind => ?_⟩
    · simp [all]
    · dsimp only
      split
      · rename_i rule found
        exact ⟨trivial, trivial, .inr (assignmentKind?_opening found), trivial⟩
      · trivial
  have arrow : arrow.Guards known := by
    simp [arrow, inputs, arrowRest, functionBody, parameters_guards, block_guards, modifier, all]
  exact ⟨arrow, assigned⟩

theorem expression_guards (opens : known.opens) : expression.Guards known := by
  refine ⟨.inr opens, ?_⟩
  simp [sequenceRound, all, loop]

theorem expressionStatement_guards (opens : known.opens) : expressionStatement.Guards known :=
  ⟨expression_guards _ opens, by simp [terminator, all]⟩

theorem forHead_guards : forHead.Guards known := by
  have sub (known : Readiness) : countingRest.Guards known := by
    simp [countingRest, expressionBefore, all]
  have rest (known : Readiness) : iterationRest.Guards known := by
    simp [iterationRest, all]
  refine ⟨trivial, sub _, fun kind => ?_⟩
  dsimp only
  split
  · simp [declaredHead, iterationBinding, countingDeclaration, declarationRest, binding,
      nextBinding, rest, sub, all, loop]
  · exact ⟨expression_guards _ rfl, ⟨trivial, rest _⟩, sub _⟩

theorem keywordStatement_guards (word : Keyword) (opens : known.opens) :
    (keywordStatement word).Guards known := by
  unfold keywordStatement
  split
  · simp [declaration, declarationRest, binding, nextBinding, terminator, all, loop]
  · simp [declaration, declarationRest, binding, nextBinding, terminator, all, loop]
  · simp [declaration, declarationRest, binding, nextBinding, terminator, all, loop]
  · exact function_guards _ _ _
  · exact classDefinition_guards _ _
  · simp [ifStatement, parenthesized, all]
  · simp [whileStatement, parenthesized, all]
  · simp [doStatement, parenthesized, all]
  · simp [forStatement, forHead_guards, all]
  · simp [tryStatement, handler, handlerBinding, finalizer, block_guards, all]
  · simp [switchStatement, switchBody, switchEntry, caseLabel, defaultLabel, parenthesized, all,
      loop]
  · simp [returnStatement, expression_guards, terminator, all]
  · simp [jumpStatement, terminator, all]
  · simp [jumpStatement, terminator, all]
  · simp [throwStatement, expression_guards, terminator, all]
  · simp [terminator, all]
  · exact expressionStatement_guards _ opens

theorem statement_guards (opens : known.opens) : statement.Guards known := by
  intro kind
  dsimp only
  split
  · exact block_guards _
  · exact ⟨trivial, trivial⟩
  · exact keywordStatement_guards _ _ opens
  · have async : (asyncFunction .functionDeclaration).Guards .full := by
      simp [asyncFunction, function_guards, modifier, all]
    exact ⟨⟨trivial, trivial, .inl rfl, trivial⟩, async, expressionStatement_guards _ opens⟩
  · exact expressionStatement_guards _ opens

theorem ofGoal_guards (goal : Goal) : (ofGoal goal).Guards .full := by
  cases goal with
  | statement => exact statement_guards _ trivial
  | expression => exact expression_guards _ trivial
  | assignment => exact assignment_guards _
  | binary level => exact binary_guards _ level
  | unary => exact unary_guards _
  | leftHandSide => exact leftHandSide_guards _
  | construction => exact construction_guards _

theorem script_guards : script.Guards known := by
  simp [script, scriptRound, all, loop]

end Guards

end Phrase

end Grammar

end ScriptTree
