import ScriptTree.Proofs.Grammar.Items

/-!
# Forms of expressions

Each form of expression is read by the production for it, once the parts in
its parentheses are.  The productions around that one leave the expression as
it is.
-/

namespace ScriptTree

namespace Grammar

open Estree

/-! ## Operators as tokens -/

/-- What an operator in front of an operand is not. -/
theorem prefixKind?_other {kind : TokenKind} {label : Kind}
    (found : prefixKind? kind = some label) :
    kind ≠ .identifier ∧ kind ≠ .punctuator .leftParen := by
  unfold prefixKind? at found
  split at found <;> first | contradiction | exact ⟨nofun, nofun⟩

theorem prefixKind?_unary (dialect : Dialect) : ∀ operator ∈ unaryOperators,
    (∃ kind ∈ prefixKind? (Token.kindOf dialect operator.toList),
        kind ≠ .rule .updateOp ∧ kind.isCopied operator.toList = true) ∧
      Rebuild.isUpdateOperator operator = false := by
  cases dialect <;> decide +kernel

theorem updateOperators_sign : ∀ operator ∈ updateOperators,
    (operator.toList = Punctuator.increment.chars ∨
        operator.toList = Punctuator.decrement.chars) ∧
      Rebuild.isUpdateOperator operator = true := by
  decide +kernel

/-- An operator with two operands binds, and skips its second one only if it
is logical. -/
theorem ofToken?_between (dialect : Dialect) :
    (∀ operator ∈ binaryOperators ++ logicalOperators,
        ∃ found ∈ BinaryOperator.ofToken? (Token.kindOf dialect operator.toList) false,
          BinaryOperator.lowest ≤ found.level ∧ found.kind.isCopied operator.toList = true) ∧
      (∀ operator ∈ binaryOperators, Rebuild.isLogicalOperator operator = false) ∧
        ∀ operator ∈ logicalOperators, Rebuild.isLogicalOperator operator = true := by
  cases dialect <;> decide +kernel

theorem assignmentKind?_known (dialect : Dialect) : ∀ operator ∈ assignmentOperators,
    ∃ rule ∈ assignmentKind? (Token.kindOf dialect operator.toList),
      (Kind.rule rule).isCopied operator.toList = true := by
  cases dialect <;> decide +kernel

/-- A token of an update can stand on either side of its operand. -/
structure IsUpdate (settings : Settings) (token : Token) : Prop where
  sign : (token.isPunctuator .increment || token.isPunctuator .decrement) = true
  labels : prefixKind? token.kind = some (.rule .updateOp)
  before : isPrefixAt settings token = true
  behind : isPostfixAt settings token = true

theorem isUpdate_of_is {settings : Settings} {operator : String} {token : Token}
    (known : operator ∈ updateOperators) (is : token.Is settings.dialect operator.toList) :
    IsUpdate settings token := by
  have marks {sign : Char} {more : Text} (starts : token.start.rest = sign :: sign :: more)
      (isSign : sign = '+' ∨ sign = '-') :
      isPrefixAt settings token = true ∧ isPostfixAt settings token = true := by
    rcases isSign with rfl | rfl <;>
      simp [isPrefixAt, isPostfixAt, markAt, Recognizer.update, Recognizer.update.second,
        Probe.ofPlace, Probe.current, Probe.step, Probe.mark?, Probe.accept, Place.current,
        Place.step, starts, is.gap, Gap.isBreak, Outlook.admits]
  have starts := is.start
  obtain ⟨same | same, -⟩ := updateOperators_sign operator known
  · have kind : token.kind = .punctuator .increment := by rw [is.kind, same, Token.kindOf_sign]
    rw [same] at starts
    obtain ⟨before, behind⟩ := marks starts (.inl rfl)
    exact ⟨by rw [isPunctuator_true kind]; rfl, by rw [kind]; rfl, before, behind⟩
  · have kind : token.kind = .punctuator .decrement := by rw [is.kind, same, Token.kindOf_sign]
    rw [same] at starts
    obtain ⟨before, behind⟩ := marks starts (.inr rfl)
    exact ⟨by rw [isPunctuator_true kind, Bool.or_true], by rw [kind]; rfl, before, behind⟩

/-- A name that denotes no value is a variable. -/
theorem valueNames_free {name : String} (free : name ∉ Node.valueNames) :
    valueNames.contains name.toList = false := by
  have listed : ∀ word ∈ valueNames, String.ofList word ∈ Node.valueNames := by decide
  by_contra contained
  refine free ?_
  have isIn := listed name.toList (List.contains_iff_mem.mp (by simpa using contained))
  rwa [String.ofList_toList] at isIn

/-! ## Layers that leave an expression as it is -/

/-- A production reads an expression in front of the signs that end an operand,
and no arrow function starts there. -/
def ReadsBy (settings : Settings) (production : Descent → Parse SyntaxTree) (expression : Node) :
    Prop :=
  ∀ ⦃steps : Nat⦄ ⦃point last : Point⦄ ⦃closer : Token⦄,
    2 * expression.words.length < steps → point.InText settings →
    Words settings point expression.words last → last.next settings.dialect = .ok closer →
    endsOperand closer.kind = true →
    ∃ tree, Conveys settings.source tree expression ∧
      Arrives settings (arrow? (within steps)) point none point ∧
      Arrives settings (production (within steps)) point tree last

/-- What closes an expression ends its last operand, and is no comma. -/
theorem closer_ends {closer : Token}
    (closes : closer.kind = .punctuator .rightParen ∨ closer.kind = .punctuator .semicolon) :
    endsOperand closer.kind = true ∧ closer.isPunctuator .comma = false := by
  rcases closes with kind | kind
  · exact ⟨by rw [kind]; rfl, isPunctuator_of_kind kind (by decide)⟩
  · exact ⟨by rw [kind]; rfl, isPunctuator_of_kind kind (by decide)⟩

namespace ReadsBy

variable {settings : Settings} {expression : Node}

theorem binary (reads : ReadsBy settings unary expression) :
    ReadsBy settings (binary · BinaryOperator.lowest) expression := by
  intro steps point last closer enough inText words behind ends
  obtain ⟨-, notOperator, -⟩ := endsOperand_other ends
  obtain ⟨tree, conveys, noArrow, arrives⟩ := reads enough inText words behind ends
  exact ⟨tree, conveys, noArrow, .binary_plain (by simp only; omega) arrives behind notOperator⟩

theorem conditional (reads : ReadsBy settings (Grammar.binary · BinaryOperator.lowest) expression) :
    ReadsBy settings conditional expression := by
  intro steps point last closer enough inText words behind ends
  obtain ⟨-, -, -, notQuestion, -⟩ := endsOperand_other ends
  obtain ⟨tree, conveys, noArrow, arrives⟩ := reads enough inText words behind ends
  exact ⟨tree, conveys, noArrow, .conditional_plain arrives behind (isPunctuator_false notQuestion)⟩

theorem assignment (unbounded : settings.limit = none)
    (reads : ReadsBy settings Grammar.conditional expression) :
    ReadsBy settings assignment expression := by
  intro steps point last closer enough inText words behind ends
  obtain ⟨-, -, notAssignment, -⟩ := endsOperand_other ends
  obtain ⟨tree, conveys, noArrow, arrives⟩ := reads enough inText words behind ends
  exact ⟨tree, conveys, noArrow, .assignment_plain unbounded noArrow arrives behind notAssignment⟩

theorem whole (reads : ReadsBy settings Grammar.assignment expression) :
    Reads settings expression := by
  intro steps point last closer enough inText words behind closes
  obtain ⟨fewer, rfl⟩ : ∃ fewer, steps = fewer + 1 := ⟨steps - 1, by omega⟩
  obtain ⟨ends, notComma⟩ := closer_ends closes
  obtain ⟨tree, conveys, -, arrives⟩ := reads (by omega : _ < fewer) inText words behind ends
  have asked : Arrives settings ((within (fewer + 1)).read .assignment) point tree last := arrives
  exact ⟨tree, conveys, .expression_plain asked behind notComma⟩

end ReadsBy

/-! ## Forms -/

section

variable {settings : Settings} (unbounded : settings.limit = none)
  (sized : settings.size = Text.size settings.source)

include sized

theorem reads_identifier {name : String} (isName : IsName settings.dialect name.toList)
    (free : name ∉ Node.valueNames) : ReadsBy settings unary (.identifier name) := by
  intro steps point last closer enough inText words behind ends
  obtain ⟨leaves, -, -, -, notArrow⟩ := endsOperand_other ends
  rw [Node.words] at words
  obtain ⟨token, next, is, rest⟩ := words.cons_cases
  cases rest
  have bare : Bare settings token closer := ⟨is.kind.trans (IsName.kindOf isName), behind, leaves⟩
  have notName : closer.isIdentifier = false := by
    refine beq_false_of_ne fun same => ?_
    rw [same] at ends
    cases ends
  have isFree := valueNames_free free
  have covers := token_text sized inText next
  rw [is.spelling] at covers
  have means : Means settings.source (.leaf (.rule .variableName) token.span)
      (.node (.identifier name)) := by
    have found := Means.variableName covers (namedValue?_free isFree).1
    rwa [String.ofList_toList] at found
  refine ⟨.leaf (.rule .variableName) token.span, ⟨means, fun _ => ?_⟩, ?_, ?_⟩
  · change (token.span.text? settings.source).any _ = true
    rw [covers, Option.any_some, isFree]
    rfl
  · exact fun state stands => ⟨state.look token, stands.look next,
      bare.arrow_none (stands.facing next) (isPunctuator_false notArrow) notName⟩
  · intro state stands
    have notAsync : state.inAsync = false := congrArg Scope.inAsync stands.scope
    exact ⟨(state.pass token).look closer, (stands.pass token).look behind,
      bare.unary_run (stands.facing next) (by simp only; omega) (by rw [notAsync]; rfl)⟩

section

variable {operator : String} {argument left right test consequent alternate : Node}

include unbounded

theorem reads_unary (known : operator ∈ unaryOperators) (reads : Reads settings argument) :
    ReadsBy settings unary (.unaryExpression operator true argument) := by
  intro steps point last closer enough inText words behind ends
  obtain ⟨fewer, rfl⟩ : ∃ fewer, steps = fewer + 1 := ⟨steps - 1, by omega⟩
  obtain ⟨leaves, -⟩ := endsOperand_other ends
  simp only [Node.words, List.length_cons, grouped_length] at words enough
  obtain ⟨sign, next, is, rest⟩ := words.cons_cases
  obtain ⟨⟨kind, isPrefix, notUpdate, isCopied⟩, plain⟩ :=
    prefixKind?_unary settings.dialect operator known
  rw [← is.kind] at isPrefix
  obtain ⟨notName, notOpening⟩ := prefixKind?_other isPrefix
  obtain ⟨tree, conveys, arrives⟩ := group_unary sized reads (by omega : _ ≤ fewer)
    (inText.after next) rest behind leaves
  have asked : Arrives settings ((within (fewer + 1)).read .unary) (.after sign) tree last :=
    arrives
  refine ⟨build .unaryExpression [.leaf kind sign.span, tree], ⟨?_, by rintro ⟨⟩⟩,
    .arrow_other next (beq_false_of_ne notName) (isPunctuator_false notOpening),
    .unary_operator unbounded next isPrefix (beq_false_of_ne notUpdate) asked⟩
  exact .build (.cons (means_operator sized inText next is isCopied) (.cons conveys.means .nil))
    (by simp) (unary_process plain argument)

theorem reads_update (known : operator ∈ updateOperators) (target : argument.IsTarget)
    (isExpression : IsExpression settings.dialect argument) (reads : Reads settings argument)
    (isPrefix : Bool) : ReadsBy settings unary (.updateExpression operator isPrefix argument) := by
  intro steps point last closer enough inText words behind ends
  obtain ⟨fewer, rfl⟩ : ∃ fewer, steps = fewer + 1 := ⟨steps - 1, by omega⟩
  obtain ⟨leaves, -⟩ := endsOperand_other ends
  obtain ⟨-, updates⟩ := updateOperators_sign operator known
  cases isPrefix with
  | true =>
      simp only [Node.words, List.length_cons, grouped_length] at words enough
      obtain ⟨sign, next, is, rest⟩ := words.cons_cases
      have isUpdate := isUpdate_of_is known is
      obtain ⟨notName, notOpening⟩ := prefixKind?_other isUpdate.labels
      obtain ⟨tree, conveys, arrives⟩ := group_unary sized reads (by omega : _ ≤ fewer)
        (inText.after next) rest behind leaves
      have asked : Arrives settings ((within (fewer + 1)).read .unary) (.after sign) tree last :=
        arrives
      refine ⟨build .unaryExpression [.leaf (.rule .updateOp) sign.span, tree], ⟨?_, by rintro ⟨⟩⟩,
        .arrow_other next (beq_false_of_ne notName) (isPunctuator_false notOpening),
        .unary_update unbounded next isUpdate.labels isUpdate.before asked
          (conveys.assignable target)⟩
      exact .build (.cons (means_operator sized inText next is rfl) (.cons conveys.means .nil))
        (by simp) (update_process updates argument).1
  | false =>
      simp only [Node.words, List.length_append, grouped_length, List.length_cons] at words enough
      obtain ⟨middle, group, rest⟩ := words.append_cases
      obtain ⟨sign, follows, is, rest⟩ := rest.cons_cases
      cases rest
      have isUpdate := isUpdate_of_is known is
      have alone : belongsToOperand sign.kind = false ∧ sign.kind ≠ .punctuator .arrow := by
        rcases Bool.or_eq_true_iff.mp isUpdate.sign with isSign | isSign <;>
          rw [kind_of_punctuator isSign] <;> exact ⟨rfl, by decide⟩
      obtain ⟨opening, -, -, next, opens, -⟩ := group.grouped_cases
      obtain ⟨tree, conveys, arrives⟩ := group_leftHandSide sized reads (by omega : _ ≤ fewer + 1)
        inText group follows alone.1
      refine ⟨build .postfixExpression [tree, .leaf (.rule .updateOp) sign.span],
        ⟨?_, by rintro ⟨⟩⟩,
        group_arrow (by simp) isExpression group follows alone.2,
        .unary_plain next (by rw [opens]; rfl) (.withPostfix_update arrives follows isUpdate.sign
          isUpdate.behind (conveys.assignable target))⟩
      have means : Means settings.source (.leaf (.rule .updateOp) sign.span) (.token operator) :=
        means_operator sized (group.inText inText) follows is rfl
      exact .build (.cons conveys.means (.cons means .nil)) (by simp)
        (update_process updates argument).2

/-- An operator between two groups. -/
theorem reads_between {expression : Node} (known : operator ∈ binaryOperators ++ logicalOperators)
    (first : Ready settings left) (second : Ready settings right)
    (written : expression.words =
      grouped left.words ++ operator.toList :: grouped right.words)
    (noTarget : ¬ expression.IsTarget)
    (process : Rule.binaryExpression.process [.node left, .token operator, .node right] =
      .ok (.node expression)) :
    ReadsBy settings (binary · BinaryOperator.lowest) expression := by
  intro steps point last closer enough inText words behind ends
  obtain ⟨fewer, rfl⟩ : ∃ fewer, steps = fewer + 1 := ⟨steps - 1, by omega⟩
  obtain ⟨leaves, notOperator, -⟩ := endsOperand_other ends
  rw [written] at words enough
  simp only [List.length_append, List.length_cons, grouped_length] at enough
  obtain ⟨middle, group, rest⟩ := words.append_cases
  obtain ⟨sign, follows, is, rest⟩ := rest.cons_cases
  have inMiddle := group.inText inText
  obtain ⟨found, isOperator, tight, isCopied⟩ :=
    (ofToken?_between settings.dialect).1 operator known
  rw [← is.kind] at isOperator
  obtain ⟨one, conveys, arrives⟩ := group_unary sized first.reads (by omega : _ ≤ fewer + 1) inText
    group follows (leavesName_of_operator isOperator)
  obtain ⟨other, conveysOther, later⟩ : ∃ other, Conveys settings.source other right ∧
      Arrives settings (binary (within fewer) found.operandLevel) (.after sign) other last :=
    group_binary sized second.reads (by omega) (inMiddle.after follows) rest behind leaves
      notOperator
  have asked : Arrives settings ((within (fewer + 1)).read (.binary found.operandLevel))
      (.after sign) other last := later
  have notArrow : sign.kind ≠ .punctuator .arrow := by
    intro same
    rw [same] at isOperator
    cases isOperator
  refine ⟨build .binaryExpression [one, .leaf found.kind sign.span, other],
    ⟨?_, fun isTarget => (noTarget isTarget).elim⟩,
    group_arrow (by simp) first.isExpression group follows notArrow,
    .binary_once unbounded (by simp only; omega) arrives follows isOperator tight asked behind
      notOperator⟩
  exact .build (.cons conveys.means (.cons (means_operator sized inMiddle follows is isCopied)
    (.cons conveysOther.means .nil))) (by simp) process

theorem reads_conditional (first : Ready settings test) (second : Ready settings consequent)
    (third : Ready settings alternate) :
    ReadsBy settings conditional (.conditionalExpression test consequent alternate) := by
  intro steps point last closer enough inText words behind ends
  obtain ⟨fewer, rfl⟩ : ∃ fewer, steps = fewer + 1 := ⟨steps - 1, by omega⟩
  simp only [Node.words, List.length_append, List.length_cons, grouped_length] at words enough
  obtain ⟨middle, group, rest⟩ := words.append_cases
  obtain ⟨question, asks, isQuestion, rest⟩ := rest.sign_cases .question
  obtain ⟨between, choice, rest⟩ := rest.append_cases
  obtain ⟨colon, divides, isColon, rest⟩ := rest.sign_cases .colon
  have inMiddle := group.inText inText
  have inBetween := choice.inText (inMiddle.after asks)
  obtain ⟨tree, conveys, arrives⟩ : ∃ tree, Conveys settings.source tree test ∧
      Arrives settings (binary (within (fewer + 1)) BinaryOperator.lowest) point tree middle :=
    group_binary sized first.reads (by omega) inText group asks (by rw [isQuestion]; rfl)
      (by rw [isQuestion]; rfl)
  obtain ⟨one, conveysOne, reads⟩ := group_assignment unbounded sized second.isExpression
    second.reads (by omega : _ ≤ fewer) (inMiddle.after asks) choice divides
    (by rw [isColon]; rfl)
  obtain ⟨other, conveysOther, readsOther⟩ := group_assignment unbounded sized third.isExpression
    third.reads (by omega : _ ≤ fewer) (inBetween.after divides) rest behind ends
  have asked : Arrives settings ((within (fewer + 1)).read .assignment) (.after question) one
      between := reads
  have askedOther : Arrives settings ((within (fewer + 1)).read .assignment) (.after colon) other
      last := readsOther
  refine ⟨_, ⟨?_, by rintro ⟨⟩⟩,
    group_arrow (by simp) first.isExpression group asks (by simp [isQuestion]),
    .conditional_choice arrives asks (isPunctuator_true isQuestion) asked divides
      (isPunctuator_true isColon) askedOther⟩
  exact .build (.cons conveys.means (.cons (means_sign sized inMiddle asks isQuestion)
    (.cons conveysOne.means (.cons (means_sign sized inBetween divides isColon)
      (.cons conveysOther.means .nil))))) (by simp) rfl

theorem reads_assignment (known : operator ∈ assignmentOperators) (target : left.IsTarget)
    (first : Ready settings left) (second : Ready settings right) :
    ReadsBy settings assignment (.assignmentExpression operator left right) := by
  intro steps point last closer enough inText words behind ends
  obtain ⟨fewer, rfl⟩ : ∃ fewer, steps = fewer + 1 := ⟨steps - 1, by omega⟩
  simp only [Node.words, List.length_append, List.length_cons, grouped_length] at words enough
  obtain ⟨middle, group, rest⟩ := words.append_cases
  obtain ⟨sign, follows, is, rest⟩ := rest.cons_cases
  have inMiddle := group.inText inText
  obtain ⟨rule, assigns, isCopied⟩ := assignmentKind?_known settings.dialect operator known
  rw [← is.kind] at assigns
  obtain ⟨leaves, notOperator, notQuestion, notArrow⟩ := assignmentKind?_other assigns
  obtain ⟨tree, conveys, arrives⟩ := group_conditional sized first.reads
    (by omega : _ ≤ fewer + 1) inText group follows leaves notOperator notQuestion
  obtain ⟨value, conveysValue, reads⟩ := group_assignment unbounded sized second.isExpression
    second.reads (by omega : _ ≤ fewer) (inMiddle.after follows) rest behind ends
  have asked : Arrives settings ((within (fewer + 1)).read .assignment) (.after sign) value last :=
    reads
  have noArrow : Arrives settings (arrow? (within (fewer + 1))) point none point :=
    group_arrow (by simp) first.isExpression group follows notArrow
  refine ⟨_, ⟨?_, by rintro ⟨⟩⟩, noArrow,
    .assignment_assigns unbounded noArrow arrives follows assigns
    (conveys.assignable target) asked⟩
  exact .build (.cons conveys.means (.cons (means_operator sized inMiddle follows is isCopied)
    (.cons conveysValue.means .nil))) (by simp) rfl

end

/-! ## Accesses, calls and lists -/

section

variable {object key callee : Node} {name : String} {arguments : List Node}

/-- What follows a group is read as one access or call of it. -/
def Extends (settings : Settings) (object expression : Node) (rest : List Text) : Prop :=
  ∀ ⦃steps : Nat⦄ ⦃point last : Point⦄ ⦃base : SyntaxTree⦄, 2 * rest.length ≤ steps →
    point.InText settings → Words settings point rest last →
    Conveys settings.source base object →
    ∃ token tree, point.next settings.dialect = .ok token ∧
      token.kind ≠ .punctuator .arrow ∧ Conveys settings.source tree expression ∧
      Arrives settings (memberStep (within steps) true base) point (.again tree) last

/-- An access or call is an operand. -/
theorem Extends.reads {expression : Node} {rest : List Text}
    (follows : Extends settings object expression rest) (ready : Ready settings object)
    (written : expression.words = grouped object.words ++ rest) :
    ReadsBy settings unary expression := by
  intro steps point last closer enough inText words behind ends
  obtain ⟨leaves, -⟩ := endsOperand_other ends
  rw [written] at words enough
  simp only [List.length_append, grouped_length] at enough
  obtain ⟨middle, group, more⟩ := words.append_cases
  obtain ⟨opening, -, -, next, opens, -⟩ := group.grouped_cases
  obtain ⟨base, conveysBase, arrives⟩ := group_primary sized ready.reads
    (by omega : _ ≤ steps) inText group
  obtain ⟨token, tree, nextToken, notArrow, conveys, step⟩ :=
    follows (by omega : _ ≤ steps) (group.inText inText) more conveysBase
  have chain : Arrives settings (memberChain (within steps) true base) middle tree last :=
    .memberChain_once (by simp only; omega) step behind (belongsToOperand_of_leaves leaves)
  have operand := Arrives.leftHandSide next (isKeyword_of_punctuator opens _) arrives chain
  have noArrow : Arrives settings (arrow? (within steps)) point none point :=
    group_arrow (by simp only; omega) ready.isExpression group nextToken notArrow
  exact ⟨tree, conveys, noArrow,
    .unary_plain next (by rw [opens]; rfl) (.withPostfix_plain operand behind leaves)⟩

theorem extends_member (word : Text.isWord name.toList = true) :
    Extends settings object (.memberExpression object (.identifier name) false false)
      [['.'], name.toList] := by
  intro steps point last base enough inText words conveys
  obtain ⟨dot, next, isDot, rest⟩ := words.sign_cases .dot
  obtain ⟨token, follows, is, rest⟩ := rest.cons_cases
  cases rest
  have kind : token.kind = .identifier ∨ ∃ keyword, token.kind = .keyword keyword := by
    rw [is.kind, Token.kindOf, if_pos word]
    unfold Token.wordKind
    split
    · exact .inr ⟨_, rfl⟩
    · split
      · exact .inr ⟨_, rfl⟩
      · exact .inl rfl
  have read : Arrives settings memberName (.after dot) (.leaf (.rule .propertyName) token.span)
      (.after token) := by
    refine .bind (.peek follows) ?_
    rcases kind with kind | ⟨keyword, kind⟩ <;> rw [kind] <;> exact .leaf follows _
  have covers := token_text sized (inText.after next) follows
  rw [is.spelling] at covers
  have means : Means settings.source (.leaf (.rule .propertyName) token.span)
      (.node (.identifier name)) := by
    have found := Means.propertyName covers
    rwa [String.ofList_toList] at found
  refine ⟨dot, build .memberExpression [base, .leaf (.fixed (.punctuator .dot)) dot.span,
    .leaf (.rule .propertyName) token.span], next, by simp [isDot], ⟨?_, fun _ => rfl⟩, ?_⟩
  · exact .build (.cons conveys.means (.cons (means_sign sized inText next isDot)
      (.cons means .nil))) (by simp) rfl
  · refine .bind (.peek next) ?_
    rw [isDot]
    exact .bind (.leaf next _) (.bind read (.pure _))

include unbounded

theorem extends_computed (ready : Ready settings key) :
    Extends settings object (.memberExpression object key true false)
      (['['] :: (grouped key.words ++ [[']']])) := by
  intro steps point last base enough inText words conveys
  obtain ⟨fewer, rfl⟩ : ∃ fewer, steps = fewer + 2 :=
    ⟨steps - 2, by simp only [List.length_cons, List.length_append] at enough; omega⟩
  simp only [List.length_append, List.length_cons, grouped_length] at enough
  obtain ⟨opening, next, opens, rest⟩ := words.sign_cases .leftBracket
  obtain ⟨inner, group, rest⟩ := rest.append_cases
  obtain ⟨closing, behind, closes, rfl⟩ := rest.last_sign .rightBracket
  have inInner := group.inText (inText.after next)
  obtain ⟨tree, conveysKey, arrives⟩ := group_assignment unbounded sized ready.isExpression
    ready.reads (by omega : _ ≤ fewer) (inText.after next) group behind (by rw [closes]; rfl)
  have asked : Arrives settings ((within (fewer + 1)).read .assignment) (.after opening) tree
      inner := arrives
  have whole : Arrives settings ((within (fewer + 2)).read .expression) (.after opening) tree
      inner := .expression_plain asked behind (isPunctuator_of_kind closes (by decide))
  refine ⟨opening, build .memberExpression [base, .leaf (.fixed (.punctuator .leftBracket))
    opening.span, tree, .leaf (.fixed (.punctuator .rightBracket)) closing.span], next,
    by simp [opens], ⟨?_, fun _ => rfl⟩, ?_⟩
  · exact .build (.cons conveys.means (.cons (means_sign sized inText next opens)
      (.cons conveysKey.means (.cons (means_sign sized inInner behind closes) .nil)))) (by simp) rfl
  · refine .bind (.peek next) ?_
    rw [opens]
    exact .bind (.leaf next _) (.bind (.withIn whole)
      (.bind (.expect behind (isPunctuator_true closes)) (.pure _)))

theorem extends_call (ready : ∀ argument ∈ arguments, Ready settings argument) :
    Extends settings callee (.callExpression callee arguments false)
      (['('] :: (separated (Node.phrases arguments) ++ [[')']])) := by
  intro steps point last base enough inText words conveys
  obtain ⟨fewer, rfl⟩ : ∃ fewer, steps = fewer + 1 :=
    ⟨steps - 1, by simp only [List.length_cons, List.length_append] at enough; omega⟩
  simp only [List.length_append, List.length_cons] at enough
  obtain ⟨opening, next, opens, rest⟩ := words.sign_cases .leftParen
  obtain ⟨inner, items, rest⟩ := rest.append_cases
  obtain ⟨closing, behind, closes, rfl⟩ := rest.last_sign .rightParen
  have inInner := items.inText (inText.after next)
  have several := length_le_separated arguments
  let front : SyntaxTree := .leaf (.fixed (.punctuator .leftParen)) opening.span
  let back : SyntaxTree := .leaf (.fixed (.punctuator .rightParen)) closing.span
  obtain ⟨all, more, collects, arrives⟩ := arguments_items unbounded sized #[front] ready
    (by omega : _ ≤ fewer) (by omega : _ < fewer + 1) (inText.after next) items behind closes
  have reads : Arrives settings (Grammar.arguments (within (fewer + 1))) point
      (build .argList (all.push back).toList) (.after closing) := by
    rw [arguments_rounds]
    exact .withIn (.bind (.expect next (isPunctuator_true opens)) (.bind arrives
      (.bind (.expect behind (isPunctuator_true closes)) (.pure _))))
  have list : Means settings.source (build .argList (all.push back).toList) (.list arguments) := by
    have process := argList_process ((arguments.map some).intersperse none)
    rw [reduceOption_intersperse] at process
    exact .build (collects.enclosed (means_sign sized inText next opens)
      (means_sign sized inInner behind closes)) (by simp) process
  refine ⟨opening, build .callExpression [base, build .argList (all.push back).toList], next,
    by simp [opens], ⟨?_, by rintro ⟨⟩⟩, ?_⟩
  · exact .build (.cons conveys.means (.cons list .nil)) (by simp) rfl
  · refine .bind (.peek next) ?_
    rw [opens]
    exact .bind reads (.pure _)

theorem reads_array {elements : List (Option Node)}
    (ready : ∀ element, some element ∈ elements → Ready settings element) :
    ReadsBy settings unary (.arrayExpression elements) := by
  intro steps point last closer enough inText words behind ends
  obtain ⟨leaves, -⟩ := endsOperand_other ends
  obtain ⟨fewer, rfl⟩ : ∃ fewer, steps = fewer + 1 := ⟨steps - 1, by omega⟩
  simp only [Node.words, List.length_append, List.length_cons] at words enough
  obtain ⟨opening, next, opens, rest⟩ := words.sign_cases .leftBracket
  obtain ⟨inner, items, rest⟩ := rest.append_cases
  obtain ⟨closing, follows, closes, rfl⟩ := rest.last_sign .rightBracket
  have inInner := items.inText (inText.after next)
  have several := length_le_slotted elements
  let front : SyntaxTree := .leaf (.fixed (.punctuator .leftBracket)) opening.span
  let back : SyntaxTree := .leaf (.fixed (.punctuator .rightBracket)) closing.span
  obtain ⟨all, more, collects, arrives⟩ := elements_items unbounded sized #[front] ready
    (by omega : _ ≤ fewer) (by omega : _ < fewer + 1) (inText.after next) items follows closes
  have reads : Arrives settings (primary (within (fewer + 1))) point
      (build .arrayExpression (all.push back).toList) (.after closing) := by
    refine .bind (.peek next) ?_
    rw [opens]
    simp only
    rw [array_rounds]
    exact .withIn (.bind (.expect next (isPunctuator_true opens)) (.bind arrives
      (.bind (.expect follows (isPunctuator_true closes)) (.pure _))))
  have chain : Arrives settings (memberChain (within (fewer + 1)) true _) (.after closing) _
      (.after closing) :=
    .memberChain_done (by simp) behind (belongsToOperand_of_leaves leaves)
      (build .arrayExpression (all.push back).toList)
  have operand := Arrives.leftHandSide next (isKeyword_of_punctuator opens _) reads chain
  refine ⟨_, ⟨?_, by rintro ⟨⟩⟩,
    .arrow_other next (isIdentifier_of_punctuator opens) (isPunctuator_of_kind opens (by decide)),
    .unary_plain next (by rw [opens]; rfl) (.withPostfix_plain operand behind leaves)⟩
  exact .build (collects.enclosed (means_sign sized inText next opens)
    (means_sign sized inInner follows closes)) (by simp) (array_process elements)

theorem reads_sequence {expressions : List Node} (several : 2 ≤ expressions.length)
    (ready : ∀ expression ∈ expressions, Ready settings expression) :
    Reads settings (.sequenceExpression expressions) := by
  intro steps point last closer enough inText words behind closes
  obtain ⟨fewer, rfl⟩ : ∃ fewer, steps = fewer + 1 := ⟨steps - 1, by omega⟩
  obtain _ | ⟨first, _ | ⟨second, others⟩⟩ := expressions
  · simp at several
  · simp at several
  rw [Node.words, Node.phrases, separated_cons] at words enough
  have few := length_le_flatMap (second :: others)
  simp only [List.length_append, grouped_length] at enough
  obtain ⟨middle, group, rest⟩ := words.append_cases
  have isComma : ∃ comma, middle.next settings.dialect = .ok comma ∧
      comma.kind = .punctuator .comma := by
    rw [Node.phrases, List.flatMap_cons, List.cons_append] at rest
    obtain ⟨comma, follows, kind, -⟩ := rest.sign_cases .comma
    exact ⟨comma, follows, kind⟩
  obtain ⟨comma, follows, kind⟩ := isComma
  obtain ⟨ends, notComma⟩ := closer_ends closes
  obtain ⟨-, tree, -, -, conveys, reads, -⟩ := group_item unbounded sized
    (ready first List.mem_cons_self) (by omega : _ ≤ fewer) inText group follows
    (by rw [kind]; rfl)
  obtain ⟨all, more, collects, arrives⟩ := sequence_items unbounded sized #[tree]
    (fun other isIn => ready other (List.mem_cons_of_mem _ isIn)) (by omega : _ ≤ fewer)
    (by omega : _ < fewer + 1) (group.inText inText) rest behind ends notComma
  have loop : Arrives settings (iterate (sequenceRound (within (fewer + 1)))
      (within (fewer + 1)).rounds #[tree]) middle all last := arrives
  refine ⟨build .sequenceExpression all.toList, ⟨?_, by rintro ⟨⟩⟩, ?_⟩
  · rw [collects.order]
    exact .build (.cons conveys.means collects.means) (by simp) (sequence_process first _)
  · rw [expression_first]
    refine .bind reads (.bind (.nextIs follows _) ?_)
    rw [isPunctuator_true kind]
    exact .bind loop (.pure _)

end

end

end Grammar

end ScriptTree
