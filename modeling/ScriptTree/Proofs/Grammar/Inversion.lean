import ScriptTree.Proofs.Grammar.Derivation

/-!
# Tracing nodes back to phrases

Where a fact about a node depends on the tokens around its parts, the node is
traced back to the phrase that built it.  The productions are walked through
once for all rules in question.
-/

namespace ScriptTree

namespace Rule

/-- Rules whose nodes are traced back to a phrase. -/
@[simp]
def isTraced : Rule → Bool
  | .sequenceExpression | .binaryExpression | .postfixExpression | .functionDeclaration
  | .functionExpression | .methodDeclaration | .property | .arrowFunction | .expressionStatement
  | .variableDeclaration | .returnStatement | .breakStatement | .continueStatement
  | .throwStatement | .debuggerStatement | .ifStatement => true
  | _ => false

end Rule

namespace Grammar

namespace Phrase

/-- Assignments separated by commas, at least one comma among them. -/
def sequence : Phrase :=
  .all [.ask .assignment, .ahead (·.isPunctuator .comma), .loop sequenceRound,
    .reduce .sequenceExpression]

/-- An operand followed by `++` or `--`. -/
def updated : Phrase :=
  .all [leftHandSide, .given fun settings _ point _ => ∃ token,
      point.next settings.dialect = .ok token ∧ isPostfixAt settings token = true,
    .ensure assignsLast, .named .updateOp, .reduce .postfixExpression]

/-- Operands joined by operators of at least the given level, where more may
follow. -/
def operands (level : Nat) : Phrase :=
  .all [unary, .many (binaryRound level true)]

/-- Operands joined by operators of at least the given level, at least one
operator among them. -/
def operated (level : Nat) : Phrase :=
  .seq (operands level) (binaryRound level true)

def debuggerStatement : Phrase :=
  .all [.word .debuggerWord, terminator, .reduce .debuggerStatement]

end Phrase

inductive ReadBy : Rule → Phrase → Prop where
  | sequence : ReadBy .sequenceExpression .sequence
  | operated (level : Nat) : ReadBy .binaryExpression (.operated level)
  | updated : ReadBy .postfixExpression .updated
  | function {rule : Rule} (isFunction : rule = .functionDeclaration ∨ rule = .functionExpression) :
      ReadBy rule (.function rule false)
  | asyncFunction {rule : Rule}
      (isFunction : rule = .functionDeclaration ∨ rule = .functionExpression) :
      ReadBy rule (.asyncFunction rule)
  | method : ReadBy .methodDeclaration .method
  | property : ReadBy .property .property
  | arrow : ReadBy .arrowFunction .arrow
  | expressionStatement : ReadBy .expressionStatement .expressionStatement
  | declaration (word : Keyword) : ReadBy .variableDeclaration (.declaration word)
  | countingDeclaration (word : Keyword) : ReadBy .variableDeclaration (.countingDeclaration word)
  | returnStatement : ReadBy .returnStatement .returnStatement
  | breakStatement : ReadBy .breakStatement (.jumpStatement .breakStatement .breakWord)
  | continueStatement : ReadBy .continueStatement (.jumpStatement .continueStatement .continueWord)
  | throwStatement : ReadBy .throwStatement .throwStatement
  | debuggerStatement : ReadBy .debuggerStatement .debuggerStatement
  | ifStatement : ReadBy .ifStatement .ifStatement

variable (settings : Settings)

/-- A phrase reads a tree from some point of the text on. -/
def Phrase.Makes (phrase : Phrase) (tree : SyntaxTree) : Prop :=
  ∃ scope point last, point.InText settings ∧
    phrase.Reads settings (Derives settings) scope point [] last [tree]

/-- A node is made by a phrase that its rule is traced back to. -/
def Traced (tree : SyntaxTree) : Prop :=
  ∀ rule, tree.label = .rule rule → rule.isTraced = true → tree.children ≠ [] →
    ∃ phrase, ReadBy rule phrase ∧ phrase.Makes settings tree

/-- A declaration is a statement of its own. -/
def OwnStatement (tree : SyntaxTree) : Prop :=
  tree.label = .rule .variableDeclaration → tree.children ≠ [] →
    ∃ word ∈ [Keyword.varWord, .letWord, .constWord], (Phrase.declaration word).Makes settings tree

/-- The word in front of an asynchronous function is a token that is followed
in the same line. -/
def Followed (tree : SyntaxTree) : Prop :=
  tree.label.isAsync = true → ∃ (point : Point) (token next : Token), point.InText settings ∧
    point.next settings.dialect = .ok token ∧ tree.span = token.span ∧
    (Point.after token).next settings.dialect = .ok next ∧ continuesAt settings next = true

/-- A node is traced, and only the head of a loop has a declaration among its
children that is no statement. -/
structure Placed (tree : SyntaxTree) : Prop where
  followed : Followed settings tree
  traced : Traced settings tree
  declared : tree.label ≠ .rule .forSpec → ∀ child ∈ tree.children, OwnStatement settings child

/-- What is known of a tree that is asked for. -/
def Known (tree : SyntaxTree) : Prop :=
  tree.Every (Placed settings) ∧ OwnStatement settings tree

/-- The derived trees that are known. -/
def knownCategory : Category :=
  fun goal scope point tree last =>
    Derives settings goal scope point tree last ∧
      (point.InText settings → Sound settings (Known settings) last [tree])

variable {settings}

theorem leaf_known {kind : Kind} {span : Span} (followed : Followed settings (.leaf kind span)) :
    Known settings (.leaf kind span) := by
  refine ⟨.leaf ⟨followed, ?_, ?_⟩, ?_⟩
  · intro _ _ _ nonempty
    exact absurd rfl nonempty
  · intro _ child member
    cases member
  · intro _ nonempty
    exact absurd rfl nonempty

theorem followed_of_plain {tree : SyntaxTree} (plain : tree.label.isAsync = false) :
    Followed settings tree := by
  intro isAsync
  rw [plain] at isAsync
  cases isAsync

theorem declared_of_label {tree : SyntaxTree} (other : tree.label ≠ .rule .variableDeclaration) :
    OwnStatement settings tree :=
  fun same => absurd same other

/-- A node of a rule that is not traced. -/
theorem build_placed {rule : Rule} {trees : List SyntaxTree} (plain : rule.isTraced = false)
    (known : ∀ tree ∈ trees, Known settings tree) :
    (build rule trees).Every (Placed settings) := by
  refine .branch ⟨followed_of_plain rfl, ?_, fun _ child member => (known child member).2⟩
    fun child member => (known child member).1
  intro found same traced
  cases same
  rw [plain] at traced
  cases traced

theorem build_known {rule : Rule} (plain : rule.isTraced = false) (trees : List SyntaxTree)
    (known : ∀ tree ∈ trees, Known settings tree) : Known settings (build rule trees) := by
  refine ⟨build_placed plain known, declared_of_label fun same => ?_⟩
  cases same
  cases plain

/-- The head of a loop may hold any declaration. -/
theorem forSpec_known (trees : List SyntaxTree)
    (placed : ∀ tree ∈ trees, tree.Every (Placed settings)) :
    Known settings (build .forSpec trees) := by
  refine ⟨.branch ⟨followed_of_plain rfl, fun found same traced => ?_,
    fun other => absurd rfl other⟩ placed, declared_of_label nofun⟩
  cases same
  cases traced

theorem known_spreads : Spreads settings (knownCategory settings) (Known settings) where
  leaf _ _ plain := leaf_known (followed_of_plain plain)
  template := build_known rfl
  asked member := member.2

namespace Phrase

/-- What a phrase does to known trees. -/
abbrev KeepsKnown (settings : Settings) (phrase : Phrase) : Prop :=
  phrase.Keeps settings (knownCategory settings) (Known settings)

abbrev YieldsKnown (settings : Settings) (phrase : Phrase) : Prop :=
  phrase.Yields settings (knownCategory settings) (Known settings)

/-- A phrase that is read behind known trees puts them into one node of the
given rule, or collects known trees. -/
def Completes (settings : Settings) (rule : Rule) (phrase : Phrase) : Prop :=
  ∀ ⦃scope point before last trees⦄,
    phrase.Reads settings (knownCategory settings) scope point before last trees →
    Sound settings (Known settings) point before →
    (∃ children, trees = [build rule children] ∧ Sound settings (Known settings) last children) ∨
      Sound settings (Known settings) last trees

variable {rule : Rule} {first second phrase : Phrase}

namespace Completes

theorem of_keeps (keeps : phrase.KeepsKnown settings) : phrase.Completes settings rule :=
  fun _ _ _ _ _ reads known => .inr (keeps reads known)

theorem reduce : (Phrase.reduce rule).Completes settings rule := by
  rintro scope point before last trees ⟨rfl, rfl⟩ known
  exact .inl ⟨before, rfl, known⟩

theorem after (firstKeeps : first.KeepsKnown settings)
    (secondCompletes : second.Completes settings rule) :
    (Phrase.seq first second).Completes settings rule := by
  rintro scope point before last trees ⟨middle, between, firstReads, secondReads⟩ known
  exact secondCompletes secondReads (firstKeeps firstReads known)

theorem either (firstCompletes : first.Completes settings rule)
    (secondCompletes : second.Completes settings rule) :
    (first <|> second).Completes settings rule := by
  rintro scope point before last trees (firstReads | secondReads) known
  · exact firstCompletes firstReads known
  · exact secondCompletes secondReads known

end Completes

theorem reads_derives {scope : Scope} {point last : Point} {before trees : List SyntaxTree}
    (reads : phrase.Reads settings (knownCategory settings) scope point before last trees) :
    phrase.Reads settings (Derives settings) scope point before last trees :=
  reads.mono And.left

end Phrase

/-- A node that a phrase makes of known trees. -/
theorem read_known {rule : Rule} {phrase : Phrase} {children : List SyntaxTree}
    (readBy : ReadBy rule phrase) (makes : phrase.Makes settings (build rule children))
    (declared : OwnStatement settings (build rule children))
    (known : ∀ child ∈ children, Known settings child) : Known settings (build rule children) := by
  refine ⟨.branch ⟨followed_of_plain rfl, fun found same _ _ => ?_,
    fun _ child member => (known child member).2⟩ fun child member => (known child member).1,
    declared⟩
  cases same
  exact ⟨phrase, readBy, makes⟩

namespace Phrase

variable {phrase : Phrase}

/-- A phrase that builds no node in question. -/
theorem plain (builds : phrase.Builds fun rule => rule.isTraced = false) :
    phrase.KeepsKnown settings :=
  .of_builds known_spreads (builds.mono fun _ => build_known)

/-- The phrase of a rule is read alone to its end. -/
theorem completed {rule : Rule} (readBy : ReadBy rule phrase)
    (isDeclared : rule = .variableDeclaration →
      ∃ word ∈ [Keyword.varWord, .letWord, .constWord], phrase = .declaration word)
    {scope : Scope} {point last : Point} {trees : List SyntaxTree}
    (reads : phrase.Reads settings (knownCategory settings) scope point [] last trees)
    (inText : point.InText settings)
    (completes : (∃ children, trees = [build rule children] ∧
        Sound settings (Known settings) last children) ∨
      Sound settings (Known settings) last trees) :
    Sound settings (Known settings) last trees := by
  obtain ⟨children, rfl, known⟩ | known := completes
  · have makes : phrase.Makes settings (build rule children) :=
      ⟨scope, point, last, inText, reads_derives reads⟩
    refine ⟨known.inText, ?_⟩
    rw [List.forall_mem_singleton]
    refine read_known readBy makes (fun same _ => ?_) known.all
    obtain ⟨word, declares, rfl⟩ := isDeclared (Kind.rule.inj same)
    exact ⟨word, declares, makes⟩
  · exact known

theorem Completes.yields {rule : Rule} (completes : phrase.Completes settings rule)
    (readBy : ReadBy rule phrase)
    (isDeclared : rule = .variableDeclaration →
      ∃ word ∈ [Keyword.varWord, .letWord, .constWord], phrase = .declaration word) :
    phrase.YieldsKnown settings :=
  fun _ _ _ _ reads inText =>
    completed readBy isDeclared reads inText (completes reads (.nothing inText))

/-- A phrase that builds no node in question but for one of the given rule at
its end. -/
def Ends (rule : Rule) : Phrase → Prop
  | .reduce found => found = rule
  | .seq first second => (first.Builds fun rule => rule.isTraced = false) ∧ second.Ends rule
  | .either first second => first.Ends rule ∧ second.Ends rule
  | phrase => phrase.Builds fun rule => rule.isTraced = false

attribute [simp] Ends

@[simp]
theorem ends_orElse {rule : Rule} (first second : Phrase) :
    (first <|> second).Ends rule ↔ first.Ends rule ∧ second.Ends rule :=
  Iff.rfl

theorem Ends.completes {rule : Rule} (ends : phrase.Ends rule) :
    phrase.Completes settings rule := by
  induction phrase with
  | reduce found =>
      obtain rfl : found = rule := ends
      exact .reduce
  | seq first second _ ih => exact .after (plain ends.1) (ih ends.2)
  | either first second firstIh secondIh => exact .either (firstIh ends.1) (secondIh ends.2)
  | _ => exact .of_keeps (plain ends)

/-! ## Functions and operands -/

section Plain

variable {test : Rule → Prop}

@[simp]
theorem parameters_builds : parameters.Builds test ↔ test .paramList := by
  simp [parameters, parameter, commaOrEnd]

@[simp]
theorem block_builds : block.Builds test ↔ test .block := by
  simp [block, statementRound]

@[simp]
theorem functionBody_builds (isAsync : Bool) :
    (functionBody isAsync).Builds test ↔ test .block := by
  simp [functionBody]

@[simp]
theorem propertyKey_builds : propertyKey.Builds test := by
  simp [propertyKey]

@[simp]
theorem methodRest_builds (isAsync : Bool) :
    (methodRest isAsync).Builds test ↔ test .paramList ∧ test .block := by
  simp [methodRest]

@[simp]
theorem element_builds : element.Builds test ↔ test .spread := by
  simp [element, spread]

@[simp]
theorem arguments_builds : arguments.Builds test ↔ test .spread ∧ test .argList := by
  simp [arguments, argument, commaOrEnd]

@[simp]
theorem parenthesized_builds :
    parenthesized.Builds test ↔ test .parenthesizedExpression := by
  simp [parenthesized]

end Plain

/-- The modifier of an asynchronous function is followed in the same line. -/
theorem modifier_keeps : (modifier .asyncWord true).KeepsKnown settings := by
  rintro scope point before last trees
    ⟨_, _, ⟨token, scanned, -, rfl, rfl⟩, sameLine, rfl, rfl⟩ earlier
  obtain ⟨next, scannedNext, continues⟩ := sameLine rfl
  have followed : Followed settings (.leaf (.fixed (.contextual .asyncWord)) token.span) :=
    fun _ => ⟨point, token, next, earlier.inText, scanned, rfl, scannedNext, continues⟩
  exact earlier.append ⟨earlier.inText.after scanned, by simpa using leaf_known followed⟩

theorem leading_completes {rule : Rule} {asynchronous accessor plain : Phrase}
    (asyncCompletes : asynchronous.Completes settings rule)
    (accessorCompletes : accessor.Completes settings rule)
    (plainCompletes : plain.Completes settings rule) :
    (leading asynchronous accessor plain).Completes settings rule :=
  .either (.after modifier_keeps asyncCompletes)
    (.either (.after (.of_builds known_spreads (by simp [modifier, all])) accessorCompletes)
      (.either (.after (.of_builds known_spreads (by simp [modifier, all])) accessorCompletes)
        plainCompletes))

theorem function_completes (rule : Rule) (isAsync : Bool) :
    (function rule isAsync).Completes settings rule :=
  Ends.completes (by simp [function, function.rest, functionName, all])

theorem function_yields {rule : Rule}
    (isFunction : rule = .functionDeclaration ∨ rule = .functionExpression) :
    (function rule false).YieldsKnown settings :=
  (function_completes rule false).yields (.function isFunction) (by rintro rfl; simp at isFunction)

theorem asyncFunction_yields {rule : Rule}
    (isFunction : rule = .functionDeclaration ∨ rule = .functionExpression) :
    (asyncFunction rule).YieldsKnown settings :=
  (Completes.after modifier_keeps (function_completes rule true)).yields
    (.asyncFunction isFunction) (by rintro rfl; simp at isFunction)

theorem method_yields : method.YieldsKnown settings := by
  have fromWord : methodFromWord.Completes settings .methodDeclaration :=
    leading_completes (Ends.completes (by simp [starred, methodFromKey, all]))
      (Ends.completes (by simp [methodFromKey, all]))
      (Ends.completes (by simp [starred, methodFromKey, all]))
  have whole : method.Completes settings .methodDeclaration :=
    .either (.after (plain (by simp [modifier, all])) fromWord) fromWord
  exact whole.yields .method (by simp)

theorem property_yields : property.YieldsKnown settings := by
  have whole : property.Completes settings .property :=
    leading_completes (Ends.completes (by simp [starred, propertyMethod, all]))
      (Ends.completes (by simp [propertyMethod, all]))
      (Ends.completes (by simp [starred, propertyMethod, plainProperty, all]))
  exact whole.yields .property (by simp)

theorem classDefinition_keeps {rule : Rule} (isPlain : rule.isTraced = false) :
    (classDefinition rule).KeepsKnown settings := by
  have round (again : Bool) : (classRound again).KeepsKnown settings :=
    (plain (by simp)).either ((plain (by simp)).either ((Keeps.sub method_yields).seq
      (plain (by simp))))
  have body : classBody.KeepsKnown settings :=
    .within ((plain (by simp)).seq (((round true).many.seq (round false)).seq
      (plain (by simp [all]))))
  refine (plain ?_).seq ((plain ?_).seq ((plain ?_).seq ((Keeps.sub ?_).seq (plain ?_))))
  · simp
  · simp [className]
  · simp [heritage]
  · exact .of_keeps body
  · simpa using isPlain

theorem object_keeps : object.KeepsKnown settings := by
  have entry : entry.YieldsKnown settings :=
    (Yields.of_keeps (plain (by simp [spread]))).either property_yields
  have round (again : Bool) : (objectRound again).KeepsKnown settings :=
    (plain (by simp)).either ((Keeps.sub entry).seq (plain (by simp [commaOrEnd])))
  exact .within ((plain (by simp)).seq (((round true).many.seq (round false)).seq
    (plain (by simp [all]))))

theorem primary_yields : primary.YieldsKnown settings := by
  refine .byKind fun kind => ?_
  split
  · exact (asyncFunction_yields (.inr rfl)).either (.of_keeps (plain (by simp)))
  · exact .of_keeps (plain (by simp))
  · exact .of_keeps (plain (by simp))
  · exact .of_keeps (plain (by simp))
  · exact function_yields (.inr rfl)
  · exact .of_keeps (classDefinition_keeps rfl)
  · exact .of_keeps (plain (by simp))
  · exact .of_keeps (plain (by simp [array, arrayRound]))
  · exact .of_keeps object_keeps
  · exact .of_keeps (.template known_spreads)
  · exact .of_keeps (plain (by simp))

theorem memberRound_keeps (allowCall again : Bool) :
    (memberRound allowCall again).KeepsKnown settings :=
  plain (by simp [memberRound])

theorem memberRounds_keep (allowCall : Bool) :
    (loop (memberRound allowCall)).KeepsKnown settings :=
  (memberRound_keeps allowCall true).many.seq (memberRound_keeps allowCall false)

theorem construction_keeps : construction.KeepsKnown settings := by
  have base : (all [all [ahead (·.isKeyword .newWord), ask .construction] <|> primary,
      loop (memberRound false)]).YieldsKnown settings :=
    ((Yields.of_keeps (plain (by simp))).either primary_yields).seq (memberRounds_keep false)
  exact (plain (by simp)).seq ((Keeps.sub base).seq (plain (by simp)))

theorem leftHandSide_yields : leftHandSide.YieldsKnown settings :=
  ((Yields.of_keeps construction_keeps).either primary_yields).seq (memberRounds_keep true)

/-! ## Operators -/

theorem withPostfix_yields : withPostfix.YieldsKnown settings := by
  rintro scope point last trees ⟨middle, between, operandReads, restReads | ⟨-, rfl, rfl⟩⟩ inText
  · have reads : updated.Reads settings (knownCategory settings) scope point [] last trees :=
      ⟨middle, between, operandReads, restReads⟩
    have rest : (all [given fun settings _ point _ => ∃ token,
          point.next settings.dialect = .ok token ∧ isPostfixAt settings token = true,
        ensure assignsLast, named .updateOp, reduce .postfixExpression]).Ends
        .postfixExpression := by
      simp [all]
    exact completed .updated (by simp) reads inText
      (rest.completes restReads (leftHandSide_yields operandReads inText))
  · exact leftHandSide_yields operandReads inText

theorem prefixKind_plain {kind : TokenKind} {label : Kind} (found : prefixKind? kind = some label) :
    label.isAsync = false := by
  unfold prefixKind? at found
  split at found
  all_goals simp only [Option.some.injEq, reduceCtorEq] at found
  all_goals subst found; rfl

theorem binaryOperator_plain {kind : TokenKind} {operator : BinaryOperator} {noIn : Bool}
    (found : BinaryOperator.ofToken? kind noIn = some operator) :
    operator.kind.isAsync = false := by
  have isOperator := (binaryOperator_operator found).1
  cases label : operator.kind with
  | rule rule => rfl
  | fixed spelling =>
      rw [label] at isOperator
      cases spelling with
      | keyword word => rfl
      | _ => cases isOperator

theorem unary_yields : unary.YieldsKnown settings := by
  refine .byKind fun kind => ?_
  split
  · rename_i label found
    exact .of_keeps (plain (by simp [prefixed, prefixKind_plain found]))
  · exact (Yields.of_keeps (plain (by simp))).either withPostfix_yields

/-- A round of operators adds an operator with its right operand, or ends the
level. -/
theorem binaryRound_reads {category : Category} {level : Nat} {again : Bool} {scope : Scope}
    {point last : Point} {before trees : List SyntaxTree}
    (reads : (binaryRound level again).Reads settings category scope point before last trees) :
    (again = true ∧ ∃ token operator right, point.next settings.dialect = .ok token ∧
      BinaryOperator.ofToken? token.kind scope.noIn = some operator ∧ level ≤ operator.level ∧
      category (.binary operator.operandLevel) scope (.after token) right last ∧
      trees = [build .binaryExpression (before ++ [.leaf operator.kind token.span] ++ [right])]) ∨
    (again = false ∧ (∃ token, point.next settings.dialect = .ok token ∧
      ∀ operator, BinaryOperator.ofToken? token.kind scope.noIn = some operator →
        operator.level < level) ∧ last = point ∧ trees = before) := by
  obtain ⟨token, scanned, reads⟩ | ⟨_, _, ⟨ends, rfl, rfl⟩, stops, rfl, rfl⟩ := reads
  · dsimp only at reads
    cases found : BinaryOperator.ofToken? token.kind false with
    | none =>
        rw [found] at reads
        exact reads.1.elim
    | some operator =>
        rw [found] at reads
        obtain ⟨_, _, ⟨⟨tight, known⟩, rfl, rfl⟩, _, _, ⟨taken, scannedAgain, -, rfl, rfl⟩, _, _,
          ⟨right, member, rfl⟩, _, _, ⟨rfl, rfl⟩, goesOn, rfl, rfl⟩ := reads
        obtain rfl : token = taken := Except.ok.inj (scanned.symm.trans scannedAgain)
        exact .inl ⟨goesOn, token, operator, right, scanned, known, tight, member, rfl⟩
  · exact .inr ⟨stops, ends, rfl, rfl⟩

/-- Operands stay known from round to round, since each round puts the earlier
ones into a node that is traced back to them. -/
theorem operands_yield (level : Nat) : (operands level).YieldsKnown settings := by
  rintro scope point last trees ⟨middle, between, unaryReads, rounds⟩ inText
  induction rounds using Phrase.Reads.rounds with
  | start => exact unary_yields unaryReads inText
  | @round current _ last trees earlier step known =>
      have whole : (operated level).Reads settings (knownCategory settings) scope point [] last
          trees := ⟨_, _, ⟨middle, between, unaryReads, earlier⟩, step⟩
      obtain ⟨-, token, operator, right, scanned, found, -, member, added⟩ | ⟨impossible, -⟩ :=
        binaryRound_reads step
      · have sign := known_spreads.token known.inText scanned (binaryOperator_plain found)
        have operand := known_spreads.asked member sign.inText
        exact completed (.operated level) nofun whole inText
          (.inl ⟨_, added, (known.append sign).append operand⟩)
      · cases impossible

theorem binary_yields (level : Nat) : (binary level).YieldsKnown settings := by
  rintro scope point last trees ⟨middle, between, unaryReads, behind, operandTrees, rounds, final⟩
    inText
  have known := operands_yield level ⟨middle, between, unaryReads, rounds⟩ inText
  obtain ⟨impossible, -⟩ | ⟨-, -, rfl, rfl⟩ := binaryRound_reads final
  · cases impossible
  · exact known

theorem conditional_yields : conditional.YieldsKnown settings :=
  (binary_yields BinaryOperator.lowest).seq (plain (by simp))

theorem arrow_yields : arrow.YieldsKnown settings := by
  have rest (isAsync : Bool) :
      (all [inputs, arrowRest isAsync]).Completes settings .arrowFunction :=
    Ends.completes (by simp [inputs, arrowRest, all])
  have whole : arrow.Completes settings .arrowFunction :=
    .either (.after modifier_keeps (rest true)) (rest false)
  exact whole.yields .arrow (by simp)

theorem assignment_yields : assignment.YieldsKnown settings := by
  refine arrow_yields.either (conditional_yields.seq (.byKind fun kind => ?_))
  split <;> exact plain (by simp)

theorem expression_yields : expression.YieldsKnown settings := by
  have ends : sequence.Ends .sequenceExpression := by
    simp [sequence, sequenceRound, all, loop]
  rintro scope point last trees ⟨middle, between, asked, rest | ⟨-, rfl, rfl⟩⟩ inText
  · exact ends.completes.yields .sequence (by simp) ⟨middle, between, asked, rest⟩ inText
  · exact Keeps.ask known_spreads _ asked (.nothing inText)

/-! ## Statements -/

theorem expressionStatement_yields : expressionStatement.YieldsKnown settings := by
  rintro scope point last trees reads inText
  obtain ⟨middle, between, expressionReads, restReads⟩ := id reads
  have rest : (all [terminator, reduce .expressionStatement]).Ends .expressionStatement := by
    simp [all, terminator]
  exact completed .expressionStatement (by simp) reads inText
    (rest.completes restReads (expression_yields expressionReads inText))

theorem declaration_yields {word : Keyword}
    (declares : word ∈ [Keyword.varWord, .letWord, .constWord]) :
    (declaration word).YieldsKnown settings := by
  have ends : (declaration word).Ends .variableDeclaration := by
    simp [declaration, declarationRest, binding, nextBinding, terminator, all]
  exact ends.completes.yields (.declaration word) fun _ => ⟨word, declares, rfl⟩

theorem returnStatement_yields : returnStatement.YieldsKnown settings := by
  have value : (all [sub expression, terminator, reduce .returnStatement]).Completes settings
      .returnStatement :=
    .after (.sub expression_yields) (Ends.completes (by simp [all, terminator]))
  have whole : returnStatement.Completes settings .returnStatement :=
    .after .given (.after (plain (by simp)) (.either (.after .given value)
      (Ends.completes (by simp [all, terminator]))))
  exact whole.yields .returnStatement (by simp)

theorem jumpStatement_yields {rule : Rule} {word : Keyword}
    (readBy : ReadBy rule (jumpStatement rule word)) (other : rule ≠ .variableDeclaration) :
    (jumpStatement rule word).YieldsKnown settings := by
  have ends : (jumpStatement rule word).Ends rule := by
    simp [jumpStatement, terminator, all]
  exact ends.completes.yields readBy fun same => absurd same other

theorem throwStatement_yields : throwStatement.YieldsKnown settings := by
  have whole : throwStatement.Completes settings .throwStatement :=
    .after (plain (by simp)) (.after .given (.after (.sub expression_yields)
      (Ends.completes (by simp [all, terminator]))))
  exact whole.yields .throwStatement (by simp)

theorem debuggerStatement_yields : debuggerStatement.YieldsKnown settings := by
  have ends : debuggerStatement.Ends .debuggerStatement := by
    simp [debuggerStatement, terminator, all]
  exact ends.completes.yields .debuggerStatement (by simp)

theorem ifStatement_yields : ifStatement.YieldsKnown settings := by
  have ends : ifStatement.Ends .ifStatement := by
    simp [ifStatement, all]
  exact ends.completes.yields .ifStatement (by simp)

theorem countingRest_keeps : countingRest.KeepsKnown settings :=
  plain (by simp [countingRest, expressionBefore])

theorem iterationRest_keeps : iterationRest.KeepsKnown settings :=
  plain (by simp [iterationRest])

/-- A declaration in the head of a counting loop is known but for being no
statement. -/
theorem countingDeclaration_places (word : Keyword) {scope : Scope} {point last : Point}
    {trees : List SyntaxTree}
    (reads : (countingDeclaration word).Reads settings (knownCategory settings) scope point [] last
      trees) (inText : point.InText settings) :
    Sound settings (·.Every (Placed settings)) last trees := by
  have ends : (countingDeclaration word).Ends .variableDeclaration := by
    simp [countingDeclaration, declarationRest, binding, nextBinding, all]
  obtain ⟨children, rfl, known⟩ | known := ends.completes reads (.nothing inText)
  · refine ⟨known.inText, ?_⟩
    rw [List.forall_mem_singleton]
    refine .branch ⟨followed_of_plain rfl, fun found same _ _ => ?_,
      fun _ child member => (known.all child member).2⟩ fun child member =>
        (known.all child member).1
    cases same
    exact ⟨_, .countingDeclaration word, scope, point, last, inText, reads_derives reads⟩
  · exact known.mono fun _ => And.left

theorem declaredHead_keeps (word : Keyword) : (declaredHead word).KeepsKnown settings := by
  rintro scope point before last trees (iterates | counts) known
  · exact ((plain (by simp [iterationBinding])).seq iterationRest_keeps) iterates known
  · obtain ⟨_, _, ⟨added, declares, rfl⟩, _, _, ⟨opening, openingRun, -, rfl, rfl⟩, _, _,
      ⟨test, testReads, rfl⟩, _, _, ⟨middle, middleRun, -, rfl, rfl⟩, _, _,
      ⟨update, updateReads, rfl⟩, _, _, ⟨closing, closingRun, -, rfl, rfl⟩, rfl, rfl⟩ := counts
    have part (sign : Punctuator) : (expressionBefore sign).YieldsKnown settings :=
      .of_keeps (plain (by simp [expressionBefore]))
    have declared := countingDeclaration_places word declares known.inText
    have sign (sign : Punctuator) : (Kind.fixed (.punctuator sign)).isAsync = false := rfl
    have first := known_spreads.token declared.inText openingRun (sign .semicolon)
    have tested := part _ testReads first.inText
    have second := known_spreads.token tested.inText middleRun (sign .semicolon)
    have updated := part _ updateReads second.inText
    have third := known_spreads.token updated.inText closingRun (sign .rightParen)
    have placed {point : Point} {trees : List SyntaxTree}
        (sound : Sound settings (Known settings) point trees) :
        Sound settings (·.Every (Placed settings)) point trees :=
      sound.mono fun _ => And.left
    have whole := ((((((placed known).append declared).append (placed first)).append
      (placed tested)).append (placed second)).append (placed updated)).append (placed third)
    exact ⟨whole.inText, by simpa using forSpec_known _ whole.all⟩

theorem forStatement_keeps : forStatement.KeepsKnown settings := by
  have init : (within (.withNoIn true) expression).YieldsKnown settings :=
    fun _ _ _ _ reads => expression_yields reads
  have expressionHead : expressionHead.KeepsKnown settings :=
    (Keeps.sub init).seq ((Keeps.given.seq iterationRest_keeps).either countingRest_keeps)
  have head : forHead.KeepsKnown settings := by
    refine (plain (by simp)).seq (countingRest_keeps.either (.byKind fun kind => ?_))
    split
    · exact declaredHead_keeps _
    · exact expressionHead
  exact (plain (by simp)).seq ((Keeps.sub (.of_keeps head)).seq (plain (by simp)))

theorem keywordStatement_yields (word : Keyword) :
    (keywordStatement word).YieldsKnown settings := by
  unfold keywordStatement
  split
  · exact declaration_yields (by simp)
  · exact declaration_yields (by simp)
  · exact declaration_yields (by simp)
  · exact function_yields (.inl rfl)
  · exact .of_keeps (classDefinition_keeps rfl)
  · exact ifStatement_yields
  · exact .of_keeps (plain (by simp [whileStatement]))
  · exact .of_keeps (plain (by simp [doStatement]))
  · exact .of_keeps forStatement_keeps
  · exact .of_keeps (plain (by
      simp [tryStatement, handler, handlerBinding, finalizer]))
  · exact .of_keeps (plain (by
      simp [switchStatement, switchBody, switchEntry, caseLabel, defaultLabel]))
  · exact returnStatement_yields
  · exact jumpStatement_yields .breakStatement nofun
  · exact jumpStatement_yields .continueStatement nofun
  · exact throwStatement_yields
  · exact debuggerStatement_yields
  · exact expressionStatement_yields

theorem statement_yields : statement.YieldsKnown settings := by
  refine .byKind fun kind => ?_
  split
  · exact .of_keeps (plain (by simp))
  · exact .of_keeps (plain (by simp))
  · exact keywordStatement_yields _
  · exact (Yields.of_keeps (plain (by simp))).either
      ((asyncFunction_yields (.inl rfl)).either expressionStatement_yields)
  · exact expressionStatement_yields

theorem ofGoal_yields (goal : Goal) : (ofGoal goal).YieldsKnown settings := by
  cases goal with
  | statement => exact statement_yields
  | expression => exact expression_yields
  | assignment => exact assignment_yields
  | binary level => exact binary_yields level
  | unary => exact unary_yields
  | leftHandSide => exact leftHandSide_yields
  | construction => exact .of_keeps construction_keeps

end Phrase

/-- Every derived tree is traced. -/
theorem Derives.known {goal : Goal} {scope : Scope} {point last : Point} {tree : SyntaxTree}
    (derives : Derives settings goal scope point tree last) :
    point.InText settings → Sound settings (Known settings) last [tree] :=
  derives.induct
    (fun _ _ point tree last => point.InText settings → Sound settings (Known settings) last [tree])
    fun {goal _ _ _ _} reads => Phrase.ofGoal_yields goal reads

/-- Every node of a text that is read is traced. -/
theorem parseWith_known {tree : SyntaxTree} (run : parseWith settings = .ok tree) :
    ∃ trees, tree = .node (.rule .script) ⟨0, settings.size⟩ trees ∧
      ∀ tree ∈ trees, Known settings tree := by
  obtain ⟨trees, last, rfl, reads⟩ := parseWith_reads derives_closed run
  have spreads : Spreads settings (Derives settings) (Known settings) :=
    ⟨fun _ _ plain => leaf_known (followed_of_plain plain), build_known rfl, Derives.known⟩
  have keeps : Phrase.script.Keeps settings (Derives settings) (Known settings) :=
    .of_builds spreads (by simp [Phrase.script, Phrase.scriptRound])
  exact ⟨trees, rfl, (keeps reads (.nothing fun _ => .first settings.source)).all⟩

end Grammar

end ScriptTree
