import ScriptTree.Proofs.Grammar.Inversion

/-!
# What is checked before a node is built

Some nodes are built only if their parts pass a test: what is assigned to must
be assignable, and a property without a value must be named like a variable.
The tests are made on trees while the text is read, and their outcome can be
read off the finished nodes.
-/

namespace ScriptTree

namespace Rule

def isChecked : Rule → Bool
  | .assignmentExpression | .postfixExpression | .unaryExpression | .forInSpec | .forOfSpec
  | .property => true
  | _ => false

end Rule

namespace Grammar

/-- What the parts of a node have passed. -/
def Passes (source : Text) (trees : List SyntaxTree) : Rule → Prop
  | .assignmentExpression => ∃ earlier target operator value,
      trees = earlier ++ [target, operator, value] ∧ isAssignable source target = true
  | .postfixExpression => ∃ earlier operand operator,
      trees = earlier ++ [operand, operator] ∧ isAssignable source operand = true
  | .unaryExpression => ∃ earlier operator operand text,
      trees = earlier ++ [operator, operand] ∧ operator.children = [] ∧
        operator.span.text? source = some text ∧
        (text = Punctuator.increment.chars ∨ text = Punctuator.decrement.chars →
          isAssignable source operand = true)
  | .forInSpec | .forOfSpec => ∃ earlier target word subject closing,
      trees = earlier ++ [target, word, subject, closing] ∧
        (target.label = .rule .variableDefinition ∨ isAssignable source target = true)
  | .property => isShorthand source trees = true ∨
      ∃ tree ∈ trees, tree.label = .rule .paramList ∨ tree.label = Shape.sign .colon
  | _ => True

/-- The parts of a node have passed what its rule demands. -/
def Checked (source : Text) (tree : SyntaxTree) : Prop :=
  ∀ rule, tree.label = .rule rule → tree.children ≠ [] → Passes source tree.children rule

variable {settings : Settings}

def checkedCategory (settings : Settings) : Category :=
  fun _ _ point tree last => point.InText settings →
    Sound settings (·.Every (Checked settings.source)) last [tree]

theorem leaf_checked {source : Text} (kind : Kind) (span : Span) :
    Tree.Every (Checked source) (.leaf kind span) :=
  .leaf fun _ _ nonempty => absurd rfl nonempty

theorem build_checked {source : Text} {rule : Rule} {trees : List SyntaxTree}
    (passes : Passes source trees rule) (checked : ∀ tree ∈ trees, tree.Every (Checked source)) :
    (build rule trees).Every (Checked source) := by
  refine .branch (fun found same _ => ?_) checked
  cases same
  exact passes

theorem passes_of_plain {source : Text} {rule : Rule} (plain : rule.isChecked = false)
    (trees : List SyntaxTree) : Passes source trees rule := by
  cases rule <;> trivial

theorem checked_spreads :
    Spreads settings (checkedCategory settings) (·.Every (Checked settings.source)) where
  leaf kind span _ := leaf_checked kind span
  template trees := build_checked (passes_of_plain rfl trees)
  asked member := member

namespace Phrase

/-- What a phrase collects is checked if what was collected before is. -/
abbrev KeepsChecked (settings : Settings) (phrase : Phrase) : Prop :=
  phrase.Keeps settings (checkedCategory settings) (·.Every (Checked settings.source))

variable {phrase : Phrase}

/-- A phrase that builds no node in question. -/
theorem unchecked (builds : phrase.Builds fun rule => rule.isChecked = false) :
    phrase.KeepsChecked settings :=
  .of_builds checked_spreads
    (builds.mono fun _ plain trees => build_checked (passes_of_plain plain trees))

/-- A node that is built after its check. -/
theorem reduce_checked {rule : Rule} {scope : Scope} {point last : Point}
    {before trees : List SyntaxTree}
    (reads : (Phrase.reduce rule).Reads settings (checkedCategory settings) scope point before last
      trees)
    (earlier : Sound settings (·.Every (Checked settings.source)) point before)
    (passes : Passes settings.source before rule) :
    Sound settings (·.Every (Checked settings.source)) last trees := by
  obtain ⟨rfl, rfl⟩ := reads
  exact ⟨earlier.inText, by simpa using build_checked passes earlier.all⟩

theorem keeps_sub (keeps : phrase.KeepsChecked settings) :
    (Phrase.sub phrase).KeepsChecked settings :=
  .sub (.of_keeps keeps)

/-! ## Entries of objects -/

theorem modifier_checked (word : ContextualWord) (sameLine : Bool) :
    (modifier word sameLine).KeepsChecked settings := by
  rintro scope point before last trees
    ⟨_, _, ⟨token, scanned, -, rfl, rfl⟩, -, rfl, rfl⟩ earlier
  exact earlier.append ⟨earlier.inText.after scanned, by simpa using leaf_checked _ _⟩

theorem function_checked {rule : Rule} (plain : rule.isChecked = false) (isAsync : Bool) :
    (function rule isAsync).KeepsChecked settings :=
  unchecked (by simp +decide [function, function.rest, functionName, plain])

theorem asyncFunction_checked {rule : Rule} (plain : rule.isChecked = false) :
    (asyncFunction rule).KeepsChecked settings :=
  (modifier_checked _ _).seq (function_checked plain true)

theorem leading_checked {asynchronous accessor plain : Phrase}
    (asyncKeeps : asynchronous.KeepsChecked settings)
    (accessorKeeps : accessor.KeepsChecked settings) (plainKeeps : plain.KeepsChecked settings) :
    (leading asynchronous accessor plain).KeepsChecked settings :=
  ((modifier_checked _ _).seq asyncKeeps).either
    (((modifier_checked _ _).seq accessorKeeps).either
      (((modifier_checked _ _).seq accessorKeeps).either plainKeeps))

theorem starred_checked {generator plain : Phrase}
    (generatorKeeps : generator.KeepsChecked settings)
    (plainKeeps : plain.KeepsChecked settings) :
    (starred generator plain).KeepsChecked settings :=
  ((unchecked (by simp)).seq generatorKeeps).either plainKeeps

theorem method_checked : method.KeepsChecked settings := by
  have fromKey (isAsync : Bool) : (methodFromKey isAsync).KeepsChecked settings :=
    unchecked (by simp +decide [methodFromKey])
  have fromWord : methodFromWord.KeepsChecked settings :=
    leading_checked (starred_checked (fromKey _) (fromKey _)) (fromKey _)
      (starred_checked (fromKey _) (fromKey _))
  exact ((modifier_checked _ _).seq fromWord).either fromWord

/-- A method has its parameters among its parts. -/
theorem methodRest_checked (isAsync : Bool) :
    (Phrase.all [.sub (methodRest isAsync), .reduce .property]).KeepsChecked settings := by
  rintro scope point before last trees ⟨middle, between, ⟨added, rest, rfl⟩, final⟩ earlier
  have keeps : (Phrase.sub (methodRest isAsync)).KeepsChecked settings :=
    unchecked (by simp +decide)
  have known := keeps ⟨added, rest, rfl⟩ earlier
  refine reduce_checked final known (.inr ?_)
  obtain ⟨_, _, ⟨params, paramsRead, rfl⟩, body, bodyRead, rfl⟩ := rest
  obtain ⟨_, _, -, _, _, -, _, inner, -, rfl, rfl⟩ := paramsRead
  refine ⟨build .paramList inner, ?_, .inl rfl⟩
  simp

theorem property_checked : property.KeepsChecked settings := by
  have method (isAsync : Bool) : (propertyMethod isAsync).KeepsChecked settings :=
    (unchecked (by simp)).seq (methodRest_checked isAsync)
  have plain : plainProperty.KeepsChecked settings := by
    refine (unchecked (by simp)).seq (.either (.seq .given (methodRest_checked false))
      (.either ?_ ?_))
    · rintro scope point before last trees ⟨_, _, colonReads, _, _, asked, final⟩ earlier
      have keeps : (Phrase.sign .colon).KeepsChecked settings := unchecked (by simp)
      have colon := keeps colonReads earlier
      refine reduce_checked final (Keeps.ask checked_spreads _ asked colon) (.inr ?_)
      obtain ⟨token, -, -, -, rfl⟩ := colonReads
      obtain ⟨value, -, rfl⟩ := asked
      exact ⟨.leaf (Shape.sign .colon) token.span, by simp, .inr rfl⟩
    · rintro scope point before last trees ⟨_, _, ⟨shorthand, rfl, rfl⟩, final⟩ earlier
      exact reduce_checked final earlier (.inl shorthand)
  exact leading_checked (starred_checked (method _) (method _)) (method _)
    (starred_checked (method _) plain)

/-! ## Operands -/

theorem classDefinition_checked {rule : Rule} (plain : rule.isChecked = false) :
    (classDefinition rule).KeepsChecked settings := by
  have round (again : Bool) : (classRound again).KeepsChecked settings :=
    (unchecked (by simp)).either ((unchecked (by simp)).either
      ((keeps_sub method_checked).seq (unchecked (by simp))))
  have body : classBody.KeepsChecked settings :=
    .within ((unchecked (by simp)).seq (((round true).many.seq (round false)).seq
      (unchecked (by simp +decide))))
  refine (unchecked (by simp)).seq ((unchecked (by simp [className])).seq
    ((unchecked (by simp [heritage])).seq ((keeps_sub body).seq (unchecked ?_))))
  simpa using plain

theorem object_checked : object.KeepsChecked settings := by
  have entry : entry.KeepsChecked settings :=
    (unchecked (by simp +decide [spread])).either property_checked
  have round (again : Bool) : (objectRound again).KeepsChecked settings :=
    (unchecked (by simp)).either ((keeps_sub entry).seq (unchecked (by simp [commaOrEnd])))
  exact .within ((unchecked (by simp)).seq (((round true).many.seq (round false)).seq
    (unchecked (by simp +decide))))

theorem primary_checked : primary.KeepsChecked settings := by
  refine .byKind fun kind => ?_
  split
  · exact (asyncFunction_checked rfl).either (unchecked (by simp))
  · exact unchecked (by simp)
  · exact unchecked (by simp)
  · exact unchecked (by simp)
  · exact function_checked rfl false
  · exact classDefinition_checked rfl
  · exact unchecked (by simp +decide)
  · exact unchecked (by simp +decide [array, arrayRound])
  · exact object_checked
  · exact .template checked_spreads
  · exact unchecked (by simp)

theorem memberRounds_checked (allowCall : Bool) :
    (loop (memberRound allowCall)).KeepsChecked settings :=
  unchecked (by simp +decide [memberRound])

theorem construction_checked : construction.KeepsChecked settings :=
  (unchecked (by simp)).seq ((keeps_sub (((unchecked (by simp)).either primary_checked).seq
    (memberRounds_checked false))).seq (unchecked (by simp +decide)))

theorem leftHandSide_checked : leftHandSide.KeepsChecked settings :=
  (construction_checked.either primary_checked).seq (memberRounds_checked true)

/-! ## Operators -/

/-- The last of some trees can be assigned to. -/
theorem assignsLast_split {source : Text} {trees : List SyntaxTree}
    (assigns : assignsLast source trees = true) :
    ∃ earlier target, trees = earlier ++ [target] ∧ isAssignable source target = true := by
  rcases List.eq_nil_or_concat' trees with rfl | ⟨earlier, target, rfl⟩
  · cases assigns
  · exact ⟨earlier, target, rfl, by simpa [assignsLast] using assigns⟩

theorem withPostfix_checked : withPostfix.KeepsChecked settings := by
  refine leftHandSide_checked.seq (.either (.seq .given ?_) .given)
  rintro scope point before last trees ⟨_, _, ⟨assigns, rfl, rfl⟩, _, _, signReads, final⟩ earlier
  have keeps : (Phrase.named .updateOp).KeepsChecked settings := unchecked (by simp)
  have sign := keeps signReads earlier
  refine reduce_checked final sign ?_
  obtain ⟨operand, target, rfl, isTarget⟩ := assignsLast_split assigns
  obtain ⟨token, -, -, -, rfl⟩ := signReads
  exact ⟨operand, target, .leaf (.rule .updateOp) token.span, by simp, isTarget⟩

/-- A token that is an operator in front of its operand, but neither `++` nor
`--`, is spelled like neither. -/
theorem prefix_text {token : Token} {label : Kind} (found : prefixKind? token.kind = some label)
    (other : label ≠ .rule .updateOp) (spelled : Token.SpelledAs token.kind token.text) :
    token.text ≠ Punctuator.increment.chars ∧ token.text ≠ Punctuator.decrement.chars := by
  unfold prefixKind? at found
  split at found
  case h_5 | h_6 => exact absurd (Option.some.inj found).symm other
  case h_10 => cases found
  all_goals
    rename_i isKind
    rw [isKind] at spelled
    rw [show token.text = _ from spelled]
    decide

theorem unary_checked (sized : settings.size = Text.size settings.source) :
    unary.KeepsChecked settings := by
  rintro scope point before last trees ⟨token, scanned, reads⟩ earlier
  dsimp only at reads
  split at reads
  · rename_i label found
    obtain ⟨_, _, ⟨-, rfl, rfl⟩, _, _, ⟨taken, scannedAgain, admits, rfl, rfl⟩, _, _,
      ⟨operand, asked, rfl⟩, _, _, ⟨assigns, rfl, rfl⟩, final⟩ := reads
    obtain rfl : token = taken := Except.ok.inj (scanned.symm.trans scannedAgain)
    have sign := checked_spreads.token earlier.inText scanned (prefixKind_plain found)
    have whole := (earlier.append sign).append (checked_spreads.asked asked sign.inText)
    refine reduce_checked final whole ⟨_, .leaf label token.span, operand, token.text,
      List.append_assoc _ _ _, rfl, ?_, fun isUpdate => ?_⟩
    · have isScanned := Token.scan_scanned scanned
      obtain ⟨skipped, toStart, -⟩ := Trivia.skip_reaches isScanned.skipped
      exact ((earlier.inText sized).after toStart).slice?_eq isScanned.covers
    · by_cases update : label = .rule .updateOp
      · simpa [update, assignsLast] using assigns
      · have other := prefix_text found update (Token.scan_scanned scanned).spelled
        exact absurd isUpdate (not_or.mpr other)
  · have awaited : (Phrase.all [.given fun _ scope _ _ => scope.inAsync = true,
        .contextual .awaitWord, .ask .unary, .reduce .awaitExpression]).KeepsChecked settings :=
      unchecked (by simp +decide)
    exact (awaited.either withPostfix_checked) reads earlier

theorem binary_checked (sized : settings.size = Text.size settings.source) (level : Nat) :
    (binary level).KeepsChecked settings := by
  have round (again : Bool) : (binaryRound level again).KeepsChecked settings := by
    refine .either (.byKind fun kind => ?_) (unchecked (by simp [endsLevel]))
    split
    · rename_i operator found
      exact unchecked (by simp +decide [operation, binaryOperator_plain found])
    · exact .given
  exact (unary_checked sized).seq ((round true).many.seq (round false))

theorem conditional_checked (sized : settings.size = Text.size settings.source) :
    conditional.KeepsChecked settings :=
  (binary_checked sized _).seq (unchecked (by simp +decide))

theorem assignment_checked (sized : settings.size = Text.size settings.source) :
    assignment.KeepsChecked settings := by
  have rest (isAsync : Bool) : (arrowRest isAsync).KeepsChecked settings :=
    unchecked (by simp +decide [arrowRest])
  have inputs : inputs.KeepsChecked settings := unchecked (by simp +decide [inputs])
  have arrow : arrow.KeepsChecked settings :=
    ((modifier_checked _ _).seq (inputs.seq (rest true))).either (inputs.seq (rest false))
  refine arrow.either ((conditional_checked sized).seq (.byKind fun kind => ?_))
  split
  · rename_i rule found
    rintro scope point before last trees
      ⟨_, _, ⟨assigns, rfl, rfl⟩, _, _, signReads, _, _, ⟨value, asked, rfl⟩, final⟩ earlier
    have keeps : (Phrase.named rule).KeepsChecked settings := unchecked (by simp)
    have sign := keeps signReads earlier
    have whole := sign.append (checked_spreads.asked asked sign.inText)
    refine reduce_checked final whole ?_
    obtain ⟨before, target, rfl, isTarget⟩ := assignsLast_split assigns
    obtain ⟨token, -, -, -, rfl⟩ := signReads
    exact ⟨before, target, .leaf (.rule rule) token.span, value, by simp, isTarget⟩
  · exact unchecked (by simp)

theorem expression_checked : expression.KeepsChecked settings :=
  unchecked (by simp +decide [expression, sequenceRound])

/-! ## Statements -/

/-- The rest of a head over keys or values, behind its target. -/
theorem iterationRest_checks {scope : Scope} {point last : Point}
    {earlier trees : List SyntaxTree} {target : SyntaxTree}
    (reads : iterationRest.Reads settings (checkedCategory settings) scope point
      (earlier ++ [target]) last trees)
    (known : Sound settings (·.Every (Checked settings.source)) point (earlier ++ [target]))
    (isTarget : target.label = .rule .variableDefinition ∨
      isAssignable settings.source target = true) :
    Sound settings (·.Every (Checked settings.source)) last trees := by
  have ends {kind : Kind} (plain : kind.isAsync = false) {goal : Goal} {rule : Rule}
      (isHead : rule = .forInSpec ∨ rule = .forOfSpec)
      (reads : (Phrase.all [.take kind, .within (.withNoIn false) (.ask goal), .sign .rightParen,
        .reduce rule]).Reads settings (checkedCategory settings) scope point (earlier ++ [target])
        last trees) : Sound settings (·.Every (Checked settings.source)) last trees := by
    obtain ⟨_, _, ⟨word, scanned, -, rfl, rfl⟩, _, _, ⟨subject, asked, rfl⟩, _, _,
      ⟨closing, scannedClosing, -, rfl, rfl⟩, final⟩ := reads
    have first := known.append (checked_spreads.token known.inText scanned plain)
    have second := first.append (checked_spreads.asked asked first.inText)
    have paren : (Kind.fixed (.punctuator .rightParen)).isAsync = false := rfl
    have whole := second.append (checked_spreads.token second.inText scannedClosing paren)
    refine reduce_checked final whole ?_
    rcases isHead with rfl | rfl
    all_goals
      exact ⟨earlier, target, .leaf kind word.span, subject,
        .leaf (.fixed (.punctuator .rightParen)) closing.span, by simp, isTarget⟩
  rcases reads with overKeys | overValues
  · exact ends rfl (.inl rfl) overKeys
  · exact ends rfl (.inr rfl) overValues

theorem countingRest_checked : countingRest.KeepsChecked settings :=
  unchecked (by simp +decide [countingRest, expressionBefore])

theorem declaredHead_checked (word : Keyword) : (declaredHead word).KeepsChecked settings := by
  refine .either ?_ ((unchecked ?_).seq countingRest_checked)
  · rintro scope point before last trees ⟨_, _, bound, rest⟩ earlier
    have keeps : (Phrase.sub (iterationBinding word)).KeepsChecked settings :=
      unchecked (by simp [iterationBinding])
    have known := keeps bound earlier
    obtain ⟨_, ⟨_, _, ⟨keyword, -, -, rfl, rfl⟩, _, _, ⟨name, -, -, rfl, rfl⟩, rfl, rfl⟩, rfl⟩ :=
      bound
    have split (first second : SyntaxTree) :
        before ++ ([] ++ [first] ++ [second]) = before ++ [first] ++ [second] := by
      simp
    rw [split] at rest known
    exact iterationRest_checks rest known (.inl rfl)
  · simp +decide [countingDeclaration, declarationRest, binding, nextBinding]

theorem expressionHead_checked : expressionHead.KeepsChecked settings := by
  have init : (Phrase.sub (.within (.withNoIn true) expression)).KeepsChecked settings :=
    keeps_sub (.within expression_checked)
  refine init.seq (.either ?_ countingRest_checked)
  rintro scope point before last trees ⟨_, _, ⟨assigns, rfl, rfl⟩, rest⟩ earlier
  obtain ⟨before, target, rfl, isTarget⟩ := assignsLast_split assigns
  exact iterationRest_checks rest earlier (.inr isTarget)

theorem forStatement_checked : forStatement.KeepsChecked settings := by
  have head : forHead.KeepsChecked settings := by
    refine (unchecked (by simp)).seq (countingRest_checked.either (.byKind fun kind => ?_))
    split
    · exact declaredHead_checked _
    · exact expressionHead_checked
  exact (unchecked (by simp)).seq ((keeps_sub head).seq (unchecked (by simp +decide)))

theorem keywordStatement_checked (word : Keyword) :
    (keywordStatement word).KeepsChecked settings := by
  have declaration (word : Keyword) : (declaration word).KeepsChecked settings :=
    unchecked (by
      simp +decide [declaration, declarationRest, binding, nextBinding, terminator])
  have jump {rule : Rule} (word : Keyword) (plain : rule.isChecked = false) :
      (jumpStatement rule word).KeepsChecked settings :=
    unchecked (by simp [jumpStatement, terminator, plain])
  unfold keywordStatement
  split
  · exact declaration _
  · exact declaration _
  · exact declaration _
  · exact function_checked rfl false
  · exact classDefinition_checked rfl
  · exact unchecked (by simp +decide [ifStatement])
  · exact unchecked (by simp +decide [whileStatement])
  · exact unchecked (by simp +decide [doStatement])
  · exact forStatement_checked
  · exact unchecked (by simp +decide [tryStatement, handler, handlerBinding, finalizer])
  · exact unchecked (by
      simp +decide [switchStatement, switchBody, switchEntry, caseLabel, defaultLabel])
  · exact unchecked (by simp +decide [returnStatement, terminator, expression, sequenceRound])
  · exact jump _ rfl
  · exact jump _ rfl
  · exact unchecked (by simp +decide [throwStatement, terminator, expression, sequenceRound])
  · exact unchecked (by simp +decide [terminator])
  · exact unchecked (by simp +decide [expressionStatement, terminator, expression, sequenceRound])

theorem ofGoal_checked (sized : settings.size = Text.size settings.source) (goal : Goal) :
    (ofGoal goal).KeepsChecked settings := by
  have expressionStatement : expressionStatement.KeepsChecked settings :=
    unchecked (by simp +decide [expressionStatement, terminator, expression, sequenceRound])
  cases goal with
  | statement =>
      refine .byKind fun kind => ?_
      split
      · exact unchecked (by simp +decide)
      · exact unchecked (by simp +decide)
      · exact keywordStatement_checked _
      · exact (unchecked (by simp +decide)).either
          ((asyncFunction_checked rfl).either expressionStatement)
      · exact expressionStatement
  | expression => exact expression_checked
  | assignment => exact assignment_checked sized
  | binary level => exact binary_checked sized level
  | unary => exact unary_checked sized
  | leftHandSide => exact leftHandSide_checked
  | construction => exact construction_checked

end Phrase

theorem checkedCategory_closed (sized : settings.size = Text.size settings.source) :
    Closed settings (checkedCategory settings) :=
  fun reads inText => Phrase.ofGoal_checked sized _ reads (.nothing inText)

/-- Every node of a text that is read is checked. -/
theorem parse_checked {options : Options} {source : Text} {tree : SyntaxTree}
    (parsed : parse options source = .ok tree) :
    ∃ trees, tree = .node (.rule .script) ⟨0, Text.size source⟩ trees ∧
      ∀ tree ∈ trees, tree.Every (Checked source) := by
  obtain ⟨trees, last, rfl, reads⟩ := parseWith_reads (checkedCategory_closed rfl) parsed
  have keeps : Phrase.script.KeepsChecked (Settings.ofOptions options source) :=
    Phrase.unchecked (by simp [Phrase.script, Phrase.scriptRound])
  exact ⟨trees, rfl, (keeps reads (.nothing fun _ => .first source)).all⟩

end Grammar

end ScriptTree
