import ScriptTree.Proofs.Grammar.Shape

/-!
# Every phrase builds shaped nodes
-/

namespace ScriptTree

open Shape

namespace Shape

theorem many_nil {item : Language} : Many item [] :=
  ⟨[], by simp, rfl⟩

theorem many_snoc {item : Language} {kinds part : List Kind} (many : Many item kinds)
    (last : item part) : Many item (kinds ++ part) := by
  obtain ⟨items, all, rfl⟩ := many
  refine ⟨items ++ [part], ?_, by simp⟩
  simp only [List.mem_append, List.mem_singleton, or_imp, forall_and, forall_eq]
  exact ⟨all, last⟩

theorem separated_one {item : Language} {kinds : List Kind} (single : item kinds) :
    Separated item kinds :=
  ⟨[], kinds, many_nil, single, rfl⟩

theorem Separated.add {item : Language} {kinds part : List Kind} (separated : Separated item kinds)
    (last : item part) : Separated item (kinds ++ [sign .comma] ++ part) := by
  obtain ⟨earlier, kept, many, keptItem, rfl⟩ := separated
  exact ⟨_, part, many_snoc many ⟨kept, keptItem, rfl⟩, last, by simp⟩

theorem Cases.add {kinds : List Kind} {kind : Kind} (cases : Cases kinds)
    (allowed : kind.isStatement = true ∨ kind = .rule .caseLabel ∨ kind = .rule .defaultLabel)
    (first : kinds = [] → kind = .rule .caseLabel ∨ kind = .rule .defaultLabel) :
    Cases (kinds ++ [kind]) := by
  obtain rfl | ⟨label, rest, isLabel, all, rfl⟩ := cases
  · exact .inr ⟨kind, [], first rfl, by simp, rfl⟩
  · refine .inr ⟨label, rest ++ [kind], isLabel, ?_, rfl⟩
    simp only [List.mem_append, List.mem_singleton, or_imp, forall_and, forall_eq]
    exact ⟨all, allowed⟩

/-- Any number of words of a language behind a punctuator. -/
def Opened (opening : Punctuator) (item : Language) : Language :=
  fun kinds => ∃ inner, Many item inner ∧ kinds = sign opening :: inner

section Opened

variable {opening closing : Punctuator} {item : Language} {kinds : List Kind}
  {first second third : Kind}

theorem opened_start : Opened opening item [sign opening] :=
  ⟨[], many_nil, rfl⟩

theorem Opened.add {part : List Kind} (opened : Opened opening item kinds) (last : item part) :
    Opened opening item (kinds ++ part) := by
  obtain ⟨inner, many, rfl⟩ := opened
  exact ⟨_, many_snoc many last, rfl⟩

theorem Opened.add1 (opened : Opened opening item kinds) (last : item [first]) :
    Opened opening item (kinds ++ [first]) :=
  opened.add last

theorem Opened.add3 (opened : Opened opening item kinds) (last : item [first, second, third]) :
    Opened opening item (kinds ++ [first] ++ [second] ++ [third]) := by
  simpa using opened.add last

theorem Opened.close (opened : Opened opening item kinds) :
    Between opening closing item (kinds ++ [sign closing]) := by
  obtain ⟨inner, many, rfl⟩ := opened
  exact ⟨inner, many, rfl⟩

end Opened

end Shape

namespace Grammar

namespace Phrase

variable {goal : Language} {kinds : List Kind}

/-- The other end of a round cannot be reached. -/
theorem never {again goesOn : Bool} (other : again ≠ goesOn) :
    (leave again goesOn).Leads goal kinds := by
  rintro ⟨_, _, _, _, same, _⟩
  exact (other same).elim

/-- A condition that says nothing about labels. -/
theorem passing {holds : Settings → Scope → Point → List SyntaxTree → Prop}
    (leads : goal kinds) : (given holds).Leads goal kinds :=
  fun _ => leads

/-- A phrase that cannot be read. -/
theorem impossible : (given fun _ _ _ _ => False).Leads goal kinds := by
  rintro ⟨_, _, _, _, absurd, _⟩
  exact absurd.elim

/-- A condition that demands some number of trees. -/
theorem longer {size : Nat} (leads : size < kinds.length → goal kinds) :
    (ensure fun _ trees => decide (size < trees.length)).Leads goal kinds := by
  rintro ⟨_, _, _, trees, long, rfl⟩
  exact leads (by simpa using long)

/-- A loop is followed with an invariant of the labels collected. -/
theorem leads_loop {round : Bool → Phrase} (invariant : Language) (start : invariant kinds)
    (again : ∀ between, invariant between → (round true).Leads invariant between)
    (stop : ∀ between, invariant between → (round false).Leads goal between) :
    (loop round).Leads goal kinds :=
  ⟨invariant, start, stop, again⟩

/-! ## Functions -/

theorem commaOrEnd_again (leads : goal (kinds ++ [Shape.sign .comma])) :
    (commaOrEnd true).Leads goal kinds :=
  ⟨⟨rfl, passing leads⟩, never nofun⟩

theorem commaOrEnd_stop (leads : goal kinds) : (commaOrEnd false).Leads goal kinds :=
  ⟨⟨rfl, never nofun⟩, passing leads⟩

theorem parameters_leads (holds : goal [.rule .paramList]) : parameters.Leads goal [] := by
  have name : Parameter [.rule .variableDefinition] := Or.inr (Or.inl rfl)
  have value (kind : Kind) (isExpression : kind.isExpression = true) :
      Parameter [.rule .variableDefinition, .rule .equals, kind] :=
    Or.inr (Or.inr ⟨kind, isExpression, rfl⟩)
  have close {between : List Kind} (opened : Opened .leftParen Parameter between) :
      Rule.paramList.Takes (between ++ [Shape.sign .rightParen]) := by
    obtain ⟨inner, many, rfl⟩ := opened
    exact ⟨inner, [], many, .inl rfl, by simp⟩
  refine ⟨rfl, leads_loop (Opened .leftParen Parameter) opened_start ?_ ?_⟩
  · intro between opened
    refine ⟨never nofun, ⟨rfl, rfl, never nofun⟩, rfl,
      ⟨rfl, fun kind isExpression => commaOrEnd_again ?_⟩, commaOrEnd_again ?_⟩
    · exact (opened.add3 (value kind isExpression)).add1 (Or.inl rfl)
    · exact (opened.add1 name).add1 (Or.inl rfl)
  · intro between opened
    refine ⟨passing ⟨rfl, close opened, holds⟩, ⟨rfl, rfl, passing ⟨rfl, ?_, holds⟩⟩, rfl,
      ⟨rfl, fun kind isExpression => commaOrEnd_stop ⟨rfl, ?_, holds⟩⟩,
      commaOrEnd_stop ⟨rfl, ?_, holds⟩⟩
    · obtain ⟨inner, many, rfl⟩ := opened
      exact ⟨inner, _, many, .inr rfl, by simp⟩
    · exact close (opened.add3 (value kind isExpression))
    · exact close (opened.add1 name)

theorem block_leads (holds : goal [.rule .block]) : block.Leads goal [] := by
  refine ⟨rfl, leads_loop (Opened .leftBrace (One Kind.isStatement)) opened_start ?_ ?_⟩
  · intro between opened
    exact ⟨passing (never nofun), fun kind whole => passing (opened.add1 ⟨kind, whole, rfl⟩)⟩
  · intro between opened
    exact ⟨passing (passing ⟨rfl, opened.close, holds⟩), fun _ _ => never nofun⟩

theorem functionBody_leads (isAsync : Bool) (holds : goal [.rule .block]) :
    (functionBody isAsync).Leads goal [] :=
  block_leads holds

theorem functionName_leads {rule : Rule}
    (holds : ∀ name ∈ maybe (.rule .variableDefinition),
      (rule = .functionDeclaration → name ≠ []) → goal name) :
    (functionName rule).Leads goal [] := by
  refine ⟨⟨rfl, holds _ (by simp) nofun⟩, ?_⟩
  rintro ⟨_, _, _, _, other, -⟩
  exact holds _ (by simp) fun same => (other same).elim

theorem function_leads {rule : Rule} {isAsync : Bool} {modifier : List Kind}
    (isFunction : rule = .functionDeclaration ∨ rule = .functionExpression)
    (modified : modifier ∈ maybe (Shape.contextual .asyncWord)) (holds : goal [.rule rule]) :
    (function rule isAsync).Leads goal modifier := by
  have rest {star : List Kind} (starred : star ∈ maybe (.rule .star)) :
      (function.rest rule isAsync).Leads goal
        (modifier ++ [Shape.word .functionWord] ++ star) := by
    refine functionName_leads fun name named needed =>
      parameters_leads (functionBody_leads isAsync ⟨?_, holds⟩)
    obtain rfl | rfl := isFunction
    all_goals exact ⟨modifier, modified, star, starred, name, named, needed, by simp⟩
  refine ⟨rfl, ⟨rfl, rest (by simp)⟩, ?_⟩
  simpa using rest (by simp : [] ∈ maybe (.rule .star))

theorem asyncFunction_leads {rule : Rule}
    (isFunction : rule = .functionDeclaration ∨ rule = .functionExpression)
    (holds : goal [.rule rule]) : (asyncFunction rule).Leads goal [] :=
  ⟨rfl, passing (function_leads isFunction (by simp) holds)⟩

/-! ## Methods and classes -/

theorem propertyKey_leads (holds : ∀ key, Key key → goal key) : propertyKey.Leads goal [] := by
  have single {rule : Rule} (isKey : Kind.isKey (.rule rule) = true) : goal [.rule rule] :=
    holds _ ⟨.rule rule, .inl ⟨isKey, rfl⟩⟩
  refine ⟨⟨rfl, single rfl⟩, ⟨rfl, single rfl⟩, ⟨rfl, single rfl⟩, rfl, fun key whole => ⟨rfl, ?_⟩⟩
  exact holds _ ⟨key, .inr ⟨whole, rfl⟩⟩

theorem methodRest_leads (isAsync : Bool) (holds : goal [.rule .paramList, .rule .block]) :
    (methodRest isAsync).Leads goal [] :=
  parameters_leads (functionBody_leads isAsync holds)

/-- What follows the modifiers of a method is followed for each sort of
modifiers. -/
theorem leading_leads {asynchronous accessor generator plain : Phrase}
    (asyncLeads : ∀ words ∈ modifiers, asynchronous.Leads goal (kinds ++ words))
    (accessorLeads : ∀ words ∈ modifiers, accessor.Leads goal (kinds ++ words))
    (generatorLeads : ∀ words ∈ modifiers, generator.Leads goal (kinds ++ words))
    (plainLeads : plain.Leads goal kinds) :
    (leading (starred asynchronous asynchronous) accessor (starred generator plain)).Leads goal
      kinds := by
  refine ⟨⟨rfl, passing ⟨⟨rfl, ?_⟩, ?_⟩⟩, ⟨rfl, passing ?_⟩, ⟨rfl, passing ?_⟩, ⟨rfl, ?_⟩,
    plainLeads⟩
  · have both := asyncLeads [Shape.contextual .asyncWord, .rule .star] (by simp [modifiers])
    rwa [List.append_cons] at both
  · exact asyncLeads [Shape.contextual .asyncWord] (by simp [modifiers])
  · exact accessorLeads [Shape.contextual .getWord] (by simp [modifiers])
  · exact accessorLeads [Shape.contextual .setWord] (by simp [modifiers])
  · exact generatorLeads [.rule .star] (by simp [modifiers])

theorem method_leads (holds : goal [.rule .methodDeclaration]) : method.Leads goal [] := by
  have fromKey (isAsync : Bool) {static words : List Kind}
      (isStatic : static ∈ maybe (Shape.contextual .staticWord)) (modified : words ∈ modifiers) :
      (methodFromKey isAsync).Leads goal (static ++ words) :=
    propertyKey_leads fun key isKey => methodRest_leads isAsync
      ⟨⟨static, isStatic, words, modified, key, isKey, rfl⟩, holds⟩
  have fromWord {static : List Kind} (isStatic : static ∈ maybe (Shape.contextual .staticWord)) :
      methodFromWord.Leads goal static := by
    have plain := fromKey false isStatic (by simp [modifiers] : [] ∈ modifiers)
    rw [List.append_nil] at plain
    exact leading_leads (fun words modified => fromKey true isStatic modified)
      (fun words modified => fromKey false isStatic modified)
      (fun words modified => fromKey false isStatic modified) plain
  exact ⟨⟨rfl, passing (fromWord (by simp))⟩, fromWord (by simp)⟩

theorem classBody_leads (holds : goal [.rule .classBody]) : classBody.Leads goal [] := by
  refine ⟨rfl, leads_loop (Opened .leftBrace
    (OneOr (· == .rule .methodDeclaration) (Shape.sign .semicolon))) opened_start ?_ ?_⟩
  · intro between opened
    refine ⟨never nofun, ⟨rfl, passing (opened.add1 (.inr rfl))⟩, method_leads (passing ?_)⟩
    exact opened.add1 (.inl ⟨_, rfl, rfl⟩)
  · intro between opened
    exact ⟨passing ⟨rfl, opened.close, holds⟩, ⟨rfl, never nofun⟩, method_leads (never nofun)⟩

theorem classDefinition_leads {rule : Rule}
    (isClass : rule = .classDeclaration ∨ rule = .classExpression) (holds : goal [.rule rule]) :
    (classDefinition rule).Leads goal [] := by
  have rest {name heritage : List Kind} (named : name ∈ maybe (.rule .variableDefinition))
      (needed : rule = .classDeclaration → name ≠ [])
      (extending : heritage = [] ∨ ∃ parent, parent.isExpression = true ∧
        heritage = [Shape.word .extendsWord, parent]) :
      (seq (sub classBody) (reduce rule)).Leads goal
        (([Shape.word .classWord] ++ name) ++ heritage) := by
    refine classBody_leads ⟨?_, holds⟩
    obtain rfl | rfl := isClass
    all_goals exact ⟨name, named, needed, heritage, extending, by simp⟩
  have parents {name : List Kind} (named : name ∈ maybe (.rule .variableDefinition))
      (needed : rule = .classDeclaration → name ≠ []) :
      (seq (sub heritage) (seq (sub classBody) (reduce rule))).Leads goal
        ([Shape.word .classWord] ++ name) :=
    ⟨⟨rfl, fun parent isOperand => rest named needed
      (.inr ⟨parent, Kind.isExpression_of_isOperand isOperand, rfl⟩)⟩, rest named needed (.inl rfl)⟩
  refine ⟨rfl, passing ⟨rfl, parents (by simp) nofun⟩, ?_⟩
  rintro ⟨_, _, _, _, other, -⟩
  exact parents (by simp) fun same => (other same).elim

/-! ## Operands -/

/-- What a phrase that is read alone leads to: it collects one tree with a
label of some sort. -/
def LeadsOne (sort : Kind → Bool) (phrase : Phrase) : Prop :=
  ∀ {goal : Language}, (∀ kind : Kind, sort kind = true → goal [kind]) → phrase.Leads goal []

theorem spread_leads : spread.LeadsOne (· == .rule .spread) :=
  fun holds => ⟨rfl, fun value whole => ⟨⟨value, whole, rfl⟩, holds _ rfl⟩⟩

theorem element_leads : element.LeadsOne Kind.isElement := by
  refine fun holds => ⟨spread_leads fun kind isSpread => holds kind ?_,
    fun kind whole => holds kind ?_⟩
  · rw [eq_of_beq isSpread]
    rfl
  · exact Bool.or_eq_true_iff.mpr (.inl whole)

theorem arguments_leads (holds : goal [.rule .argList]) : arguments.Leads goal [] := by
  refine ⟨rfl, leads_loop (Opened .leftParen (OneOr Kind.isElement (Shape.sign .comma)))
    opened_start ?_ ?_⟩
  · intro between opened
    refine ⟨never nofun, element_leads fun kind whole => commaOrEnd_again ?_⟩
    exact (opened.add1 (.inl ⟨kind, whole, rfl⟩)).add1 (.inr rfl)
  · intro between opened
    refine ⟨passing ⟨rfl, opened.close, holds⟩, element_leads fun kind whole => ?_⟩
    exact commaOrEnd_stop ⟨rfl, (opened.add1 (.inl ⟨kind, whole, rfl⟩)).close, holds⟩

theorem array_leads : array.LeadsOne Kind.isOperand := by
  intro goal holds
  refine ⟨rfl, leads_loop (Opened .leftBracket (OneOr Kind.isElement (Shape.sign .comma)))
    opened_start ?_ ?_⟩
  · intro between opened
    refine ⟨passing (never nofun), ⟨rfl, passing (opened.add1 (.inr rfl))⟩,
      passing (element_leads fun kind whole => ?_)⟩
    have added := opened.add1 (.inl ⟨kind, whole, rfl⟩)
    exact ⟨passing (passing added), rfl, passing (added.add1 (.inr rfl))⟩
  · intro between opened
    refine ⟨passing (passing ⟨rfl, opened.close, holds _ rfl⟩), ⟨rfl, never nofun⟩,
      passing (element_leads fun kind whole => ⟨passing (never nofun), rfl, never nofun⟩)⟩

theorem property_leads : property.LeadsOne (· == .rule .property) := by
  intro goal holds
  have fromKey (isAsync : Bool) {words : List Kind} (modified : words ∈ modifiers) :
      (propertyMethod isAsync).Leads goal ([] ++ words) :=
    propertyKey_leads fun key isKey => methodRest_leads isAsync
      ⟨⟨words, modified, key, isKey, .inl rfl⟩, holds _ rfl⟩
  have plain : plainProperty.Leads goal [] := by
    have none : [] ∈ modifiers := by simp [modifiers]
    refine propertyKey_leads fun key isKey => ⟨passing (methodRest_leads false ⟨?_, holds _ rfl⟩),
      ⟨rfl, fun value whole => ⟨?_, holds _ rfl⟩⟩, passing ⟨?_, holds _ rfl⟩⟩
    · exact ⟨[], none, key, isKey, .inl rfl⟩
    · exact ⟨[], none, key, isKey, .inr ⟨rfl, .inr ⟨value, whole, by simp⟩⟩⟩
    · exact ⟨[], none, key, isKey, .inr ⟨rfl, .inl rfl⟩⟩
  exact leading_leads (fun words modified => fromKey true modified)
    (fun words modified => fromKey false modified) (fun words modified => fromKey false modified)
    plain

theorem object_leads : object.LeadsOne Kind.isOperand := by
  intro goal holds
  have entry : entry.LeadsOne Kind.isEntry := by
    refine fun holds => ⟨spread_leads fun kind isSpread => holds kind ?_,
      property_leads fun kind isProperty => holds kind ?_⟩
    · rw [eq_of_beq isSpread]
      rfl
    · rw [eq_of_beq isProperty]
      rfl
  refine ⟨rfl, leads_loop (Opened .leftBrace (OneOr Kind.isEntry (Shape.sign .comma)))
    opened_start ?_ ?_⟩
  · intro between opened
    refine ⟨never nofun, entry fun kind whole => commaOrEnd_again ?_⟩
    exact (opened.add1 (.inl ⟨kind, whole, rfl⟩)).add1 (.inr rfl)
  · intro between opened
    refine ⟨passing ⟨rfl, opened.close, holds _ rfl⟩, entry fun kind whole => ?_⟩
    exact commaOrEnd_stop ⟨rfl, (opened.add1 (.inl ⟨kind, whole, rfl⟩)).close, holds _ rfl⟩

theorem LeadsOne.mono {sort weaker : Kind → Bool} {phrase : Phrase}
    (implies : ∀ {kind}, sort kind = true → weaker kind = true) (leads : phrase.LeadsOne sort) :
    phrase.LeadsOne weaker :=
  fun holds => leads fun kind isSort => holds kind (implies isSort)

theorem parenthesized_leads : parenthesized.LeadsOne Kind.isOperand :=
  fun holds => ⟨rfl, fun kind whole => ⟨rfl, ⟨kind, whole, rfl⟩, holds _ rfl⟩⟩

/-- The parenthesized test of a statement. -/
theorem test_leads : parenthesized.LeadsOne Kind.isExpression :=
  parenthesized_leads.mono Kind.isExpression_of_isOperand

theorem primary_leads : primary.LeadsOne Kind.isOperand := by
  intro goal holds kind
  dsimp only
  split
  · exact ⟨asyncFunction_leads (.inr rfl) (holds _ rfl), rfl, holds _ rfl⟩
  · exact ⟨rfl, holds _ rfl⟩
  · exact ⟨rfl, holds _ rfl⟩
  · exact ⟨rfl, holds _ rfl⟩
  · exact function_leads (.inr rfl) (by simp) (holds _ rfl)
  · exact classDefinition_leads (.inr rfl) (holds _ rfl)
  · exact parenthesized_leads holds
  · exact array_leads holds
  · exact object_leads holds
  · exact holds _ rfl
  · exact impossible

/-- Trees that stand behind an operand become one whole with it. -/
theorem memberChain_leads {allowCall : Bool} {kind : Kind} (isOperand : kind.isOperand = true)
    (holds : ∀ kind : Kind, kind.isOperand = true → goal [kind]) :
    (loop (memberRound allowCall)).Leads goal [kind] := by
  refine leads_loop (One Kind.isOperand) ⟨kind, isOperand, rfl⟩ ?_ ?_
  · rintro - ⟨operand, isOperand, rfl⟩
    have whole := Kind.isExpression_of_isOperand isOperand
    have result {rule : Rule} (isOperand : (Kind.rule rule).isOperand = true) :
        One Kind.isOperand [.rule rule] :=
      ⟨.rule rule, isOperand, rfl⟩
    refine ⟨⟨rfl, rfl, ⟨operand, whole, .inl rfl⟩, passing (result rfl)⟩,
      ⟨rfl, fun key keyWhole => ⟨rfl, ⟨operand, whole, .inr ⟨key, keyWhole, rfl⟩⟩,
        passing (result rfl)⟩⟩,
      passing (arguments_leads ⟨⟨operand, whole, rfl⟩, passing (result rfl)⟩),
      ⟨⟨operand, whole, rfl⟩, passing (result rfl)⟩, passing (never nofun)⟩
  · rintro - ⟨operand, isOperand, rfl⟩
    have whole := Kind.isExpression_of_isOperand isOperand
    exact ⟨⟨rfl, rfl, ⟨operand, whole, .inl rfl⟩, never nofun⟩,
      ⟨rfl, fun key keyWhole => ⟨rfl, ⟨operand, whole, .inr ⟨key, keyWhole, rfl⟩⟩,
        never nofun⟩⟩,
      passing (arguments_leads ⟨⟨operand, whole, rfl⟩, never nofun⟩),
      ⟨⟨operand, whole, rfl⟩, never nofun⟩, passing (passing (holds operand isOperand))⟩

theorem construction_leads : construction.LeadsOne Kind.isOperand := by
  intro goal holds
  have rest (callee : Kind) (isOperand : callee.isOperand = true) :
      ((all [.sub arguments, .reduce .newExpression] <|> .reduce .newExpression).Leads goal
        ([Shape.word .newWord] ++ [callee])) := by
    have whole := Kind.isExpression_of_isOperand isOperand
    exact ⟨arguments_leads ⟨⟨callee, whole, _, by simp, rfl⟩, holds _ rfl⟩,
      ⟨callee, whole, [], by simp, rfl⟩, holds _ rfl⟩
  refine ⟨rfl, passing fun kind whole => memberChain_leads whole rest, ?_⟩
  exact primary_leads fun kind whole => memberChain_leads whole rest

theorem leftHandSide_leads : leftHandSide.LeadsOne Kind.isOperand :=
  fun holds => ⟨construction_leads fun _ whole => memberChain_leads whole holds,
    primary_leads fun _ whole => memberChain_leads whole holds⟩

/-! ## Operators -/

theorem prefixKind_operator {kind : TokenKind} {label : Kind}
    (found : prefixKind? kind = some label) :
    (label.isOperator = true ∨ label = .rule .updateOp) ∧ label.isTerminal = true := by
  unfold prefixKind? at found
  split at found
  all_goals simp only [Option.some.injEq, reduceCtorEq] at found
  all_goals subst found; simp [Kind.isOperator, Kind.isTerminal, Rule.isTerminal]

theorem binaryOperator_operator {kind : TokenKind} {operator : BinaryOperator} {noIn : Bool}
    (found : BinaryOperator.ofToken? kind noIn = some operator) :
    operator.kind.isOperator = true ∧ operator.kind.isTerminal = true := by
  unfold BinaryOperator.ofToken? BinaryOperator.ofPunctuator? at found
  repeat' split at found
  all_goals simp only [Option.some.injEq, reduceCtorEq] at found
  all_goals subst found; exact ⟨rfl, rfl⟩

theorem unary_leads : unary.LeadsOne Kind.isOperand := by
  intro goal holds kind
  dsimp only
  split
  case h_1 label found =>
    obtain ⟨isOperator, terminal⟩ := prefixKind_operator found
    exact passing ⟨terminal, fun operand isOperand => passing
      ⟨⟨label, operand, isOperator, Kind.isExpression_of_isOperand isOperand, rfl⟩, holds _ rfl⟩⟩
  case h_2 =>
    refine ⟨passing ⟨rfl, fun operand isOperand => ⟨⟨operand, ?_, rfl⟩, holds _ rfl⟩⟩,
      leftHandSide_leads fun operand isOperand => ⟨?_, passing (holds operand isOperand)⟩⟩
    · exact Kind.isExpression_of_isOperand isOperand
    · exact passing (passing ⟨rfl, ⟨operand, Kind.isExpression_of_isOperand isOperand, rfl⟩,
        holds _ rfl⟩)

theorem binary_leads (level : Nat) : (binary level).LeadsOne Kind.isExpression := by
  intro goal holds
  refine unary_leads fun kind isOperand => leads_loop (One Kind.isExpression)
    ⟨kind, Kind.isExpression_of_isOperand isOperand, rfl⟩ ?_ ?_
  · rintro - ⟨operand, whole, rfl⟩
    refine ⟨fun kind => ?_, passing (never nofun)⟩
    dsimp only
    split
    case h_1 operator found =>
      obtain ⟨isOperator, terminal⟩ := binaryOperator_operator found
      exact passing ⟨terminal, fun right rightWhole =>
        ⟨⟨operand, _, right, whole, isOperator, rightWhole, rfl⟩, passing ⟨_, rfl, rfl⟩⟩⟩
    case h_2 => exact impossible
  · rintro - ⟨operand, whole, rfl⟩
    refine ⟨fun kind => ?_, passing (passing (holds operand whole))⟩
    dsimp only
    split
    case h_1 operator found =>
      obtain ⟨isOperator, terminal⟩ := binaryOperator_operator found
      exact passing ⟨terminal, fun right rightWhole =>
        ⟨⟨operand, _, right, whole, isOperator, rightWhole, rfl⟩, never nofun⟩⟩
    case h_2 => exact impossible

theorem conditional_leads : conditional.LeadsOne Kind.isExpression :=
  fun holds => binary_leads _ fun test whole =>
    ⟨⟨rfl, fun consequent consequentWhole => ⟨rfl, fun alternate alternateWhole =>
      ⟨⟨test, consequent, alternate, whole, consequentWhole, alternateWhole, rfl⟩,
        holds _ rfl⟩⟩⟩, holds test whole⟩

/-! ## Assignments and sequences -/

theorem arrowRest_leads {isAsync : Bool} {modifier : List Kind} {inputs : Kind}
    (modified : modifier ∈ maybe (Shape.contextual .asyncWord))
    (isInput : inputs = .rule .variableDefinition ∨ inputs = .rule .paramList)
    (holds : goal [.rule .arrowFunction]) :
    (arrowRest isAsync).Leads goal (modifier ++ [inputs]) := by
  have takes (body : Kind) (whole : body.isExpression = true ∨ body = .rule .block) :
      Rule.arrowFunction.Takes (modifier ++ [inputs] ++ [Shape.sign .arrow] ++ [body]) :=
    ⟨modifier, modified, inputs, body, isInput, whole, by simp⟩
  exact ⟨rfl, passing (functionBody_leads isAsync ⟨takes _ (.inr rfl), holds⟩),
    passing fun body whole => ⟨takes body (.inl whole), holds⟩⟩

theorem arrow_leads (holds : goal [.rule .arrowFunction]) : arrow.Leads goal [] := by
  have rest (isAsync : Bool) {modifier : List Kind}
      (modified : modifier ∈ maybe (Shape.contextual .asyncWord)) :
      (seq inputs (arrowRest isAsync)).Leads goal modifier :=
    ⟨⟨rfl, arrowRest_leads modified (.inl rfl) holds⟩,
      parameters_leads (arrowRest_leads modified (.inr rfl) holds)⟩
  exact ⟨⟨rfl, passing (rest true (by simp))⟩, rest false (by simp)⟩

theorem assigned_leads : assigned.LeadsOne Kind.isExpression := by
  intro goal holds
  refine conditional_leads fun target whole kind => ?_
  dsimp only
  split
  case h_1 rule found =>
    have isAssignment : rule = .equals ∨ rule = .assignOp := by
      unfold assignmentKind? at found
      split at found
      all_goals simp_all
    refine passing ⟨?_, fun value valueWhole =>
      ⟨⟨target, .rule rule, value, whole, ?_, valueWhole, rfl⟩, holds _ rfl⟩⟩
    · obtain rfl | rfl := isAssignment
      all_goals rfl
    · obtain rfl | rfl := isAssignment
      all_goals simp
  case h_2 => exact holds target whole

theorem assignment_leads : assignment.LeadsOne Kind.isExpression :=
  fun holds => ⟨arrow_leads (holds _ rfl), assigned_leads holds⟩

theorem expression_leads : expression.LeadsOne Kind.isExpression := by
  refine fun holds kind whole => ⟨passing (leads_loop (Separated (One Kind.isExpression)) ?_ ?_ ?_),
    passing (holds kind whole)⟩
  · exact separated_one ⟨kind, whole, rfl⟩
  · exact fun between separated => ⟨⟨rfl, fun kind whole =>
      passing (separated.add ⟨kind, whole, rfl⟩)⟩, passing (never nofun)⟩
  · exact fun between separated => ⟨⟨rfl, fun _ _ => never nofun⟩,
      passing (passing ⟨separated, holds _ rfl⟩)⟩

/-! ## Declarations -/

theorem terminator_leads
    (holds : ∀ ending ∈ maybe (Shape.sign .semicolon), goal (kinds ++ ending)) :
    terminator.Leads goal kinds := by
  refine ⟨⟨rfl, holds _ (by simp)⟩, passing ?_⟩
  simpa using holds [] (by simp)

theorem declarationRest_leads (noIn : Bool) {keyword : Kind}
    (holds : ∀ inner, Separated Declarator inner → goal (keyword :: inner)) :
    (declarationRest noIn).Leads goal ([keyword] ++ [.rule .variableDefinition]) := by
  -- The last name that is bound has no value yet.
  let bound : Language := fun kinds => ∃ earlier, Many (fun part => ∃ kept, Declarator kept ∧
    part = kept ++ [Shape.sign .comma]) earlier ∧
      kinds = keyword :: (earlier ++ [.rule .variableDefinition])
  have name : Declarator [.rule .variableDefinition] := .inl rfl
  have value (kind : Kind) (whole : kind.isExpression = true) :
      Declarator [.rule .variableDefinition, .rule .equals, kind] :=
    .inr ⟨kind, whole, rfl⟩
  refine leads_loop bound ⟨[], many_nil, rfl⟩ ?_ ?_
  · rintro - ⟨earlier, many, rfl⟩
    refine ⟨⟨rfl, fun kind whole => ⟨⟨rfl, rfl, passing ?_⟩, never nofun⟩⟩,
      ⟨rfl, rfl, passing ?_⟩, never nofun⟩
    · exact ⟨_, many_snoc many ⟨_, value kind whole, rfl⟩, by simp⟩
    · exact ⟨_, many_snoc many ⟨_, name, rfl⟩, by simp⟩
  · rintro - ⟨earlier, many, rfl⟩
    refine ⟨⟨rfl, fun kind whole => ⟨⟨rfl, rfl, never nofun⟩, passing ?_⟩⟩,
      ⟨rfl, rfl, never nofun⟩, passing ?_⟩
    · simpa using holds _ ⟨earlier, _, many, value kind whole, rfl⟩
    · exact holds _ ⟨earlier, _, many, name, rfl⟩

theorem declaration_leads {word : Keyword} (declares : word ∈ [.varWord, .letWord, .constWord])
    (holds : goal [.rule .variableDeclaration]) : (declaration word).Leads goal [] := by
  refine ⟨rfl, rfl, declarationRest_leads false fun inner separated =>
    terminator_leads fun ending ended => ⟨⟨Shape.word word, ?_, inner, separated, ending, ended,
      rfl⟩, holds⟩⟩
  simpa using declares

/-! ## Statements with parts -/

theorem ifStatement_leads : ifStatement.LeadsOne Kind.isStatement := by
  refine fun holds => ⟨rfl, test_leads fun test whole => fun body bodyWhole => ⟨⟨rfl,
    fun other otherWhole => ⟨?_, holds _ rfl⟩⟩, passing ⟨?_, holds _ rfl⟩⟩⟩
  · exact ⟨test, body, whole, bodyWhole, .inr ⟨other, otherWhole, rfl⟩⟩
  · exact ⟨test, body, whole, bodyWhole, .inl rfl⟩

theorem whileStatement_leads : whileStatement.LeadsOne Kind.isStatement :=
  fun holds => ⟨rfl, test_leads fun test whole => fun body bodyWhole =>
    ⟨⟨test, body, whole, bodyWhole, rfl⟩, holds _ rfl⟩⟩

theorem doStatement_leads : doStatement.LeadsOne Kind.isStatement := by
  refine fun holds => ⟨rfl, fun body bodyWhole => ⟨rfl, test_leads fun test whole =>
    ⟨⟨rfl, ?_, holds _ rfl⟩, ?_, holds _ rfl⟩⟩⟩
  · exact ⟨body, test, bodyWhole, whole, _, by simp, rfl⟩
  · exact ⟨body, test, bodyWhole, whole, [], by simp, rfl⟩

theorem expressionBefore_leads (sign : Punctuator)
    (holds : ∀ part, part = [] ∨ One Kind.isExpression part → goal part) :
    (expressionBefore sign).Leads goal [] :=
  ⟨passing (holds [] (.inl rfl)), fun kind whole => holds [kind] (.inr ⟨kind, whole, rfl⟩)⟩

theorem countingRest_leads {init : List Kind}
    (isInit : init = [] ∨ One Kind.isExpression init ∨ init = [.rule .variableDeclaration])
    (holds : goal [.rule .forSpec]) :
    countingRest.Leads goal (Shape.sign .leftParen :: init) :=
  ⟨rfl, expressionBefore_leads .semicolon fun test isTest => ⟨rfl,
    expressionBefore_leads .rightParen fun update isUpdate => ⟨rfl,
      ⟨init, test, update, isInit, isTest, isUpdate, by simp⟩, holds⟩⟩⟩

theorem iterationRest_leads {target : List Kind}
    (isTarget : One Kind.isExpression target ∨ ∃ keyword ∈ [Shape.word .varWord,
      Shape.word .letWord, Shape.word .constWord], target = [keyword, .rule .variableDefinition])
    (overKeys : goal [.rule .forInSpec]) (overItems : goal [.rule .forOfSpec]) :
    iterationRest.Leads goal (Shape.sign .leftParen :: target) :=
  ⟨⟨rfl, fun subject whole => ⟨rfl, ⟨target, subject, whole, isTarget, by simp⟩, overKeys⟩⟩,
    rfl, fun subject whole => ⟨rfl, ⟨target, subject, whole, isTarget, by simp⟩, overItems⟩⟩

theorem forHead_leads (holds : ∀ head ∈ [Kind.rule .forSpec, .rule .forInSpec, .rule .forOfSpec],
    goal [head]) : forHead.Leads goal [] := by
  have counting := holds (.rule .forSpec) (by simp)
  have overKeys := holds (.rule .forInSpec) (by simp)
  have overItems := holds (.rule .forOfSpec) (by simp)
  refine ⟨rfl, countingRest_leads (.inl rfl) counting, fun kind => ?_⟩
  dsimp only
  split
  case h_1 word found =>
    have declaring : word ∈ [Keyword.varWord, .letWord, .constWord] := by
      unfold declares at found
      split at found
      all_goals simp_all
    have isWord : Shape.word word ∈ [Shape.word .varWord, Shape.word .letWord,
        Shape.word .constWord] := by
      simpa using declaring
    refine ⟨⟨rfl, rfl, iterationRest_leads (.inr ⟨_, isWord, rfl⟩) overKeys overItems⟩,
      rfl, rfl, declarationRest_leads true fun inner separated => ⟨?_, ?_⟩⟩
    · exact ⟨_, isWord, inner, separated, [], by simp, by simp⟩
    · exact countingRest_leads (.inr (.inr rfl)) counting
  case h_2 =>
    refine expression_leads fun kind whole => ⟨passing ?_, ?_⟩
    · exact iterationRest_leads (.inl ⟨kind, whole, rfl⟩) overKeys overItems
    · exact countingRest_leads (.inr (.inl ⟨kind, whole, rfl⟩)) counting

theorem forStatement_leads : forStatement.LeadsOne Kind.isStatement :=
  fun holds => ⟨rfl, forHead_leads fun head isHead body whole =>
    ⟨⟨head, isHead, body, whole, rfl⟩, holds _ rfl⟩⟩

theorem tryStatement_leads : tryStatement.LeadsOne Kind.isStatement := by
  intro goal holds
  have handler {goal : Language} (holds : ∀ handler ∈ maybe (.rule .catchClause), goal handler) :
      (handler <|> .done).Leads goal [] := by
    refine ⟨⟨rfl, ⟨rfl, rfl, rfl, block_leads ⟨?_, holds _ (by simp)⟩⟩,
      block_leads ⟨?_, holds _ (by simp)⟩⟩, holds [] (by simp)⟩
    · exact ⟨_, .inr rfl, rfl⟩
    · exact ⟨[], .inl rfl, rfl⟩
  have finalizer {goal : Language}
      (holds : ∀ finalizer ∈ maybe (.rule .finallyClause), goal finalizer) :
      (finalizer <|> .done).Leads goal [] :=
    ⟨⟨rfl, block_leads ⟨rfl, holds _ (by simp)⟩⟩, holds [] (by simp)⟩
  refine ⟨rfl, block_leads (handler fun caught isCaught => finalizer fun finish isFinish => ?_)⟩
  refine longer fun long => ⟨⟨caught, isCaught, finish, isFinish, ?_, by simp⟩, holds _ rfl⟩
  intro empty
  rw [List.append_assoc, empty] at long
  exact absurd long (by decide)

theorem switchStatement_leads : switchStatement.LeadsOne Kind.isStatement := by
  intro goal holds
  refine ⟨rfl, test_leads fun subject whole => ⟨rfl, leads_loop
    (fun kinds => ∃ inner, Cases inner ∧ kinds = Shape.sign .leftBrace :: inner)
    ⟨[], .inl rfl, rfl⟩ ?_ ?_⟩⟩
  · rintro - ⟨inner, cases, rfl⟩
    have label {kind : Kind} (isLabel : kind = .rule .caseLabel ∨ kind = .rule .defaultLabel) :
        Cases (inner ++ [kind]) :=
      cases.add (by simp [isLabel]) fun _ => isLabel
    refine ⟨never nofun, ⟨rfl, fun test testWhole => ⟨rfl, ⟨test, testWhole, rfl⟩, passing ?_⟩⟩,
      ⟨rfl, rfl, rfl, passing ?_⟩, longer fun long kind kindWhole => passing ?_⟩
    · exact ⟨_, label (.inl rfl), rfl⟩
    · exact ⟨_, label (.inr rfl), rfl⟩
    · refine ⟨_, cases.add (.inl kindWhole) ?_, rfl⟩
      rintro rfl
      exact absurd long (by decide)
  · rintro - ⟨inner, cases, rfl⟩
    refine ⟨passing ⟨rfl, ⟨inner, cases, rfl⟩, ⟨subject, whole, rfl⟩, holds _ rfl⟩,
      ⟨rfl, fun test testWhole => ⟨rfl, ⟨test, testWhole, rfl⟩, never nofun⟩⟩,
      ⟨rfl, rfl, rfl, never nofun⟩, passing fun _ _ => never nofun⟩

/-! ## Statements -/

theorem expressionStatement_leads : expressionStatement.LeadsOne Kind.isStatement :=
  fun holds => expression_leads fun value whole => terminator_leads fun ending ended =>
    ⟨⟨value, whole, ending, ended, rfl⟩, holds _ rfl⟩

theorem nameStatement_leads : nameStatement.LeadsOne Kind.isStatement :=
  fun holds => ⟨⟨rfl, rfl, fun body whole => ⟨⟨body, whole, rfl⟩, holds _ rfl⟩⟩,
    asyncFunction_leads (.inl rfl) (holds _ rfl), expressionStatement_leads holds⟩

theorem returnStatement_leads : returnStatement.LeadsOne Kind.isStatement := by
  refine fun holds => passing ⟨rfl, passing (expression_leads fun value whole =>
    terminator_leads fun ending ended => ⟨?_, holds _ rfl⟩),
    terminator_leads fun ending ended => ⟨?_, holds _ rfl⟩⟩
  · exact ⟨.returnWord, [value], _, by simp, .inr ⟨value, whole, rfl⟩, ending, ended, rfl⟩
  · exact ⟨.returnWord, [], Kind.isExpression, by simp, .inl rfl, ending, ended, rfl⟩

theorem jumpStatement_leads {rule : Rule} {word : Keyword}
    (jumps : (rule, word) ∈ [(Rule.breakStatement, Keyword.breakWord),
      (.continueStatement, .continueWord)]) :
    (jumpStatement rule word).LeadsOne Kind.isStatement := by
  have takes (target ending : List Kind) (isTarget : target = [] ∨ One (· == .rule .label) target)
      (ended : ending ∈ maybe (Shape.sign .semicolon)) :
      rule.Takes (Shape.word word :: (target ++ ending)) := by
    simp only [List.mem_cons, Prod.mk.injEq, List.not_mem_nil, or_false] at jumps
    obtain ⟨rfl, rfl⟩ | ⟨rfl, rfl⟩ := jumps
    all_goals exact ⟨_, target, _, by simp, isTarget, ending, ended, rfl⟩
  have whole : rule.isStatement = true := by
    simp only [List.mem_cons, Prod.mk.injEq, List.not_mem_nil, or_false] at jumps
    obtain ⟨rfl, rfl⟩ | ⟨rfl, rfl⟩ := jumps
    all_goals rfl
  intro goal holds
  refine ⟨rfl, passing ⟨rfl, terminator_leads fun ending ended =>
    ⟨?_, holds (.rule rule) whole⟩⟩, terminator_leads fun ending ended =>
    ⟨?_, holds (.rule rule) whole⟩⟩
  · exact takes [.rule .label] ending (.inr ⟨_, rfl, rfl⟩) ended
  · exact takes [] ending (.inl rfl) ended

theorem throwStatement_leads : throwStatement.LeadsOne Kind.isStatement :=
  fun holds => ⟨rfl, passing (expression_leads fun value whole => terminator_leads
    fun ending ended => ⟨⟨value, whole, ending, ended, rfl⟩, holds _ rfl⟩)⟩

theorem keywordStatement_leads (word : Keyword) :
    (keywordStatement word).LeadsOne Kind.isStatement := by
  intro goal holds
  unfold keywordStatement
  split
  · exact declaration_leads (by simp) (holds _ rfl)
  · exact declaration_leads (by simp) (holds _ rfl)
  · exact declaration_leads (by simp) (holds _ rfl)
  · exact function_leads (.inl rfl) (by simp) (holds _ rfl)
  · exact classDefinition_leads (.inl rfl) (holds _ rfl)
  · exact ifStatement_leads holds
  · exact whileStatement_leads holds
  · exact doStatement_leads holds
  · exact forStatement_leads holds
  · exact tryStatement_leads holds
  · exact switchStatement_leads holds
  · exact returnStatement_leads holds
  · exact jumpStatement_leads (by simp) holds
  · exact jumpStatement_leads (by simp) holds
  · exact throwStatement_leads holds
  · exact ⟨rfl, terminator_leads fun ending ended => ⟨⟨ending, ended, rfl⟩, holds _ rfl⟩⟩
  · exact expressionStatement_leads holds

theorem statement_leads : statement.LeadsOne Kind.isStatement := by
  intro goal holds kind
  dsimp only
  split
  · exact block_leads (holds _ rfl)
  · exact ⟨rfl, rfl, holds _ rfl⟩
  · exact keywordStatement_leads _ holds
  · exact nameStatement_leads holds
  · exact expressionStatement_leads holds

theorem ofGoal_leads (asked : Goal) : (ofGoal asked).LeadsOne (·.answers asked) := by
  cases asked with
  | statement => exact statement_leads
  | expression => exact expression_leads
  | assignment => exact assignment_leads
  | binary level => exact binary_leads level
  | unary => exact unary_leads
  | leftHandSide => exact leftHandSide_leads
  | construction => exact construction_leads

end Phrase

variable {settings : Settings} {holds : Point → List SyntaxTree → Point → Prop}

/-- What goes from parts to the whole holds of every tree of the grammar. -/
theorem Composes.closed (composes : Composes settings holds) :
    Closed settings (madeOf holds) := by
  intro goal scope point last tree reads
  have leads : (Phrase.ofGoal goal).Leads (One (·.answers goal)) [] :=
    Phrase.ofGoal_leads goal fun kind whole => ⟨kind, whole, rfl⟩
  obtain ⟨related, kind, whole, same⟩ :=
    Phrase.reads_holds composes leads (composes.none point) reads
  obtain rfl : tree.label = kind := by simpa using same
  exact ⟨related, whole⟩

/-- What goes from parts to the whole holds of every text that is read, up to
its end. -/
theorem Composes.parseWith (composes : Composes settings holds) {tree : SyntaxTree}
    (run : parseWith settings = .ok tree) :
    ∃ trees last token, tree = .node (.rule .script) ⟨0, settings.size⟩ trees ∧
      holds (State.initial settings.source).point trees last ∧
      (∀ tree ∈ trees, tree.label.isStatement = true) ∧
      last.next settings.dialect = .ok token ∧ token.isEnd = true := by
  obtain ⟨trees, last, rfl, middle, between, rounds, final⟩ := parseWith_reads composes.closed run
  -- Each round adds a statement, and the last one is at the end of the text.
  let statements : Language := fun kinds => ∀ kind ∈ kinds, kind.isStatement = true
  have leads : (Phrase.many (Phrase.scriptRound true)).Leads statements [] := by
    refine ⟨statements, by simp [statements], fun _ met => met, fun kinds met => ⟨?_, ?_⟩⟩
    · exact Phrase.passing (Phrase.never nofun)
    · intro kind whole
      refine Phrase.passing ?_
      simp only [statements, List.mem_append, List.mem_singleton, or_imp, forall_and, forall_eq]
      exact ⟨met, whole⟩
  obtain ⟨related, met⟩ := Phrase.reads_holds composes leads (composes.none _) rounds
  obtain ⟨_, _, ⟨⟨token, scanned, ends⟩, rfl, rfl⟩, -, rfl, rfl⟩ |
    ⟨_, _, -, absurd, -⟩ := final
  · exact ⟨_, _, token, rfl, related, by simpa [statements] using met, scanned, ends⟩
  · cases absurd

end Grammar

end ScriptTree
