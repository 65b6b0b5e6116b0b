import ScriptTree.Proofs.Grammar.Lookahead

/-!
# Phrases of functions, methods and classes
-/

namespace ScriptTree

namespace Grammar

namespace Phrase

/-- The end of a round of a list: a comma and another round, or neither. -/
def commaOrEnd (again : Bool) : Phrase :=
  .all [.sign .comma, .leave again true] <|> .leave again false

def parameter (again : Bool) : Phrase :=
  .leave again false <|>
    .all [.sign .ellipsis, .named .variableDefinition, .leave again false] <|>
    .all [.named .variableDefinition,
      .all [.named .equals, .ask .assignment, commaOrEnd again] <|> commaOrEnd again]

def parameters : Phrase :=
  .within (.withNoIn false)
    (.all [.sign .leftParen, .loop parameter, .sign .rightParen, .reduce .paramList])

def statementRound (again : Bool) : Phrase :=
  .all [.ahead (·.isPunctuator .rightBrace), .leave again false] <|>
    .all [.ask .statement, .leave again true]

/-- Statements between braces. -/
def block : Phrase :=
  .all [.sign .leftBrace, .loop statementRound, .sign .rightBrace, .reduce .block]

def functionBody (isAsync : Bool) : Phrase :=
  .within (.functionBody isAsync) block

/-- The name of a function, which only an expression can do without. -/
def functionName (rule : Rule) : Phrase :=
  .named .variableDefinition <|> .given fun _ _ _ _ => rule ≠ .functionDeclaration

/-- A function from its keyword on. -/
def function (rule : Rule) (isAsync : Bool) : Phrase :=
  .all [.word .functionWord, .all [.named .star, rest] <|> rest]
where
  /-- A function from its name on. -/
  rest : Phrase :=
    .all [.sub (functionName rule), .sub parameters, .sub (functionBody isAsync), .reduce rule]

/-- A modifier, which must stand in the same line as what follows it if that
is asked for. -/
def modifier (word : ContextualWord) (sameLine : Bool) : Phrase :=
  .all [.contextual word, .sameLine sameLine]

def asyncFunction (rule : Rule) : Phrase :=
  .all [.modifier .asyncWord true, .function rule true]

/-- The word for an asynchronous method or an accessor, followed by what suits
it. -/
def leading (asynchronous accessor plain : Phrase) : Phrase :=
  .all [.modifier .asyncWord true, asynchronous] <|> .all [.modifier .getWord false, accessor] <|>
    .all [.modifier .setWord false, accessor] <|> plain

/-- A star, if there is one, followed by what suits it. -/
def starred (generator plain : Phrase) : Phrase :=
  .all [.named .star, generator] <|> plain

def propertyKey : Phrase :=
  .named .propertyDefinition <|> .named .string <|> .named .number <|>
    .all [.sign .leftBracket, .within (.withNoIn false) (.ask .assignment), .sign .rightBracket]

def methodRest (isAsync : Bool) : Phrase :=
  .all [.sub parameters, .sub (functionBody isAsync)]

def methodFromKey (isAsync : Bool) : Phrase :=
  .all [.sub propertyKey, .sub (methodRest isAsync), .reduce .methodDeclaration]

def methodFromWord : Phrase :=
  leading (starred (methodFromKey true) (methodFromKey true)) (methodFromKey false)
    (starred (methodFromKey false) (methodFromKey false))

def method : Phrase :=
  .all [.modifier .staticWord false, methodFromWord] <|> methodFromWord

/-- The name of a class, which only an expression can do without. -/
def className (rule : Rule) : Phrase :=
  .all [.ahead fun token => !isExtends token, .named .variableDefinition] <|>
    .given fun _ _ _ _ => rule ≠ .classDeclaration

/-- The class another one extends. -/
def heritage : Phrase :=
  .all [.word .extendsWord, .ask .leftHandSide] <|> .done

def classRound (again : Bool) : Phrase :=
  .leave again false <|> .all [.sign .semicolon, .leave again true] <|>
    .all [.sub method, .leave again true]

def classBody : Phrase :=
  .within (.withNoIn false)
    (.all [.sign .leftBrace, .loop classRound, .sign .rightBrace, .reduce .classBody])

def classDefinition (rule : Rule) : Phrase :=
  .all [.word .classWord, .sub (className rule), .sub heritage, .sub classBody, .reduce rule]

end Phrase

variable {settings : Settings} {category : Category}

open Implements

theorem parameter_rounds :
    Rounds settings category Phrase.parameter Array.toList Array.toList
      (fun trees descent => parameter descent trees) := by
  intro trees
  unfold parameter
  refine test_ite rfl (stop rfl) ?_
  refine accept_then (fun dots => ?_) ?_
  · refine takes_definition.andThen fun name => ?_
    exact stop (by simp)
  · refine takes_definition.andThen fun name => ?_
    refine test_ite rfl ?_ ?_
    · refine (takes fun _ _ holds => holds.2).andThen fun equals => ?_
      refine ask.andThen fun value => ?_
      exact accept_then (fun comma => again (by simp)) (stop (by simp))
    · exact accept_then (fun comma => again (by simp)) (stop (by simp))

theorem parameters_produces : Produces settings category .parameters parameters := by
  unfold parameters
  refine withIn ?_
  refine andThen takes_sign fun opening => ?_
  refine andThen (collects rfl parameter_rounds) fun trees => ?_
  refine andThen takes_sign fun closing => ?_
  exact reduces (by simp)

theorem block_produces : Produces settings category .block block := by
  unfold block
  refine andThen takes_sign fun opening => ?_
  refine andThen (collects rfl fun trees => ?_) fun trees => ?_
  · refine peek_then fun token => ite (fun closes => ?_) fun _ => ite (fun _ => fail) fun _ => ?_
    · exact inl (given (fun _ _ holds => ⟨token, holds.2, closes⟩) (stop rfl))
    · exact inr (andThen ask fun statement => again (by simp))
  · refine andThen takes_sign fun closing => ?_
    exact reduces (by simp)

theorem functionBody_produces {isAsync : Bool} :
    Produces settings category (.functionBody isAsync) (functionBody · isAsync) :=
  inFunctionBody block_produces

theorem functionName_produces {rule : Rule} :
    ProducesAll settings category (.functionName rule) (fun _ => functionName rule) := by
  unfold functionName
  refine peek_then fun token => ite (fun named => ?_) fun _ => ite (fun _ => fail) fun other => ?_
  · exact inl (mapped (takes fun _ _ holds => ⟨token, holds.2, named⟩) fun _ => rfl)
  · exact inr (yields fun _ _ _ => ⟨other, rfl, rfl⟩)

theorem function_implements (rule : Rule) (modifier : Option SyntaxTree) :
    Implements settings category anywhere modifier.toList
      (fun _ => .function rule modifier.isSome) (fun tree => [tree])
      (function · rule modifier) := by
  unfold function
  simp only [bind_map_left, pure_bind]
  refine nested ?_
  refine andThen takes_word fun keyword => ?_
  have rest {pre : Scope → Point → Prop} {trees : List SyntaxTree} (star : Option SyntaxTree)
      (same : trees = modifier.toList ++ keyword :: star.toList) :
      Implements settings category pre trees (fun _ => Phrase.function.rest rule modifier.isSome)
        (fun tree => [tree]) (fun descent => do
          let name ← functionName rule
          let inputs ← parameters descent
          let body ← functionBody descent modifier.isSome
          return build rule
            (modifier.toList ++ keyword :: (star.toList ++ name ++ [inputs, body]))) := by
    refine andThen (sub functionName_produces) fun name => ?_
    refine andThen (sub parameters_produces) fun inputs => ?_
    refine andThen (sub functionBody_produces) fun body => ?_
    exact reduces (by simp [same])
  refine test_ite rfl ?_ (rest none (by simp))
  exact andThen (takes fun _ _ holds => holds.2) fun star => rest (some star) (by simp)

/-- An asynchronous function whose keyword is known to follow its modifier in
the same line. -/
theorem asyncFunction_implements {rule : Rule} {second : Token}
    (continues : continuesAt settings second = true) :
    Implements settings category
      (fun _ point => ∃ first, point.next settings.dialect = .ok first ∧
        (Point.after first).next settings.dialect = .ok second) []
      (fun _ => .asyncFunction rule) (fun tree => [tree])
      (fun descent => expectWord .asyncWord >>= fun modifier =>
        function descent rule (some modifier)) := by
  refine andThen (ensures takes_contextual fun _ _ _ _ known taken _ => ?_) fun modifier => ?_
  · exact ⟨second, second_is_next known taken, continues⟩
  · exact function_implements rule (some modifier)

/-! ## Methods -/

section Modifiers

variable {Value : Type} [Nonempty Value] {pre : Scope → Point → Prop}
  {before : List SyntaxTree} {view : Value → List SyntaxTree}

/-- Going on after a modifier that may be missing. -/
theorem modifier_then {word : ContextualWord} {sameLine : Bool}
    {next : Option SyntaxTree → Descent → Parse Value} {presentPhrase absentPhrase : Value → Phrase}
    (present : ∀ tree, Implements settings category anywhere (before ++ [tree]) presentPhrase view
      (next (some tree)))
    (absent : Implements settings category anywhere before absentPhrase view (next none)) :
    Implements settings category pre before
      (fun value => .either (.seq (.modifier word sameLine) (presentPhrase value))
        (absentPhrase value)) view
      (fun descent => modifier? word sameLine >>= fun found => next found descent) := by
  unfold modifier? nextIsModifier
  simp only [bind_assoc, ite_bind, pure_bind, continues, Bool.false_eq_true, if_false, if_true]
  refine test rfl ?_ absent.always.inr
  refine second_then fun second => ite (fun starts => ?_) fun _ => absent.always.inr
  refine ite (fun inLine => ?_) fun anyLine => ?_
  · refine settings_then (ite (fun continues => ?_) fun _ => absent.always.inr)
    subst inLine
    refine inl (andThen (ensures takes_contextual fun _ _ _ _ known taken => ?_) present)
    exact fun _ => ⟨second, second_is_next known.2 taken, continues⟩
  · refine inl (andThen (ensures takes_contextual fun _ _ _ _ _ _ => ?_) present)
    exact fun inLine => absurd inLine anyLine

/-- Going on after the word for an asynchronous method or an accessor. -/
theorem leading_then {next : Option SyntaxTree × Bool × Bool → Descent → Parse Value}
    {asyncPhrase accessorPhrase plainPhrase : Value → Phrase}
    (asynchronous : ∀ tree, Implements settings category anywhere (before ++ [tree]) asyncPhrase
      view (next (some tree, true, false)))
    (accessor : ∀ tree, Implements settings category anywhere (before ++ [tree]) accessorPhrase
      view (next (some tree, false, true)))
    (plain : Implements settings category anywhere before plainPhrase view
      (next (none, false, false))) :
    Implements settings category pre before
      (fun value => .leading (asyncPhrase value) (accessorPhrase value) (plainPhrase value)) view
      (fun descent => leadingWord >>= fun found => next found descent) := by
  unfold leadingWord
  simp only [bind_assoc]
  refine modifier_then asynchronous ?_
  simp only [bind_assoc]
  refine modifier_then accessor ?_
  simp only [bind_assoc]
  exact modifier_then accessor plain

/-- What a step does after modifiers, and the phrase it follows, for each sort
of modifiers.  The trees before it end with those of the modifiers. -/
structure AfterModifiers (settings : Settings) (category : Category) (before : List SyntaxTree)
    (static : Option SyntaxTree)
    (asyncPhrase accessorPhrase generatorPhrase plainPhrase : Value → Phrase)
    (view : Value → List SyntaxTree) (next : Modifiers → Descent → Parse Value) : Prop where
  asynchronous : ∀ modifiers added, modifiers.trees = static.toList ++ added →
    modifiers.isAsync = true →
    Implements settings category anywhere (before ++ added) asyncPhrase view (next modifiers)
  accessor : ∀ modifiers added, modifiers.trees = static.toList ++ added →
    modifiers.isAsync = false → modifiers.isAccessor = true →
    Implements settings category anywhere (before ++ added) accessorPhrase view (next modifiers)
  generator : ∀ modifiers added, modifiers.trees = static.toList ++ added →
    modifiers.isAsync = false → modifiers.isGenerator = true →
    Implements settings category anywhere (before ++ added) generatorPhrase view (next modifiers)
  plain : ∀ modifiers, modifiers.trees = static.toList → modifiers.isAsync = false →
    modifiers.forceMethod = false →
    Implements settings category anywhere before plainPhrase view (next modifiers)

variable {next : Modifiers → Descent → Parse Value}
  {asyncPhrase accessorPhrase generatorPhrase plainPhrase : Value → Phrase}

private theorem leadingModifiers_then {static : Option SyntaxTree}
    (rules : AfterModifiers settings category before static asyncPhrase accessorPhrase
      generatorPhrase plainPhrase view next) :
    Implements settings category pre before
      (fun value => .leading (.starred (asyncPhrase value) (asyncPhrase value))
        (accessorPhrase value) (.starred (generatorPhrase value) (plainPhrase value))) view
      (fun descent => (do
        let (word, isAsync, isAccessor) ← leadingWord
        let star ←
          if isAccessor then pure none
          else if ← nextIs .star then some <$> named .star
          else pure none
        return Modifiers.mk (static.toList ++ word.toList ++ star.toList) isAsync isAccessor
          star.isSome) >>= fun modifiers => next modifiers descent) := by
  simp only [bind_assoc, ite_bind, bind_map_left, pure_bind]
  refine leading_then (fun word => ?_) (fun word => ?_) ?_
  · simp only [Bool.false_eq_true, if_false]
    refine test_ite rfl (andThen (takes fun _ _ seen => seen.2) fun star => ?_) (always ?_)
    · exact List.append_assoc before [word] [star] ▸
        rules.asynchronous _ [word, star] (by simp) rfl
    · exact rules.asynchronous _ [word] (by simp) rfl
  · simp only [if_true]
    exact test_ignored rfl (rules.accessor _ [word] (by simp) rfl rfl)
  · simp only [Bool.false_eq_true, if_false]
    refine test_ite rfl (andThen (takes fun _ _ seen => seen.2) fun star => ?_) (always ?_)
    · exact rules.generator _ [star] (by simp) rfl rfl
    · exact rules.plain _ (by simp) rfl rfl

/-- Going on after the modifiers of a method of an object. -/
theorem methodModifiers_then
    (rules : AfterModifiers settings category before none asyncPhrase accessorPhrase
      generatorPhrase plainPhrase view next) :
    Implements settings category pre before
      (fun value => .leading (.starred (asyncPhrase value) (asyncPhrase value))
        (accessorPhrase value) (.starred (generatorPhrase value) (plainPhrase value))) view
      (fun descent => methodModifiers false >>= fun modifiers => next modifiers descent) := by
  unfold methodModifiers
  simp only [Bool.false_eq_true, if_false, pure_bind]
  exact leadingModifiers_then rules

/-- Going on after the modifiers of a method of a class. -/
theorem staticModifiers_then
    (rules : ∀ static : Option SyntaxTree,
      AfterModifiers settings category (before ++ static.toList) static asyncPhrase accessorPhrase
        generatorPhrase plainPhrase view next) :
    Implements settings category pre before
      (fun value => .either
        (.seq (.modifier .staticWord false)
          (.leading (.starred (asyncPhrase value) (asyncPhrase value)) (accessorPhrase value)
            (.starred (generatorPhrase value) (plainPhrase value))))
        (.leading (.starred (asyncPhrase value) (asyncPhrase value)) (accessorPhrase value)
          (.starred (generatorPhrase value) (plainPhrase value)))) view
      (fun descent => methodModifiers true >>= fun modifiers => next modifiers descent) := by
  have absent := rules none
  rw [Option.toList_none, List.append_nil] at absent
  unfold methodModifiers
  simp only [if_true, bind_assoc]
  refine modifier_then (fun static => ?_) ?_
  · simpa only [bind_assoc, Option.toList_some] using leadingModifiers_then (rules (some static))
  · simpa only [bind_assoc, Option.toList_none] using leadingModifiers_then absent

end Modifiers

theorem propertyKey_produces : ProducesAll settings category .propertyKey propertyKey := by
  unfold propertyKey
  refine peek_then fun token => ?_
  split
  case h_1 is =>
    exact inl (mapped (takes fun _ _ known => ⟨token, known.2, by simp [Kind.admits, is]⟩)
      fun _ => rfl)
  case h_2 is =>
    exact inl (mapped (takes fun _ _ known => ⟨token, known.2, by simp [Kind.admits, is]⟩)
      fun _ => rfl)
  case h_3 is =>
    exact inr (inl (mapped (takes fun _ _ known => ⟨token, known.2, by simp [Kind.admits, is]⟩)
      fun _ => rfl))
  case h_4 is =>
    exact inr (inr (inl (mapped
      (takes fun _ _ known => ⟨token, known.2, by simp [Kind.admits, is]⟩) fun _ => rfl)))
  case h_5 is =>
    refine inr (inr (inr ?_))
    refine andThen (takes fun _ _ known =>
      ⟨token, known.2, by simp [Kind.admits, Token.isPunctuator, is]⟩) fun opening => ?_
    refine andThen (withIn ask) fun key => ?_
    exact mapped takes_sign fun _ => rfl
  case h_6 => exact fail

theorem methodRest_produces {isAsync : Bool} :
    ProducesAll settings category (.methodRest isAsync) (methodRest · isAsync) := by
  unfold methodRest
  refine andThen (sub parameters_produces) fun inputs => ?_
  exact mapped (sub functionBody_produces) fun _ => rfl

theorem method_produces : Produces settings category .method method := by
  have fromKey {trees : List SyntaxTree} {isAsync : Bool} (modifiers : Modifiers)
      (same : modifiers.trees = trees) (async : modifiers.isAsync = isAsync) :
      Implements settings category anywhere trees (fun _ => Phrase.methodFromKey isAsync)
        (fun tree => [tree]) (fun descent => do
          let key ← propertyKey descent
          let rest ← methodRest descent modifiers.isAsync
          return build .methodDeclaration (modifiers.trees ++ key ++ rest)) := by
    rw [same, async]
    refine andThen (sub propertyKey_produces) fun key => ?_
    refine andThen (sub methodRest_produces) fun rest => ?_
    exact reduces rfl
  unfold method
  refine staticModifiers_then fun static => ?_
  constructor
  · intro modifiers added same async
    exact fromKey modifiers (by simpa using same) async
  · intro modifiers added same async _
    exact fromKey modifiers (by simpa using same) async
  · intro modifiers added same async _
    exact fromKey modifiers (by simpa using same) async
  · intro modifiers same async _
    exact fromKey modifiers (by simpa using same) async

/-! ## Classes -/

theorem className_produces {rule : Rule} :
    ProducesAll settings category (.className rule) (fun _ => className rule) := by
  unfold className
  refine peek_then fun token => ite (fun named => ?_) fun _ => ite (fun _ => fail) fun other => ?_
  · rw [Bool.and_eq_true] at named
    refine inl (given (fun _ _ holds => ⟨token, holds.2, named.2⟩) ?_)
    exact mapped (takes fun _ _ holds => ⟨token, holds.2, named.1⟩) fun _ => rfl
  · exact inr (yields fun _ _ _ => ⟨other, rfl, rfl⟩)

theorem heritage_produces : ProducesAll settings category .heritage heritage := by
  unfold heritage
  refine peek_then fun token => ite (fun extending => ?_) fun _ => inr (finish rfl)
  refine inl (andThen (takes fun _ _ holds => ⟨token, holds.2, extending⟩) fun keyword => ?_)
  exact mapped ask fun _ => rfl

theorem classBody_produces : Produces settings category .classBody classBody := by
  unfold classBody
  refine withIn ?_
  refine andThen takes_sign fun opening => ?_
  refine andThen (collects rfl fun trees => ?_) fun trees => ?_
  · refine test_ite rfl (stop rfl) ?_
    refine accept_then (fun semicolon => again (by simp)) ?_
    exact andThen (sub method_produces) fun entry => again (by simp)
  · refine andThen takes_sign fun closing => ?_
    exact reduces (by simp)

theorem classDefinition_produces {rule : Rule} :
    Produces settings category (.classDefinition rule) (classDefinition · rule) := by
  unfold classDefinition
  refine nested ?_
  refine andThen takes_word fun keyword => ?_
  refine andThen (sub className_produces) fun name => ?_
  refine andThen (sub heritage_produces) fun parent => ?_
  refine andThen (sub classBody_produces) fun body => ?_
  exact reduces (by simp)

end Grammar

end ScriptTree
