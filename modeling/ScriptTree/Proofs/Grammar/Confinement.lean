import ScriptTree.Proofs.Grammar.Enclosure

/-!
# Trees keep to their scope

The scope changes only for the bodies of functions, so a phrase that builds no
function keeps its trees confined to the scope it is read in.  The phrases of
functions are walked through one by one.
-/

namespace ScriptTree

namespace Rule

/-- Rules whose nodes neither are functions nor need one around them. -/
def isIndifferent : Rule → Bool
  | .functionDeclaration | .functionExpression | .arrowFunction | .methodDeclaration | .property
  | .returnStatement | .awaitExpression => false
  | _ => true

end Rule

namespace Grammar

variable {settings : Settings}

/-- The derived trees that are confined to the scope they are read in. -/
def confinedCategory (settings : Settings) : Category :=
  fun goal scope point tree last =>
    Derives settings goal scope point tree last ∧ Confined scope tree

theorem Confined.indifferent {scope : Scope} {rule : Rule} {trees : List SyntaxTree}
    (indifferent : rule.isIndifferent = true) (below : ∀ tree ∈ trees, Confined scope tree) :
    Confined scope (Grammar.build rule trees) := by
  refine .build ?_ ?_ ?_ below
  · cases rule <;> first | rfl | cases indifferent
  · rintro rfl
    cases indifferent
  · rintro rfl
    cases indifferent

theorem Confined.fixed {scope : Scope} (spelling : Spelling) (span : Span) :
    Confined scope (.leaf (.fixed spelling) span) :=
  .leaf _ span nofun nofun

theorem chunks_confined {scope : Scope} {point last : Point} {trees : List SyntaxTree}
    (chunks : Chunks settings (confinedCategory settings) scope point trees last) :
    ∀ tree ∈ trees, Confined scope tree := by
  induction chunks with
  | close => simpa using Confined.fixed _ _
  | text found later ih =>
      have text : Kind.rule .templateContent ≠ .rule .returnStatement := nofun
      simpa using ⟨Confined.leaf _ _ text nofun, ih⟩
  | hole found filled scanned closes later ih =>
      simpa using ⟨Confined.fixed _ _, filled.2.same rfl rfl, Confined.fixed _ _, ih⟩

namespace Phrase

/-- What a phrase collects is confined to the scope if what was collected
before is. -/
def KeepsConfined (settings : Settings) (phrase : Phrase) : Prop :=
  ∀ ⦃scope point before last trees⦄,
    phrase.Reads settings (confinedCategory settings) scope point before last trees →
    (∀ tree ∈ before, Confined scope tree) → ∀ tree ∈ trees, Confined scope tree

/-- The same for a phrase that is read alone. -/
def YieldsConfined (settings : Settings) (phrase : Phrase) : Prop :=
  ∀ ⦃scope point last trees⦄,
    phrase.Reads settings (confinedCategory settings) scope point [] last trees →
    ∀ tree ∈ trees, Confined scope tree

/-- A phrase itself builds no function and nothing that needs one, and changes
the scope at most as to whether `in` is an operator. -/
def Indifferent : Phrase → Prop
  | .done | .take _ | .ask _ | .given _ | .template => True
  | .reduce rule => rule.isIndifferent = true
  | .sub inner | .many inner => inner.Indifferent
  | .within change inner =>
      (∀ scope, (change scope).inFunction = scope.inFunction ∧
        (change scope).inAsync = scope.inAsync) ∧ inner.Indifferent
  | .seq first second | .either first second => first.Indifferent ∧ second.Indifferent
  | .byKind family => ∀ kind, (family kind).Indifferent

attribute [simp] Indifferent

@[simp]
theorem indifferent_orElse (first second : Phrase) :
    (first <|> second).Indifferent ↔ first.Indifferent ∧ second.Indifferent :=
  Iff.rfl

@[simp]
theorem indifferent_all (phrases : List Phrase) :
    (all phrases).Indifferent ↔ ∀ phrase ∈ phrases, phrase.Indifferent := by
  induction phrases with
  | nil => simp [all]
  | cons first rest ih =>
      cases rest with
      | nil => simp [all]
      | cons second rest => simpa [all] using fun _ => ih

@[simp]
theorem indifferent_loop (round : Bool → Phrase) :
    (loop round).Indifferent ↔ (round true).Indifferent ∧ (round false).Indifferent :=
  Iff.rfl

variable {first second inner phrase : Phrase}

namespace KeepsConfined

theorem seq (firstKeeps : first.KeepsConfined settings)
    (secondKeeps : second.KeepsConfined settings) :
    (Phrase.seq first second).KeepsConfined settings := by
  rintro scope point before last trees ⟨middle, between, firstReads, secondReads⟩ earlier
  exact secondKeeps secondReads (firstKeeps firstReads earlier)

theorem either (firstKeeps : first.KeepsConfined settings)
    (secondKeeps : second.KeepsConfined settings) : (first <|> second).KeepsConfined settings := by
  rintro scope point before last trees (firstReads | secondReads) earlier
  · exact firstKeeps firstReads earlier
  · exact secondKeeps secondReads earlier

theorem sub (yields : inner.YieldsConfined settings) :
    (Phrase.sub inner).KeepsConfined settings := by
  rintro scope point before last trees ⟨added, reads, rfl⟩ earlier tree isIn
  rcases List.mem_append.mp isIn with isBefore | isAdded
  · exact earlier tree isBefore
  · exact yields reads tree isAdded

theorem yields (keeps : phrase.KeepsConfined settings) : phrase.YieldsConfined settings :=
  fun _ _ _ _ reads => keeps reads (by simp)

theorem many (keeps : inner.KeepsConfined settings) :
    (Phrase.many inner).KeepsConfined settings := by
  intro scope point before last trees reads earlier
  induction reads using Reads.rounds with
  | start => exact earlier
  | round _ step ih => exact keeps step ih

theorem within {change : Scope → Scope}
    (still : ∀ scope, (change scope).inFunction = scope.inFunction ∧
      (change scope).inAsync = scope.inAsync) (keeps : inner.KeepsConfined settings) :
    (Phrase.within change inner).KeepsConfined settings := by
  intro scope point before last trees reads earlier tree isIn
  obtain ⟨inFunction, inAsync⟩ := still scope
  have inside := keeps reads fun tree isBefore => (earlier tree isBefore).same inFunction inAsync
  exact (inside tree isIn).same inFunction.symm inAsync.symm

theorem byKind {family : TokenKind → Phrase}
    (keeps : ∀ kind, (family kind).KeepsConfined settings) :
    (Phrase.byKind family).KeepsConfined settings := by
  rintro scope point before last trees ⟨token, scanned, reads⟩
  exact keeps token.kind reads

theorem take {kind : Kind} : (Phrase.take kind).KeepsConfined settings := by
  rintro scope point before last trees ⟨token, scanned, admits, rfl, rfl⟩ earlier tree isIn
  rcases List.mem_append.mp isIn with isBefore | isLeaf
  · exact earlier tree isBefore
  · obtain rfl := List.mem_singleton.mp isLeaf
    refine .leaf _ _ ?_ ?_
    · rintro rfl
      cases admits
    · rintro rfl
      cases admits

theorem ask {goal : Goal} : (Phrase.ask goal).KeepsConfined settings := by
  rintro scope point before last trees ⟨asked, member, rfl⟩ earlier tree isIn
  rcases List.mem_append.mp isIn with isBefore | isAsked
  · exact earlier tree isBefore
  · obtain rfl := List.mem_singleton.mp isAsked
    exact member.2

theorem given {condition : Settings → Scope → Point → List SyntaxTree → Prop} :
    (Phrase.given condition).KeepsConfined settings := by
  rintro scope point before last trees ⟨met, rfl, rfl⟩ earlier
  exact earlier

theorem template : Phrase.template.KeepsConfined settings := by
  rintro scope point before last trees ⟨token, rest, scanned, opens, read, rfl⟩ earlier tree isIn
  rcases List.mem_append.mp isIn with isBefore | isTemplate
  · exact earlier tree isBefore
  · obtain rfl := List.mem_singleton.mp isTemplate
    refine .indifferent rfl ?_
    simpa using ⟨Confined.fixed _ _, chunks_confined read⟩

/-- A phrase that has nothing to do with functions itself. -/
theorem of_indifferent (indifferent : phrase.Indifferent) : phrase.KeepsConfined settings := by
  induction phrase with
  | done =>
      rintro scope point before last trees ⟨rfl, rfl⟩ earlier
      exact earlier
  | take kind => exact take
  | ask goal => exact ask
  | sub inner ih => exact sub (ih indifferent).yields
  | reduce rule =>
      rintro scope point before last trees ⟨rfl, rfl⟩ earlier
      simpa using Confined.indifferent indifferent earlier
  | seq first second firstIh secondIh => exact (firstIh indifferent.1).seq (secondIh indifferent.2)
  | either first second firstIh secondIh =>
      exact (firstIh indifferent.1).either (secondIh indifferent.2)
  | many inner ih => exact (ih indifferent).many
  | within change inner ih => exact (ih indifferent.2).within indifferent.1
  | given condition => exact given
  | byKind family ih => exact byKind fun kind => ih kind (indifferent kind)
  | template => exact template

end KeepsConfined

namespace YieldsConfined

theorem either (firstYields : first.YieldsConfined settings)
    (secondYields : second.YieldsConfined settings) :
    (first <|> second).YieldsConfined settings := by
  rintro scope point last trees (firstReads | secondReads)
  · exact firstYields firstReads
  · exact secondYields secondReads

end YieldsConfined

open KeepsConfined (of_indifferent)

/-! ## Functions -/

attribute [local simp] Scope.withNoIn Rule.isIndifferent

@[simp]
theorem parameters_indifferent : parameters.Indifferent := by
  simp [parameters, parameter, commaOrEnd]

@[simp]
theorem block_indifferent : block.Indifferent := by
  simp [block, statementRound]

@[simp]
theorem arguments_indifferent : arguments.Indifferent := by
  simp [arguments, argument, element, spread, commaOrEnd]

@[simp]
theorem parenthesized_indifferent : parenthesized.Indifferent := by
  simp [parenthesized]

/-- The trees before the body of a function have its modifier among them if
the body is asynchronous. -/
def Announces (isAsync : Bool) (trees : List SyntaxTree) : Prop :=
  isAsync = true → ∃ modifier ∈ trees, modifier.label.isAsync = true ∧ modifier.children = []

theorem Announces.append {isAsync : Bool} {trees : List SyntaxTree}
    (announces : Announces isAsync trees) (added : List SyntaxTree) :
    Announces isAsync (trees ++ added) := by
  intro asynchronous
  obtain ⟨modifier, isIn, isModifier⟩ := announces asynchronous
  exact ⟨modifier, List.mem_append_left _ isIn, isModifier⟩

theorem announces_false (trees : List SyntaxTree) : Announces false trees :=
  nofun

/-- A phrase that is read behind confined trees which announce how it runs. -/
def Completed (settings : Settings) (isAsync : Bool) (phrase : Phrase) : Prop :=
  ∀ ⦃scope point before last trees⦄,
    phrase.Reads settings (confinedCategory settings) scope point before last trees →
    Announces isAsync before → (∀ tree ∈ before, Confined scope tree) →
    ∀ tree ∈ trees, Confined scope tree

namespace Completed

variable {isAsync : Bool}

theorem keeps (completed : phrase.Completed settings false) : phrase.KeepsConfined settings :=
  fun _ _ _ _ _ reads earlier => completed reads (announces_false _) earlier

/-- What is collected before stays in front of what is added. -/
theorem after (grows : ∀ ⦃scope point before last trees⦄,
      first.Reads settings (confinedCategory settings) scope point before last trees →
      ∃ added, trees = before ++ added) (firstKeeps : first.KeepsConfined settings)
    (completed : second.Completed settings isAsync) :
    (Phrase.seq first second).Completed settings isAsync := by
  rintro scope point before last trees ⟨middle, between, firstReads, secondReads⟩ announces earlier
  obtain ⟨added, rfl⟩ := grows firstReads
  exact completed secondReads (announces.append added) (firstKeeps firstReads earlier)

theorem afterTake {kind : Kind} (completed : second.Completed settings isAsync) :
    (Phrase.seq (.take kind) second).Completed settings isAsync :=
  .after (fun _ _ _ _ _ ⟨_, _, _, _, same⟩ => ⟨_, same⟩) .take completed

theorem afterSub (yields : inner.YieldsConfined settings)
    (completed : second.Completed settings isAsync) :
    (Phrase.seq (.sub inner) second).Completed settings isAsync :=
  .after (fun _ _ _ _ _ ⟨added, _, same⟩ => ⟨added, same⟩) (.sub yields) completed

theorem either (firstCompleted : first.Completed settings isAsync)
    (secondCompleted : second.Completed settings isAsync) :
    (first <|> second).Completed settings isAsync := by
  rintro scope point before last trees (firstReads | secondReads) announces earlier
  · exact firstCompleted firstReads announces earlier
  · exact secondCompleted secondReads announces earlier

/-- A phrase behind the modifier of asynchronous functions. -/
theorem announced (completed : phrase.Completed settings true) :
    (Phrase.seq (.modifier .asyncWord true) phrase).KeepsConfined settings := by
  rintro scope point before last trees
    ⟨_, _, ⟨_, _, ⟨token, scanned, admits, rfl, rfl⟩, -, rfl, rfl⟩, reads⟩ earlier
  refine completed reads (fun _ => ⟨_, List.mem_concat_self, rfl, rfl⟩) fun tree isIn => ?_
  rcases List.mem_append.mp isIn with isBefore | isLeaf
  · exact earlier tree isBefore
  · obtain rfl := List.mem_singleton.mp isLeaf
    exact .fixed _ _

end Completed

/-- A function body is a block that is confined to the scope of the body. -/
theorem functionBody_reads {isAsync : Bool} {scope : Scope} {point last : Point}
    {added : List SyntaxTree}
    (reads : (functionBody isAsync).Reads settings (confinedCategory settings) scope point [] last
      added) :
    ∃ body, added = [body] ∧ body.label = .rule .block ∧
      Confined (scope.functionBody isAsync) body := by
  have confined := (of_indifferent block_indifferent).yields reads
  obtain ⟨_, _, -, _, _, -, _, inner, -, -, rfl⟩ := reads
  exact ⟨build .block inner, rfl, rfl, confined _ (List.mem_singleton.mpr rfl)⟩

/-- A function ends in its body. -/
theorem body_completed {isAsync : Bool} {rule : Rule}
    (callable : ∀ front body, (build rule (front ++ [body])).isCallable = true) :
    (Phrase.all [.sub (functionBody isAsync), .reduce rule]).Completed settings isAsync := by
  rintro scope point before last trees ⟨_, _, ⟨added, bodyReads, rfl⟩, rfl, rfl⟩ announces earlier
  obtain ⟨body, rfl, isBlock, confined⟩ := functionBody_reads bodyReads
  simpa using Confined.function (callable before body) earlier confined (fun _ => .inr isBlock)
    announces

theorem function_completed {rule : Rule}
    (isFunction : rule = .functionDeclaration ∨ rule = .functionExpression) (isAsync : Bool) :
    (function rule isAsync).Completed settings isAsync := by
  have named : (functionName rule).Indifferent := by simp [functionName]
  have rest : (function.rest rule isAsync).Completed settings isAsync :=
    .afterSub (of_indifferent named).yields
      (.afterSub (of_indifferent parameters_indifferent).yields
        (body_completed fun front body => by rcases isFunction with rfl | rfl <;> rfl))
  exact .afterTake (.either (.afterTake rest) rest)

theorem function_confined {rule : Rule}
    (isFunction : rule = .functionDeclaration ∨ rule = .functionExpression) :
    (function rule false).KeepsConfined settings :=
  (function_completed isFunction false).keeps

theorem asyncFunction_confined {rule : Rule}
    (isFunction : rule = .functionDeclaration ∨ rule = .functionExpression) :
    (asyncFunction rule).KeepsConfined settings :=
  (function_completed isFunction true).announced

/-! ## Methods -/

/-- A method ends in its parameters and its body. -/
theorem methodRest_completed {isAsync : Bool} {rule : Rule}
    (isMethod : rule = .methodDeclaration ∨ rule = .property) :
    (Phrase.all [.sub (methodRest isAsync), .reduce rule]).Completed settings isAsync := by
  rintro scope point before last trees
    ⟨_, _, ⟨_, ⟨_, _, ⟨inputs, inputsRead, rfl⟩, ⟨added, bodyReads, rfl⟩⟩, rfl⟩, rfl, rfl⟩ announces
    earlier
  obtain ⟨body, rfl, isBlock, confined⟩ := functionBody_reads bodyReads
  have inputsConfined := (of_indifferent parameters_indifferent).yields inputsRead
  obtain ⟨_, _, -, _, _, -, _, inner, -, -, rfl⟩ := inputsRead
  have callable :
      (build rule (before ++ [build .paramList inner] ++ [body])).isCallable = true := by
    rcases isMethod with rfl | rfl
    · rfl
    · simp [Tree.isCallable, build]
  have front : ∀ tree ∈ before ++ [build .paramList inner], Confined scope tree := by
    intro tree isIn
    rcases List.mem_append.mp isIn with isBefore | isInputs
    · exact earlier tree isBefore
    · exact inputsConfined tree isInputs
  simpa using Confined.function callable front confined (fun _ => .inr isBlock)
    (announces.append _)

theorem propertyKey_yields : propertyKey.YieldsConfined settings :=
  (of_indifferent (by simp [propertyKey])).yields

/-- A method from its key on. -/
theorem fromKey_completed {isAsync : Bool} {rule : Rule}
    (isMethod : rule = .methodDeclaration ∨ rule = .property) :
    (Phrase.all [.sub propertyKey, .sub (methodRest isAsync), .reduce rule]).Completed settings
      isAsync :=
  .afterSub propertyKey_yields (methodRest_completed isMethod)

theorem starred_completed {isAsync : Bool} {generator plain : Phrase}
    (generatorCompleted : generator.Completed settings isAsync)
    (plainCompleted : plain.Completed settings isAsync) :
    (starred generator plain).Completed settings isAsync :=
  .either (.afterTake generatorCompleted) plainCompleted

theorem modifier_confined (word : ContextualWord) (sameLine : Bool) :
    (modifier word sameLine).KeepsConfined settings :=
  of_indifferent (by simp [modifier])

theorem method_confined : method.KeepsConfined settings := by
  have fromKey (isAsync : Bool) : (methodFromKey isAsync).Completed settings isAsync :=
    fromKey_completed (.inl rfl)
  have fromWord : methodFromWord.KeepsConfined settings :=
    (starred_completed (fromKey true) (fromKey true)).announced.either
      (((modifier_confined _ _).seq (fromKey false).keeps).either
        (((modifier_confined _ _).seq (fromKey false).keeps).either
          (starred_completed (fromKey false) (fromKey false)).keeps))
  exact ((modifier_confined _ _).seq fromWord).either fromWord

/-- The key of a property holds no parameters. -/
theorem propertyKey_plain {scope : Scope} {point last : Point} {trees : List SyntaxTree}
    (reads : propertyKey.Reads settings (confinedCategory settings) scope point [] last trees) :
    ∀ tree ∈ trees, tree.label ≠ .rule .paramList := by
  rcases reads with named | string | number | computed
  · obtain ⟨token, -, -, -, rfl⟩ := named
    simp
  · obtain ⟨token, -, -, -, rfl⟩ := string
    simp
  · obtain ⟨token, -, -, -, rfl⟩ := number
    simp
  · obtain ⟨_, _, ⟨opening, -, -, rfl, rfl⟩, _, _, ⟨key, member, rfl⟩, ⟨closing, -, -, -, rfl⟩⟩ :=
      computed
    have answers := (allShaped_composes.derives member.1).2
    have other : key.label ≠ .rule .paramList := by
      intro same
      rw [same] at answers
      cases answers
    simpa using other

/-- A property with a value, or without one, is no method. -/
theorem plain_property {trees : List SyntaxTree} {scope : Scope}
    (plain : ∀ tree ∈ trees, tree.label ≠ .rule .paramList)
    (confined : ∀ tree ∈ trees, Confined scope tree) : Confined scope (build .property trees) := by
  refine .build ?_ nofun nofun confined
  simpa [Tree.isCallable, build] using plain

theorem property_confined : property.YieldsConfined settings := by
  have method (isAsync : Bool) : (propertyMethod isAsync).Completed settings isAsync :=
    fromKey_completed (.inr rfl)
  have modified (word : ContextualWord) : (Phrase.seq (.modifier word false)
      (propertyMethod false)).YieldsConfined settings :=
    ((modifier_confined _ _).seq (method false).keeps).yields
  have plain : plainProperty.YieldsConfined settings := by
    rintro scope point last trees ⟨_, _, ⟨key, keyReads, rfl⟩, rest⟩
    have keyConfined := propertyKey_yields keyReads
    have keyPlain := propertyKey_plain keyReads
    rcases rest with ⟨_, _, ⟨-, rfl, rfl⟩, isMethod⟩ | hasValue | ⟨_, _, ⟨-, rfl, rfl⟩, rfl, rfl⟩
    · exact methodRest_completed (.inr rfl) isMethod (announces_false _) keyConfined
    · obtain ⟨_, _, colonReads, _, _, valueReads, rfl, rfl⟩ := hasValue
      have confined := KeepsConfined.ask valueReads (KeepsConfined.take colonReads keyConfined)
      obtain ⟨colon, -, -, rfl, rfl⟩ := colonReads
      obtain ⟨value, member, rfl⟩ := valueReads
      have answers := (allShaped_composes.derives member.1).2
      have other : value.label ≠ .rule .paramList := by
        intro same
        rw [same] at answers
        cases answers
      have plain := plain_property (by simpa [or_imp, forall_and] using ⟨keyPlain, other⟩) confined
      simpa using plain
    · simpa using plain_property (by simpa using keyPlain) (by simpa using keyConfined)
  exact (starred_completed (method true) (method true)).announced.yields.either
    ((modified .getWord).either ((modified .setWord).either
      (.either ((KeepsConfined.take).seq (method false).keeps).yields plain)))

/-! ## Operands -/

theorem classDefinition_confined {rule : Rule}
    (isClass : rule = .classDeclaration ∨ rule = .classExpression) :
    (classDefinition rule).KeepsConfined settings := by
  have round (again : Bool) : (classRound again).KeepsConfined settings :=
    (of_indifferent (by simp)).either ((of_indifferent (by simp)).either
      ((KeepsConfined.sub method_confined.yields).seq (of_indifferent (by simp))))
  have body : classBody.KeepsConfined settings :=
    .within (fun _ => ⟨rfl, rfl⟩) ((of_indifferent (by simp)).seq
      (((round true).many.seq (round false)).seq (of_indifferent (by simp))))
  refine (of_indifferent (by simp)).seq ((of_indifferent (by simp [className])).seq
    ((of_indifferent (by simp [heritage])).seq ((KeepsConfined.sub body.yields).seq
      (of_indifferent ?_))))
  rcases isClass with rfl | rfl <;> simp

theorem object_confined : object.KeepsConfined settings := by
  have entry : entry.YieldsConfined settings :=
    (of_indifferent (by simp [spread])).yields.either property_confined
  have round (again : Bool) : (objectRound again).KeepsConfined settings :=
    (of_indifferent (by simp)).either
      ((KeepsConfined.sub entry).seq (of_indifferent (by simp [commaOrEnd])))
  exact .within (fun _ => ⟨rfl, rfl⟩) ((of_indifferent (by simp)).seq
    (((round true).many.seq (round false)).seq (of_indifferent (by simp))))

theorem primary_confined : primary.KeepsConfined settings := by
  refine .byKind fun kind => ?_
  split
  · exact (asyncFunction_confined (.inr rfl)).either (of_indifferent (by simp))
  · exact of_indifferent (by simp)
  · exact of_indifferent (by simp)
  · exact of_indifferent (by simp)
  · exact function_confined (.inr rfl)
  · exact classDefinition_confined (.inr rfl)
  · exact of_indifferent (by simp)
  · exact of_indifferent (by simp [array, arrayRound, element, spread])
  · exact object_confined
  · exact .template
  · exact of_indifferent (by simp)

theorem memberRounds_confined (allowCall : Bool) :
    (loop (memberRound allowCall)).KeepsConfined settings :=
  of_indifferent (by simp [memberRound])

theorem construction_confined : construction.KeepsConfined settings := by
  have base : (all [all [ahead (·.isKeyword .newWord), ask .construction] <|> primary,
      loop (memberRound false)]).KeepsConfined settings :=
    ((of_indifferent (by simp)).either primary_confined).seq (memberRounds_confined false)
  exact (of_indifferent (by simp)).seq ((KeepsConfined.sub base.yields).seq
    (of_indifferent (by simp)))

theorem leftHandSide_confined : leftHandSide.KeepsConfined settings :=
  (construction_confined.either primary_confined).seq (memberRounds_confined true)

/-! ## Operators and assignments -/

/-- An operand of `await` is read where the scope allows it. -/
theorem await_confined : (Phrase.all [.given fun _ scope _ _ => scope.inAsync = true,
    .contextual .awaitWord, .ask .unary, .reduce .awaitExpression]).KeepsConfined settings := by
  rintro scope point before last trees
    ⟨_, _, ⟨allowed, rfl, rfl⟩, _, _, wordReads, _, _, asked, rfl, rfl⟩ earlier
  have confined := KeepsConfined.ask asked (KeepsConfined.take wordReads earlier)
  have whole : Confined scope (build .awaitExpression _) :=
    .build rfl nofun (fun _ => allowed) confined
  simpa using whole

theorem unary_confined : unary.KeepsConfined settings := by
  refine .byKind fun kind => ?_
  split
  · exact of_indifferent (by simp [prefixed])
  · exact await_confined.either (leftHandSide_confined.seq (of_indifferent (by simp)))

theorem binary_confined (level : Nat) : (binary level).KeepsConfined settings := by
  have round (again : Bool) : (binaryRound level again).KeepsConfined settings := by
    refine .either (.byKind fun kind => ?_) (of_indifferent (by simp [endsLevel]))
    split
    · exact of_indifferent (by simp [operation])
    · exact .given
  exact unary_confined.seq ((round true).many.seq (round false))

/-- The body of an arrow function is a block, or an expression in which only
`await` may be allowed anew. -/
theorem arrowRest_completed (isAsync : Bool) :
    (arrowRest isAsync).Completed settings isAsync := by
  refine .afterTake ?_
  rintro scope point before last trees
    ⟨_, _, ⟨_, _, ⟨-, rfl, rfl⟩, bodyReads⟩ | ⟨_, _, ⟨-, rfl, rfl⟩, valueReads⟩, rfl, rfl⟩ announces
    earlier
  · exact body_completed (fun _ _ => rfl) ⟨_, _, bodyReads, rfl, rfl⟩ announces earlier
  · obtain ⟨value, member, rfl⟩ := valueReads
    have whole : Confined scope (build .arrowFunction (_ ++ [value])) :=
      .function rfl earlier member.2 .inl announces
    simpa using whole

theorem arrow_confined : arrow.KeepsConfined settings := by
  have rest (isAsync : Bool) :
      (Phrase.all [inputs, arrowRest isAsync]).Completed settings isAsync := by
    refine .after ?_ (of_indifferent (by simp [inputs])) (arrowRest_completed isAsync)
    rintro scope point before last trees (⟨token, -, -, -, rfl⟩ | ⟨added, -, rfl⟩)
    · exact ⟨_, rfl⟩
    · exact ⟨added, rfl⟩
  exact (rest true).announced.either (rest false).keeps

theorem assignment_confined : assignment.KeepsConfined settings := by
  have conditional : conditional.KeepsConfined settings :=
    (binary_confined _).seq (of_indifferent (by simp))
  refine arrow_confined.either (conditional.seq (.byKind fun kind => ?_))
  split
  · rename_i rule found
    exact of_indifferent (by simp)
  · exact of_indifferent (by simp)

/-! ## Statements -/

@[simp]
theorem expression_indifferent : expression.Indifferent := by
  simp [expression, sequenceRound]

@[simp]
theorem terminator_indifferent : terminator.Indifferent := by
  simp [terminator]

theorem returnStatement_confined : returnStatement.KeepsConfined settings := by
  rintro scope point before last trees ⟨_, _, ⟨allowed, rfl, rfl⟩, _, _, wordReads, rest⟩ earlier
  have word := KeepsConfined.take wordReads earlier
  have ended {phrase : Phrase} (indifferent : phrase.Indifferent) {origin last : Point}
      {before trees : List SyntaxTree}
      (reads : (Phrase.all [phrase, terminator, .reduce .returnStatement]).Reads settings
        (confinedCategory settings) scope origin before last trees)
      (earlier : ∀ tree ∈ before, Confined scope tree) : ∀ tree ∈ trees, Confined scope tree := by
    obtain ⟨_, _, phraseReads, _, _, ending, rfl, rfl⟩ := reads
    have confined := of_indifferent terminator_indifferent ending
      (of_indifferent indifferent phraseReads earlier)
    have whole : Confined scope (build .returnStatement _) :=
      .build rfl (fun _ => allowed) nofun confined
    simpa using whole
  rcases rest with ⟨_, _, ⟨-, rfl, rfl⟩, valueReads⟩ | endReads
  · exact ended (by simp) valueReads word
  · have skipped : Phrase.done.Indifferent := trivial
    exact ended skipped ⟨_, _, ⟨rfl, rfl⟩, endReads⟩ word

theorem keywordStatement_confined (word : Keyword) :
    (keywordStatement word).KeepsConfined settings := by
  have declared (noIn : Bool) : (declarationRest noIn).Indifferent := by
    simp [declarationRest, binding, nextBinding]
  have jump {rule : Rule} (isJump : rule = .breakStatement ∨ rule = .continueStatement)
      (word : Keyword) :
      (jumpStatement rule word).KeepsConfined settings :=
    of_indifferent (by rcases isJump with rfl | rfl <;> simp [jumpStatement])
  have counting : countingRest.Indifferent := by simp [countingRest, expressionBefore]
  have iteration : iterationRest.Indifferent := by simp [iterationRest]
  unfold keywordStatement
  split
  · exact of_indifferent (by simp [declaration, declared])
  · exact of_indifferent (by simp [declaration, declared])
  · exact of_indifferent (by simp [declaration, declared])
  · exact function_confined (.inl rfl)
  · exact classDefinition_confined (.inl rfl)
  · exact of_indifferent (by simp [ifStatement])
  · exact of_indifferent (by simp [whileStatement])
  · exact of_indifferent (by simp [doStatement])
  · refine of_indifferent ?_
    simp only [forStatement, forHead, indifferent_all, List.mem_cons, List.not_mem_nil, or_false,
      forall_eq_or_imp, forall_eq, Indifferent, indifferent_orElse]
    refine ⟨trivial, ⟨trivial, counting, fun kind => ?_⟩, trivial, rfl⟩
    split
    · simp [declaredHead, iterationBinding, countingDeclaration, declared, counting, iteration]
    · simp [expressionHead, counting, iteration]
  · exact of_indifferent (by simp [tryStatement, handler, handlerBinding, finalizer])
  · exact of_indifferent
      (by simp [switchStatement, switchBody, switchEntry, caseLabel, defaultLabel])
  · exact returnStatement_confined
  · exact jump (.inl rfl) _
  · exact jump (.inr rfl) _
  · exact of_indifferent (by simp [throwStatement])
  · exact of_indifferent (by simp)
  · exact of_indifferent (by simp [expressionStatement])

theorem ofGoal_confined (goal : Goal) : (ofGoal goal).KeepsConfined settings := by
  cases goal with
  | statement =>
      refine .byKind fun kind => ?_
      split
      · exact of_indifferent (by simp)
      · exact of_indifferent (by simp)
      · exact keywordStatement_confined _
      · exact (of_indifferent (by simp)).either ((asyncFunction_confined (.inl rfl)).either
          (of_indifferent (by simp [expressionStatement])))
      · exact of_indifferent (by simp [expressionStatement])
  | expression => exact of_indifferent (by simp [ofGoal])
  | assignment => exact assignment_confined
  | binary level => exact binary_confined level
  | unary => exact unary_confined
  | leftHandSide => exact leftHandSide_confined
  | construction => exact construction_confined

end Phrase

/-- Every derived tree is confined to the scope it is read in. -/
theorem Derives.confined {goal : Goal} {scope : Scope} {point last : Point} {tree : SyntaxTree}
    (derives : Derives settings goal scope point tree last) : Confined scope tree :=
  derives.induct (fun _ scope _ tree _ => Confined scope tree) fun {goal _ _ _ _} reads =>
    (Phrase.ofGoal_confined goal).yields reads _ (List.mem_singleton.mpr rfl)

/-- The statements of a script are read outside of all functions. -/
theorem parseWith_confined {tree : SyntaxTree} (run : parseWith settings = .ok tree) :
    ∃ trees, tree = .node (.rule .script) ⟨0, settings.size⟩ trees ∧
      ∀ statement ∈ trees, Confined (State.initial settings.source).scope statement := by
  obtain ⟨trees, last, rfl, reads⟩ := parseWith_reads derives_closed run
  have indifferent : Phrase.script.Indifferent := by simp [Phrase.script, Phrase.scriptRound]
  refine ⟨trees, rfl, Phrase.KeepsConfined.of_indifferent indifferent (reads.mono ?_) (by simp)⟩
  exact fun derives => ⟨derives, derives.confined⟩

end Grammar

/-- Every `return` of a script lies in a function that runs a block, and the
innermost function that runs an `await` carries the modifier of asynchronous
ones. -/
theorem parse_encloses (options : Options) (source : Text) (tree : SyntaxTree)
    (parsed : Grammar.parse options source = .ok tree) :
    (∀ node ∈ tree.nodes, ∃ functions, Lies tree functions node) ∧
    ∀ functions node, Lies tree functions node →
      (node.label = .rule .returnStatement → ∃ function ∈ functions, RunsBlock function) ∧
      (node.label = .rule .awaitExpression →
        ∃ function, functions.head? = some function ∧ CarriesAsync function) := by
  obtain ⟨trees, rfl, confined⟩ := Grammar.parseWith_confined parsed
  refine ⟨fun node isNode => lies_of_mem_nodes isNode, fun functions node lies => ?_⟩
  cases lies with
  | here => exact ⟨nofun, nofun⟩
  | outside isOutside lies =>
      have member := confined _ isOutside
      constructor
      · intro isReturn
        exact (member.returns lies isReturn).resolve_left nofun
      · intro isAwait
        exact (member.awaits lies isAwait).resolve_left fun allowed => nomatch allowed.2
  | inside isBody => cases isBody

/-- An asynchronous function as the argument of a call, which waits for what it
returns. -/
theorem parse_encloses_await :
    ∃ tree functions node inner, Grammar.parse ⟨.script, .standard⟩
        "f(async()=>\x7breturn await x\x7d)".toList = .ok tree ∧
      Lies tree functions node ∧ node.label = .rule .awaitExpression ∧
      functions.head? = some inner ∧ CarriesAsync inner := by
  obtain ⟨tree, parsed⟩ := Grammar.exists_of_isOk ⟨.script, .standard⟩
    "f(async()=>\x7breturn await x\x7d)".toList (by decide +kernel)
  obtain ⟨everywhere, encloses⟩ := parse_encloses _ _ _ parsed
  have waits : (Grammar.parse ⟨.script, .standard⟩
      "f(async()=>\x7breturn await x\x7d)".toList).toOption.any
      (·.nodes.any (·.label == .rule .awaitExpression)) = true := by
    decide +kernel
  rw [parsed] at waits
  obtain ⟨node, isNode, isAwait⟩ := List.any_eq_true.mp waits
  obtain ⟨functions, lies⟩ := everywhere node isNode
  have label : node.label = .rule .awaitExpression := eq_of_beq isAwait
  obtain ⟨inner, innermost, carries⟩ := (encloses functions node lies).2 label
  exact ⟨tree, functions, node, inner, parsed, lies, label, innermost, carries⟩

end ScriptTree
