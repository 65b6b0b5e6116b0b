import ScriptTree.Proofs.Grammar.Reached
import ScriptTree.Proofs.Grammar.Trail

/-!
# Braces

What a production reads leaves as many braces open as there were before it.
So the trail of the text goes along with the reader: wherever a goal is asked
for, the trail comes to the same point, and it ends a hole of a template where
the reader does.
-/

namespace ScriptTree

namespace Punctuator

/-- Whether the trail lies in other regions behind a sign. -/
def turns : Punctuator → Bool
  | .leftBrace | .rightBrace | .backtick => true
  | _ => false

end Punctuator

namespace Kind

/-- The open braces behind a token with this label have a property, given how
many there are in front of it. -/
def Braces (kind : Kind) (holds : Nat → Prop) (braces : Nat) : Prop :=
  match kind with
  | .fixed (.punctuator .leftBrace) => holds (braces + 1)
  | .fixed (.punctuator .rightBrace) => 0 < braces ∧ holds (braces - 1)
  | .fixed (.punctuator .backtick) => False
  | _ => holds braces

open Grammar

/-- A sign that turns the trail is labelled as itself. -/
theorem fixed_of_admits {kind : Kind} {token : Token} {sign : Punctuator}
    (admits : kind.admits token = true) (isSign : token.kind = .punctuator sign)
    (turns : sign.turns = true) : kind = .fixed (.punctuator sign) := by
  have not {other : Punctuator} (stays : other.turns = false)
      (is : token.isPunctuator other = true) : kind = .fixed (.punctuator sign) := by
    have same : token.kind = .punctuator other := eq_of_beq is
    cases isSign.symm.trans same
    rw [turns] at stays
    cases stays
  unfold Kind.admits at admits
  split at admits
  case h_3 other =>
    have same : token.kind = .punctuator other := eq_of_beq admits
    cases isSign.symm.trans same
    rfl
  case h_13 => exact not rfl admits
  case h_14 => exact not rfl admits
  case h_15 => exact (Bool.or_eq_true_iff.mp admits).elim (not rfl) (not rfl)
  case h_16 | h_17 | h_18 | h_19 | h_20 =>
    rw [isSign] at admits
    cases sign <;> first
      | exact absurd turns Bool.false_ne_true
      | exact absurd admits Bool.false_ne_true
  all_goals simp [isExtends, Token.isKeyword, Token.isWord, Token.isIdentifier, isSign] at admits

theorem Braces.behindToken {kind : Kind} {token : Token} {holds : Nat → Prop} {braces : Nat}
    (known : kind.Braces holds braces) (admits : kind.admits token = true) (outer : List Region) :
    ∃ later, holds later ∧ Region.behindToken token.kind braces outer = .code later :: outer := by
  unfold Braces at known
  split at known
  case h_1 =>
    have isSign : token.kind = .punctuator .leftBrace := eq_of_beq admits
    rw [isSign]
    exact ⟨braces + 1, known, rfl⟩
  case h_2 =>
    have isSign : token.kind = .punctuator .rightBrace := eq_of_beq admits
    obtain ⟨isOpen, known⟩ := known
    obtain ⟨left, rfl⟩ := Nat.exists_eq_succ_of_ne_zero isOpen.ne'
    rw [isSign]
    exact ⟨left, known, rfl⟩
  case h_3 => exact known.elim
  case h_4 notLeft notRight notBacktick =>
    refine ⟨braces, known, ?_⟩
    unfold Region.behindToken
    split
    case h_1 isSign => exact absurd (fixed_of_admits admits isSign rfl) notLeft
    case h_2 isSign => exact absurd (fixed_of_admits admits isSign rfl) notRight
    case h_3 isSign => exact absurd (fixed_of_admits admits isSign rfl) notRight
    case h_4 isSign => exact absurd (fixed_of_admits admits isSign rfl) notBacktick
    case h_5 => rfl

end Kind

namespace Grammar

namespace Phrase

/-- However a phrase is read, the open braces behind it have a property, given
how many there are in front of it. -/
def Braces : Phrase → (Nat → Prop) → Nat → Prop
  | .done, holds, braces | .reduce _, holds, braces | .given _, holds, braces => holds braces
  | .ask _, holds, braces | .template, holds, braces => holds braces
  | .take kind, holds, braces => kind.Braces holds braces
  | .sub inner, holds, braces | .within _ inner, holds, braces => inner.Braces holds braces
  | .seq first second, holds, braces => first.Braces (second.Braces holds) braces
  | .either first second, holds, braces => first.Braces holds braces ∧ second.Braces holds braces
  | .many inner, holds, braces => holds braces ∧ inner.Braces (· = braces) braces
  | .byKind family, holds, braces => ∀ kind, (family kind).Braces holds braces

variable {settings : Settings} {category : Category}

/-- What is read for a goal leaves the trail in the same regions. -/
def keeping (settings : Settings) : Category :=
  fun _ _ point _ last => ∀ ⦃braces outer⦄,
    point.Within settings braces outer → last.Within settings braces outer

section

variable {scope inside : Scope} {point last target : Point} {trees : List SyntaxTree}
  {goal : Goal} {outer : List Region}

theorem token_traced {kind : Kind} {holds : Nat → Prop} {braces : Nat} {token : Token}
    (known : kind.Braces holds braces) (scanned : point.next settings.dialect = .ok token)
    (admits : kind.admits token = true) (within : point.Within settings braces outer) :
    ∃ later, holds later ∧ (Point.after token).Traced settings (.token token) later outer := by
  obtain ⟨previous, traced⟩ := within
  obtain ⟨later, holds, regions⟩ := known.behindToken admits outer
  have there := traced.step scanned (admits_notEnd admits)
  rw [regions] at there
  exact ⟨later, holds, there, rfl⟩

variable (asked : ∀ {goal scope point tree last}, category goal scope point tree last →
  keeping settings goal scope point tree last)

include asked

theorem chunks_within (chunks : Chunks settings category scope point trees last) {braces : Nat}
    (inTemplate : point.InTemplate settings (.code braces :: outer)) :
    last.Within settings braces outer := by
  induction chunks with
  | close found => exact inTemplate.close found
  | text found later ih => exact ih (inTemplate.text found)
  | hole found filled scanned closes later ih =>
      have filled := asked filled ⟨_, inTemplate.hole found⟩
      exact ih (filled.holeEnd scanned closes)

theorem Braces.within {phrase : Phrase} {before : List SyntaxTree} {holds : Nat → Prop}
    {braces : Nat} (known : phrase.Braces holds braces)
    (reads : phrase.Reads settings category scope point before last trees)
    (within : point.Within settings braces outer) :
    ∃ later, holds later ∧ last.Within settings later outer := by
  induction phrase generalizing scope point last before trees holds braces with
  | done =>
      obtain ⟨rfl, -⟩ := reads
      exact ⟨braces, known, within⟩
  | take kind =>
      obtain ⟨token, scanned, admits, rfl, -⟩ := reads
      obtain ⟨later, holds, traced⟩ := token_traced known scanned admits within
      exact ⟨later, holds, _, traced⟩
  | ask goal =>
      obtain ⟨tree, member, -⟩ := reads
      exact ⟨braces, known, asked member within⟩
  | sub inner ih =>
      obtain ⟨added, reads, -⟩ := reads
      exact ih known reads within
  | reduce rule =>
      obtain ⟨rfl, -⟩ := reads
      exact ⟨braces, known, within⟩
  | seq first second firstIh secondIh =>
      obtain ⟨middle, between, firstReads, secondReads⟩ := reads
      obtain ⟨_, rest, later⟩ := firstIh known firstReads within
      exact secondIh rest secondReads later
  | either first second firstIh secondIh =>
      rcases reads with reads | reads
      · exact firstIh known.1 reads within
      · exact secondIh known.2 reads within
  | many inner ih =>
      -- Every round leaves as many braces open as there were before it.
      refine ⟨braces, known.1, ?_⟩
      induction reads using Reads.rounds with
      | start => exact within
      | round _ step current =>
          obtain ⟨_, rfl, later⟩ := ih known.2 step current
          exact later
  | within change inner ih => exact ih known reads within
  | given condition =>
      obtain ⟨-, rfl, -⟩ := reads
      exact ⟨braces, known, within⟩
  | byKind family ih =>
      obtain ⟨token, -, reads⟩ := reads
      exact ih token.kind (known token.kind) reads within
  | template =>
      obtain ⟨token, rest, scanned, opens, chunks, -⟩ := reads
      exact ⟨braces, known, chunks_within asked chunks (within.backtick scanned opens)⟩

/-- A template asks only for what fills a hole. -/
theorem chunkCalls_behind (calls : ChunkCalls settings category scope point goal inside target)
    (inTemplate : point.InTemplate settings outer) :
    target.Behind settings (.chunk .holeOpen) := by
  induction calls with
  | here found => exact ⟨_, _, inTemplate.hole found⟩
  | text found later ih => exact ih (inTemplate.text found)
  | hole found filled scanned closes later ih =>
      have filled := asked filled ⟨_, inTemplate.hole found⟩
      exact ih (filled.holeEnd scanned closes)

end

/-- The trail comes to a point, and goes along with a phrase from there. -/
def Tracked (settings : Settings) (phrase : Phrase) (point : Point) : Prop :=
  ∃ holds braces outer, phrase.Braces holds braces ∧ point.Within settings braces outer

namespace Tracked

variable {scope : Scope} {point last : Point} {before trees : List SyntaxTree}
  {start rest inner : Phrase}

theorem left (tracked : (start <|> rest).Tracked settings point) :
    start.Tracked settings point := by
  obtain ⟨holds, braces, outer, known, within⟩ := tracked
  exact ⟨holds, braces, outer, known.1, within⟩

theorem right (tracked : (start <|> rest).Tracked settings point) :
    rest.Tracked settings point := by
  obtain ⟨holds, braces, outer, known, within⟩ := tracked
  exact ⟨holds, braces, outer, known.2, within⟩

theorem front (tracked : (start.seq rest).Tracked settings point) :
    start.Tracked settings point := by
  obtain ⟨holds, braces, outer, known, within⟩ := tracked
  exact ⟨_, braces, outer, known, within⟩

theorem chosen {family : TokenKind → Phrase}
    (tracked : (Phrase.byKind family).Tracked settings point) (kind : TokenKind) :
    (family kind).Tracked settings point := by
  obtain ⟨holds, braces, outer, known, within⟩ := tracked
  exact ⟨holds, braces, outer, known kind, within⟩

theorem token {kind : Kind} {token : Token}
    (tracked : (Phrase.take kind).Tracked settings point)
    (scanned : point.next settings.dialect = .ok token) (admits : kind.admits token = true) :
    (Point.after token).Behind settings (.token token) := by
  obtain ⟨holds, braces, outer, known, within⟩ := tracked
  obtain ⟨later, -, traced⟩ := token_traced known scanned admits within
  exact ⟨later, outer, traced⟩

variable (asked : ∀ {goal scope point tree last}, category goal scope point tree last →
  keeping settings goal scope point tree last)

include asked

theorem behind (tracked : (start.seq rest).Tracked settings point)
    (reads : start.Reads settings category scope point before last trees) :
    rest.Tracked settings last := by
  obtain ⟨holds, braces, outer, known, within⟩ := tracked
  have known : start.Braces (rest.Braces holds) braces := known
  obtain ⟨later, known, there⟩ := known.within asked reads within
  exact ⟨holds, later, outer, known, there⟩

theorem round (tracked : (Phrase.many inner).Tracked settings point)
    (reads : (Phrase.many inner).Reads settings category scope point before last trees) :
    inner.Tracked settings last := by
  obtain ⟨holds, braces, outer, known, within⟩ := tracked
  have rounds : (Phrase.many inner).Braces (· = braces) braces := ⟨rfl, known.2⟩
  obtain ⟨_, rfl, there⟩ := rounds.within asked reads within
  exact ⟨_, _, outer, known.2, there⟩

/-- The trail comes to whatever a phrase asks for. -/
theorem calls {phrase : Phrase} {goal : Goal} {inside : Scope} {target : Point}
    (tracked : phrase.Tracked settings point)
    (calls : phrase.Calls settings category scope point before goal inside target) :
    ∃ previous, target.Behind settings previous := by
  induction phrase generalizing scope point before with
  | ask other =>
      obtain ⟨-, -, rfl⟩ := calls
      obtain ⟨holds, braces, outer, -, previous, traced⟩ := tracked
      exact ⟨previous, braces, outer, traced⟩
  | sub inner ih => exact ih tracked calls
  | seq first second firstIh secondIh =>
      rcases calls with calls | ⟨middle, between, reads, calls⟩
      · exact firstIh tracked.front calls
      · exact secondIh (tracked.behind asked reads) calls
  | either first second firstIh secondIh =>
      rcases calls with calls | calls
      · exact firstIh tracked.left calls
      · exact secondIh tracked.right calls
  | many inner ih =>
      obtain ⟨middle, between, reads, calls⟩ := calls
      exact ih (tracked.round asked reads) calls
  | within change inner ih => exact ih tracked calls
  | byKind family ih =>
      obtain ⟨token, -, calls⟩ := calls
      exact ih token.kind (tracked.chosen token.kind) calls
  | template =>
      obtain ⟨token, scanned, opens, calls⟩ := calls
      obtain ⟨holds, braces, outer, -, within⟩ := tracked
      exact ⟨_, chunkCalls_behind asked calls (within.backtick scanned opens)⟩
  | _ => exact calls.elim

end Tracked

/-! ## The phrases of the grammar -/

section Braces

attribute [simp] Braces Kind.Braces

variable (holds : Nat → Prop) (braces : Nat)

@[simp]
theorem braces_orElse (first second : Phrase) :
    (first <|> second).Braces holds braces ↔
      first.Braces holds braces ∧ second.Braces holds braces :=
  Iff.rfl

@[simp]
theorem parameters_braces : parameters.Braces holds braces ↔ holds braces := by
  simp [parameters, parameter, commaOrEnd, all, loop]

@[simp]
theorem block_braces : block.Braces holds braces ↔ holds braces := by
  simp [block, statementRound, all, loop]

@[simp]
theorem function_braces (rule : Rule) (isAsync : Bool) :
    (function rule isAsync).Braces holds braces ↔ holds braces := by
  simp [function, function.rest, functionName, functionBody, all]

@[simp]
theorem methodRest_braces (isAsync : Bool) :
    (methodRest isAsync).Braces holds braces ↔ holds braces := by
  simp [methodRest, functionBody, all]

@[simp]
theorem propertyKey_braces : propertyKey.Braces holds braces ↔ holds braces := by
  simp [propertyKey, all]

@[simp]
theorem method_braces : method.Braces holds braces ↔ holds braces := by
  simp [method, methodFromWord, leading, starred, methodFromKey, modifier, all]

@[simp]
theorem classDefinition_braces (rule : Rule) :
    (classDefinition rule).Braces holds braces ↔ holds braces := by
  simp [classDefinition, className, heritage, classBody, classRound, all, loop]

@[simp]
theorem element_braces : element.Braces holds braces ↔ holds braces := by
  simp [element, spread, all]

@[simp]
theorem arguments_braces : arguments.Braces holds braces ↔ holds braces := by
  simp [arguments, argument, commaOrEnd, all, loop]

@[simp]
theorem array_braces : array.Braces holds braces ↔ holds braces := by
  simp [array, arrayRound, all, loop]

@[simp]
theorem property_braces : property.Braces holds braces ↔ holds braces := by
  simp [property, leading, starred, propertyMethod, plainProperty, modifier, all]

@[simp]
theorem object_braces : object.Braces holds braces ↔ holds braces := by
  simp [object, objectRound, entry, spread, commaOrEnd, all, loop]

@[simp]
theorem parenthesized_braces : parenthesized.Braces holds braces ↔ holds braces := by
  simp [parenthesized, all]

@[simp]
theorem asyncFunction_braces (rule : Rule) :
    (asyncFunction rule).Braces holds braces ↔ holds braces := by
  simp [asyncFunction, modifier, all]

@[simp]
theorem primary_braces : primary.Braces holds braces ↔ holds braces := by
  refine ⟨fun every => every .number, fun known kind => ?_⟩
  dsimp only
  split
  all_goals simpa [nameOrFunction] using known

@[simp]
theorem memberRound_braces (allowCall again : Bool) :
    (memberRound allowCall again).Braces holds braces ↔ holds braces := by
  simp [memberRound, all]

@[simp]
theorem construction_braces : construction.Braces holds braces ↔ holds braces := by
  simp [construction, all, loop]

@[simp]
theorem leftHandSide_braces : leftHandSide.Braces holds braces ↔ holds braces := by
  simp [leftHandSide, all, loop]

theorem prefixKind?_braces {kind : TokenKind} {label : Kind}
    (found : prefixKind? kind = some label) :
    label.Braces holds braces ↔ holds braces := by
  unfold prefixKind? at found
  split at found <;> cases found <;> rfl

@[simp]
theorem unary_braces : unary.Braces holds braces ↔ holds braces := by
  refine ⟨fun every => ?_, fun known kind => ?_⟩
  · simpa [prefixKind?, withPostfix, all] using every .number
  · dsimp only
    split
    · rename_i label found
      exact (prefixKind?_braces holds braces found).mpr known
    · simpa [withPostfix, all] using known

theorem ofToken?_braces {kind : TokenKind} {noIn : Bool} {operator : BinaryOperator}
    (found : BinaryOperator.ofToken? kind noIn = some operator) :
    operator.kind.Braces holds braces ↔ holds braces := by
  cases kind with
  | punctuator sign => cases sign <;> cases found <;> rfl
  | keyword word => cases word <;> cases noIn <;> cases found <;> rfl
  | _ => cases found

@[simp]
theorem binaryRound_braces (level : Nat) (again : Bool) :
    (binaryRound level again).Braces holds braces ↔ holds braces := by
  refine ⟨And.right, fun known => ⟨fun kind => ?_, known⟩⟩
  dsimp only
  split
  · rename_i operator found
    exact (ofToken?_braces holds braces found).mpr known
  · exact known

@[simp]
theorem binary_braces (level : Nat) : (binary level).Braces holds braces ↔ holds braces := by
  simp [binary, all, loop]

theorem assignmentKind?_braces {kind : TokenKind} {rule : Rule}
    (found : assignmentKind? kind = some rule) :
    (Kind.rule rule).Braces holds braces ↔ holds braces := by
  unfold assignmentKind? at found
  split at found <;> cases found <;> rfl

@[simp]
theorem assignment_braces : assignment.Braces holds braces ↔ holds braces := by
  have conditional (holds : Nat → Prop) : conditional.Braces holds braces ↔ holds braces := by
    simp [Phrase.conditional, all]
  have arrow : arrow.Braces holds braces ↔ holds braces := by
    simp [Phrase.arrow, inputs, arrowRest, functionBody, modifier, all]
  have assigned (known : holds braces) : assigned.Braces holds braces := by
    refine (conditional _).mpr fun kind => ?_
    dsimp only
    split
    · rename_i rule found
      exact (assignmentKind?_braces holds braces found).mpr known
    · exact known
  exact ⟨fun both => arrow.mp both.1, fun known => ⟨arrow.mpr known, assigned known⟩⟩

@[simp]
theorem expression_braces : expression.Braces holds braces ↔ holds braces := by
  simp [expression, sequenceRound, all, loop]

@[simp]
theorem terminator_braces : terminator.Braces holds braces ↔ holds braces := by
  simp [terminator, all]

@[simp]
theorem declarationRest_braces (noIn : Bool) :
    (declarationRest noIn).Braces holds braces ↔ holds braces := by
  simp [declarationRest, binding, nextBinding, all, loop]

@[simp]
theorem forHead_braces : forHead.Braces holds braces ↔ holds braces := by
  have counting : countingRest.Braces holds braces ↔ holds braces := by
    simp [countingRest, expressionBefore, all]
  refine ⟨fun both => counting.mp both.1, fun known => ⟨counting.mpr known, fun kind => ?_⟩⟩
  dsimp only
  split
  · simp [declaredHead, iterationBinding, iterationRest, countingDeclaration, counting, known, all]
  · simp [expressionHead, iterationRest, counting, known, all]

@[simp]
theorem expressionStatement_braces : expressionStatement.Braces holds braces ↔ holds braces := by
  simp [expressionStatement, all]

@[simp]
theorem keywordStatement_braces (word : Keyword) :
    (keywordStatement word).Braces holds braces ↔ holds braces := by
  unfold keywordStatement
  split
  · simp [declaration, all]
  · simp [declaration, all]
  · simp [declaration, all]
  · simp
  · simp
  · simp [ifStatement, all]
  · simp [whileStatement, all]
  · simp [doStatement, all]
  · simp [forStatement, all]
  · simp [tryStatement, handler, handlerBinding, finalizer, all]
  · simp [switchStatement, switchBody, switchEntry, caseLabel, defaultLabel, all, loop]
  · simp [returnStatement, all]
  · simp [jumpStatement, all]
  · simp [jumpStatement, all]
  · simp [throwStatement, all]
  · simp [all]
  · simp

@[simp]
theorem statement_braces : statement.Braces holds braces ↔ holds braces := by
  refine ⟨fun every => (expressionStatement_braces holds braces).mp (every .number),
    fun known kind => ?_⟩
  dsimp only
  split
  all_goals simpa [nameStatement, all] using known

theorem ofGoal_braces (goal : Goal) : (ofGoal goal).Braces holds braces ↔ holds braces := by
  cases goal with
  | statement => exact statement_braces holds braces
  | expression => exact expression_braces holds braces
  | assignment => exact assignment_braces holds braces
  | binary level => exact binary_braces holds braces level
  | unary => exact unary_braces holds braces
  | leftHandSide => exact leftHandSide_braces holds braces
  | construction => exact construction_braces holds braces

theorem script_braces : script.Braces holds braces ↔ holds braces := by
  simp [script, scriptRound, all, loop]

end Braces

end Phrase

variable {settings : Settings} {goal : Goal} {state : State}

theorem Derives.keeping {scope : Scope} {point last : Point} {tree : SyntaxTree}
    (derives : Derives settings goal scope point tree last) :
    Phrase.keeping settings goal scope point tree last := by
  refine derives.induct (Phrase.keeping settings) fun {goal} _ _ _ _ reads braces outer within => ?_
  have known : (Phrase.ofGoal goal).Braces (· = braces) braces :=
    (Phrase.ofGoal_braces _ _ goal).mpr rfl
  obtain ⟨_, rfl, later⟩ := known.within And.right reads within
  exact later

theorem Point.Behind.tracked {point : Point} {previous : Previous}
    (behind : point.Behind settings previous) (goal : Goal) :
    (Phrase.ofGoal goal).Tracked settings point := by
  obtain ⟨braces, outer, traced⟩ := behind
  exact ⟨fun _ => True, braces, outer, (Phrase.ofGoal_braces _ _ goal).mpr trivial, _, traced⟩

theorem script_tracked (settings : Settings) :
    Phrase.script.Tracked settings (State.initial settings.source).point :=
  ⟨fun _ => True, 0, [], (Phrase.script_braces _ _).mpr trivial, _, .first settings⟩

/-- The trail comes to every point at which a goal is asked for. -/
theorem Reached.behind {steps : Nat} (reached : Reached settings steps goal state) :
    ∃ previous, state.point.Behind settings previous := by
  induction reached with
  | script asks =>
      obtain ⟨-, calls⟩ := script_calls asks
      exact (script_tracked settings).calls Derives.keeping calls
  | @within _ goal _ _ _ reached asks ih =>
      obtain ⟨-, calls⟩ := Reached.calls reached.valid asks
      obtain ⟨previous, behind⟩ := ih
      exact (behind.tracked goal).calls Derives.keeping calls

end Grammar

end ScriptTree
