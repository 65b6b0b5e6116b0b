import ScriptTree.Proofs.Grammar.Assignment

/-!
# Phrases of declarations, conditionals, loops, `try` and `switch`
-/

namespace ScriptTree

namespace Grammar

namespace Phrase

/-- The semicolon that ends a statement, unless the statement may end without
one. -/
def terminator : Phrase :=
  .all [.sign .semicolon, .done] <|> .given fun settings _ point _ =>
    ∃ token, point.next settings.dialect = .ok token ∧ mayEndBefore settings token = true

/-! ## Declarations -/

/-- A comma and another bound name, or neither. -/
def nextBinding (again : Bool) : Phrase :=
  .all [.sign .comma, .named .variableDefinition, .leave again true] <|> .leave again false

/-- What follows a bound name: its value, and perhaps another name. -/
def binding (again : Bool) : Phrase :=
  .all [.named .equals, .ask .assignment, nextBinding again] <|> nextBinding again

def declarationRest (noIn : Bool) : Phrase :=
  .within (.withNoIn noIn) (.loop binding)

def declaration (word : Keyword) : Phrase :=
  .all [.word word, .named .variableDefinition, declarationRest false, terminator,
    .reduce .variableDeclaration]

/-! ## Conditionals and loops -/

def ifStatement : Phrase :=
  .all [.word .ifWord, .sub parenthesized, .ask .statement,
    .all [.word .elseWord, .ask .statement, .reduce .ifStatement] <|>
      .all [.ahead fun token => !token.isKeyword .elseWord, .reduce .ifStatement]]

/-- A loop that tests before each round. -/
def whileStatement : Phrase :=
  .all [.word .whileWord, .sub parenthesized, .ask .statement, .reduce .whileStatement]

/-- A loop that tests after each round. -/
def doStatement : Phrase :=
  .all [.word .doWord, .ask .statement, .word .whileWord, .sub parenthesized,
    .all [.sign .semicolon, .reduce .doStatement] <|> .reduce .doStatement]

/-- The rest of a head that goes over keys or values. -/
def iterationRest : Phrase :=
  .all [.word .inWord, .within (.withNoIn false) (.ask .expression), .sign .rightParen,
      .reduce .forInSpec] <|>
    .all [.contextual .ofWord, .within (.withNoIn false) (.ask .assignment), .sign .rightParen,
      .reduce .forOfSpec]

/-- An expression, unless the given punctuator comes at once. -/
def expressionBefore (sign : Punctuator) : Phrase :=
  .ahead (·.isPunctuator sign) <|> .ask .expression

/-- The rest of a head with a test and an update, from its first semicolon. -/
def countingRest : Phrase :=
  .within (.withNoIn false)
    (.all [.sign .semicolon, .sub (expressionBefore .semicolon), .sign .semicolon,
      .sub (expressionBefore .rightParen), .sign .rightParen, .reduce .forSpec])

/-- The name that is bound by a loop over keys or values. -/
def iterationBinding (word : Keyword) : Phrase :=
  .all [.word word, .named .variableDefinition, .done]

def countingDeclaration (word : Keyword) : Phrase :=
  .all [.word word, .named .variableDefinition, declarationRest true,
    .reduce .variableDeclaration]

def declaredHead (word : Keyword) : Phrase :=
  .all [.sub (iterationBinding word), iterationRest] <|>
    .all [.sub (countingDeclaration word), countingRest]

def expressionHead : Phrase :=
  .all [.sub (.within (.withNoIn true) expression),
    .all [.ensure assignsLast, iterationRest] <|> countingRest]

def forHead : Phrase :=
  .all [.sign .leftParen,
    countingRest <|> .byKind fun kind =>
      match declares kind with
      | some word => declaredHead word
      | none => expressionHead]

/-- A `for` loop. -/
def forStatement : Phrase :=
  .all [.word .forWord, .sub forHead, .ask .statement, .reduce .forStatement]

/-! ## Exceptions -/

/-- The bound name of a handler between parentheses, if there is one. -/
def handlerBinding : Phrase :=
  .all [.sign .leftParen, .named .variableDefinition, .sign .rightParen] <|> .done

def handler : Phrase :=
  .all [.word .catchWord, .sub handlerBinding, .sub block, .reduce .catchClause]

def finalizer : Phrase :=
  .all [.word .finallyWord, .sub block, .reduce .finallyClause]

def tryStatement : Phrase :=
  .all [.word .tryWord, .sub block, .sub (handler <|> .done), .sub (finalizer <|> .done),
    .ensure fun _ trees => decide (2 < trees.length), .reduce .tryStatement]

/-! ## Switches -/

def caseLabel : Phrase :=
  .all [.word .caseWord, .within (.withNoIn false) (.ask .expression), .sign .colon,
    .reduce .caseLabel]

def defaultLabel : Phrase :=
  .all [.word .defaultWord, .sign .colon, .reduce .defaultLabel]

/-- One label or statement of a switch, or the end of the switch.  Only the
opening brace stands before the first label. -/
def switchEntry (again : Bool) : Phrase :=
  .leave again false <|> .all [.sub caseLabel, .leave again true] <|>
    .all [.sub defaultLabel, .leave again true] <|>
    .all [.ensure fun _ trees => decide (1 < trees.length), .ask .statement, .leave again true]

def switchBody : Phrase :=
  .all [.sign .leftBrace, .loop switchEntry, .sign .rightBrace, .reduce .switchBody]

def switchStatement : Phrase :=
  .all [.word .switchWord, .sub parenthesized, .sub switchBody, .reduce .switchStatement]

end Phrase

variable {settings : Settings} {category : Category}

open Implements

theorem terminate_implements {pre : Scope → Point → Prop} (children : List SyntaxTree) :
    Implements settings category pre children (fun _ => .terminator) (fun trees => trees)
      (fun _ => terminate children) := by
  unfold terminate
  refine accept_then (fun semicolon => finish rfl) ?_
  refine peek_then fun token => settings_then (ite (fun ends => ?_) fun _ => fail)
  exact yields fun _ _ holds => ⟨⟨token, holds.2, ends⟩, rfl, rfl⟩

/-! ## Declarations -/

theorem declarationRest_implements {pre : Scope → Point → Prop} {noIn : Bool}
    (trees : Array SyntaxTree) :
    Implements settings category pre trees.toList (fun _ => .declarationRest noIn)
      (fun children => children) (declarationRest · noIn trees) := by
  unfold declarationRest
  refine withNoIn (mapped (collects rfl fun trees => ?_) fun _ => rfl)
  unfold binding
  refine test_ite rfl ?_ ?_
  · refine andThen (takes fun _ _ holds => holds.2) fun equals => ?_
    refine andThen ask fun value => ?_
    refine accept_then (fun comma => ?_) (stop (by simp))
    exact andThen takes_definition fun name => again (by simp)
  · refine accept_then (fun comma => ?_) (stop (by simp))
    exact andThen takes_definition fun name => again (by simp)

theorem declaration_implements {word : Keyword} {token : Token}
    (declares : token.isKeyword word = true) :
    Implements settings category
      (fun scope point => anywhere scope point ∧ point.next settings.dialect = .ok token) []
      (fun _ => .declaration word) (fun tree => [tree]) (declaration · word) := by
  unfold declaration
  refine andThen (takes fun _ _ holds => ⟨token, holds.2, admits_keyword declares⟩)
    fun keyword => ?_
  refine andThen takes_definition fun name => ?_
  refine andThen (declarationRest_implements #[keyword, name]) fun children => ?_
  exact andThen (terminate_implements children) fun trees => reduces rfl

/-! ## Conditionals and loops -/

theorem ifStatement_produces : Produces settings category .ifStatement ifStatement := by
  unfold ifStatement
  refine andThen takes_word fun keyword => ?_
  refine andThen (sub parenthesized_produces) fun test => ?_
  refine andThen ask fun consequent => ?_
  refine test_ite rfl ?_ (given (fun _ _ holds => holds.2) (reduces (by simp)))
  refine andThen (takes fun _ _ holds => holds.2) fun otherwise => ?_
  exact andThen ask fun alternate => reduces (by simp)

theorem whileStatement_produces :
    Produces settings category .whileStatement whileStatement := by
  unfold whileStatement
  refine andThen takes_word fun keyword => ?_
  refine andThen (sub parenthesized_produces) fun test => ?_
  exact andThen ask fun body => reduces (by simp)

theorem doStatement_produces : Produces settings category .doStatement doStatement := by
  unfold doStatement
  refine andThen takes_word fun keyword => ?_
  refine andThen ask fun body => ?_
  refine andThen takes_word fun closing => ?_
  refine andThen (sub parenthesized_produces) fun test => ?_
  exact accept_then (fun semicolon => reduces (by simp)) (reduces (by simp))

theorem iterationRest_implements {pre : Scope → Point → Prop} (children : List SyntaxTree) :
    Implements settings category pre children (fun _ => .iterationRest) (fun tree => [tree])
      (iterationRest · children) := by
  unfold iterationRest
  refine test_ite rfl ?_ ?_
  · refine andThen (takes fun _ _ holds => holds.2) fun keyword => ?_
    refine andThen (withIn ask) fun subject => ?_
    exact andThen takes_sign fun closing => reduces (by simp)
  · refine andThen takes_contextual fun keyword => ?_
    refine andThen (withIn ask) fun subject => ?_
    exact andThen takes_sign fun closing => reduces (by simp)

theorem expressionBefore_produces {sign : Punctuator} :
    ProducesAll settings category (.expressionBefore sign) (expressionBefore · sign) := by
  unfold expressionBefore
  refine test_ite rfl ?_ (mapped ask fun _ => rfl)
  exact yields fun _ _ holds => ⟨holds.2, rfl, rfl⟩

theorem countingRest_implements {pre : Scope → Point → Prop} (children : List SyntaxTree) :
    Implements settings category pre children (fun _ => .countingRest) (fun tree => [tree])
      (countingRest · children) := by
  unfold countingRest
  refine withIn ?_
  refine andThen takes_sign fun first => ?_
  refine andThen (sub expressionBefore_produces) fun test => ?_
  refine andThen takes_sign fun second => ?_
  refine andThen (sub expressionBefore_produces) fun update => ?_
  exact andThen takes_sign fun closing => reduces (by simp)

/-- What is declared in the head of a loop: a name that is bound in each round,
or a whole declaration. -/
private abbrev Declared : Type :=
  SyntaxTree × SyntaxTree ⊕ SyntaxTree

private def declaredView : Declared → List SyntaxTree
  | .inl (keyword, name) => [keyword, name]
  | .inr tree => [tree]

private def declaredPhrase (word : Keyword) : Declared → Phrase
  | .inl _ => .iterationBinding word
  | .inr _ => .countingDeclaration word

private def declaredEnd : Declared → Phrase
  | .inl _ => .done
  | .inr _ => .all [.declarationRest true, .reduce .variableDeclaration]

private def declaredRest : Declared → Phrase
  | .inl _ => .iterationRest
  | .inr _ => .countingRest

private def declared (descent : Descent) (word : Keyword) : Parse Declared := do
  let keyword ← spelled (.keyword word)
  let name ← expectName .variableDefinition
  if ← nextIterates then
    return .inl (keyword, name)
  else
    let children ← declarationRest descent true #[keyword, name]
    return .inr (build .variableDeclaration children)

private theorem declaredPhrase_eq (word : Keyword) :
    declaredPhrase word = fun found =>
      .seq (.word word) (.seq (.named .variableDefinition) (declaredEnd found)) := by
  funext found
  cases found <;> rfl

private instance : Nonempty Declared :=
  ⟨.inr default⟩

private theorem declared_implements {word : Keyword} {token : Token}
    (declares : token.isKeyword word = true) :
    Implements settings category (fun _ point => point.next settings.dialect = .ok token) []
      (declaredPhrase word) declaredView (declared · word) := by
  rw [declaredPhrase_eq]
  unfold declared
  refine andThen (takes fun _ _ holds => ⟨token, holds, admits_keyword declares⟩)
    fun keyword => ?_
  refine andThen takes_definition fun name => ?_
  refine test rfl (yields fun _ _ _ => ⟨rfl, rfl⟩) ?_
  have counting : Implements settings category anywhere [keyword, name]
      (fun _ => .all [.declarationRest true, .reduce .variableDeclaration]) (fun tree => [tree])
      (fun descent => do
        let children ← declarationRest descent true #[keyword, name]
        return build .variableDeclaration children) :=
    andThen (declarationRest_implements #[keyword, name]) fun children => reduces rfl
  have asDeclared : Implements settings category anywhere [keyword, name] declaredEnd declaredView
      (fun descent => (do
        let children ← declarationRest descent true #[keyword, name]
        return build .variableDeclaration children) >>= fun tree => pure (.inr tree)) :=
    mapped counting fun _ => rfl
  simp only [bind_assoc, pure_bind] at asDeclared
  exact asDeclared.always

theorem declaredHead_implements {word : Keyword} {token : Token} {opening : SyntaxTree}
    (declares : token.isKeyword word = true) :
    Implements settings category
      (fun _ point => point.next settings.dialect = .ok token) [opening]
      (fun _ => .declaredHead word) (fun tree => [tree]) (declaredHead · opening word) := by
  have same : (declaredHead · opening word) = fun descent =>
      declared descent word >>= fun found =>
        match found with
        | .inl (keyword, name) => iterationRest descent [opening, keyword, name]
        | .inr tree => countingRest descent [opening, tree] := by
    funext descent
    simp only [declaredHead, declared, bind_assoc, ite_bind, pure_bind]
  rw [same]
  refine (part (declared_implements declares)).followed (fun found _ => declaredRest found)
    (fun _ _ _ _ _ _ => trivial) (fun found _ => ?_) fun found => ?_
  · cases found with
    | inl pair => exact ⟨Or.inl, Or.inl⟩
    | inr tree => exact ⟨Or.inr, Or.inr⟩
  · cases found with
    | inl pair => exact iterationRest_implements [opening, pair.1, pair.2]
    | inr tree => exact countingRest_implements [opening, tree]

theorem expressionHead_implements {pre : Scope → Point → Prop} {opening : SyntaxTree} :
    Implements settings category pre [opening] (fun _ => .expressionHead) (fun tree => [tree])
      (expressionHead · opening) := by
  unfold expressionHead
  refine andThen (sub (withNoIn expression_produces)) fun init => ?_
  refine test_ite rfl ?_ (countingRest_implements [opening, init])
  simp only [assignable, bind_assoc, pure_bind]
  refine settings_then (ite (fun assigns => ?_) fun _ => peek_then fun _ => fail)
  exact given (fun _ _ _ => by simpa [Phrase.assignsLast] using assigns)
    (iterationRest_implements [opening, init])

theorem declares_keyword {token : Token} {word : Keyword}
    (found : declares token.kind = some word) : token.isKeyword word = true := by
  unfold declares at found
  split at found
  all_goals cases found
  all_goals simp_all [Token.isKeyword]

theorem forHead_produces : Produces settings category .forHead forHead := by
  unfold forHead
  refine andThen takes_sign fun opening => ?_
  refine peek_then fun token => ite (fun _ => inl (countingRest_implements [opening])) fun _ => ?_
  refine inr (ofKind (fun _ _ holds => holds.2) ?_)
  cases found : declares token.kind with
  | none => exact expressionHead_implements
  | some word =>
      exact (declaredHead_implements (declares_keyword found)).under fun _ _ holds => holds.2

theorem forStatement_produces : Produces settings category .forStatement forStatement := by
  unfold forStatement
  refine andThen takes_word fun keyword => ?_
  refine andThen (sub forHead_produces) fun head => ?_
  exact andThen ask fun body => reduces (by simp)

/-! ## Exceptions -/

theorem handlerBinding_produces :
    ProducesAll settings category .handlerBinding (fun _ => handlerBinding) := by
  unfold handlerBinding
  refine accept_then (fun opening => ?_) (finish rfl)
  refine andThen takes_definition fun name => ?_
  exact mapped takes_sign fun closing => rfl

theorem handler_produces :
    ProducesAll settings category (.handler <|> .done) handler := by
  unfold handler
  refine test_ite rfl ?_ (finish rfl)
  refine andThen (takes fun _ _ holds => holds.2) fun keyword => ?_
  refine andThen (sub handlerBinding_produces) fun bound => ?_
  refine andThen (sub block_produces) fun body => ?_
  exact yields fun _ _ _ => ⟨rfl, by simp⟩

theorem finalizer_produces :
    ProducesAll settings category (.finalizer <|> .done) finalizer := by
  unfold finalizer
  refine test_ite rfl ?_ (finish rfl)
  refine andThen (takes fun _ _ holds => holds.2) fun keyword => ?_
  refine andThen (sub block_produces) fun body => ?_
  exact yields fun _ _ _ => ⟨rfl, by simp⟩

theorem tryStatement_produces : Produces settings category .tryStatement tryStatement := by
  unfold tryStatement
  refine andThen takes_word fun keyword => ?_
  refine andThen (sub block_produces) fun body => ?_
  refine andThen (sub handler_produces) fun handled => ?_
  refine andThen (sub finalizer_produces) fun finished => ?_
  cases clauses : handled ++ finished with
  | nil => exact peek_then fun _ => fail
  | cons first rest =>
      refine given (fun _ _ _ => ?_) (reduces (by simp [← clauses]))
      have long : 0 < (handled ++ finished).length := by simp [clauses]
      simp only [List.length_append, List.length_cons, List.length_nil] at long ⊢
      simp only [decide_eq_true_eq]
      omega

/-! ## Switches -/

theorem caseLabel_implements {pre : Scope → Point → Prop}
    (known : ∀ scope point, pre scope point → Sees settings point (·.isKeyword .caseWord)) :
    Implements settings category pre [] (fun _ => .caseLabel) (fun tree => [tree])
      caseLabel := by
  unfold caseLabel
  refine andThen (takes known) fun keyword => ?_
  refine andThen (withIn ask) fun test => ?_
  exact andThen takes_sign fun colon => reduces (by simp)

theorem defaultLabel_implements {pre : Scope → Point → Prop}
    (known : ∀ scope point, pre scope point → Sees settings point (·.isKeyword .defaultWord)) :
    Implements settings category pre [] (fun _ => .defaultLabel) (fun tree => [tree])
      (fun _ => defaultLabel) := by
  unfold defaultLabel
  refine andThen (takes known) fun keyword => ?_
  exact andThen takes_sign fun colon => reduces (by simp)

private def switchBody (descent : Descent) : Parse SyntaxTree := do
  let opening ← expect .leftBrace
  let trees ← collect descent #[opening] (switchEntry descent)
  let closing ← expect .rightBrace
  return build .switchBody (trees.push closing).toList

private theorem switchBody_produces : Produces settings category .switchBody switchBody := by
  unfold switchBody
  refine andThen takes_sign fun opening => ?_
  refine andThen (collects rfl fun trees => ?_) fun trees => ?_
  · unfold switchEntry
    refine peek_then fun token => ite (fun _ => inl (stop rfl)) fun _ => ?_
    refine ite (fun isCase => ?_) fun _ => ite (fun isDefault => ?_) fun _ => ?_
    · exact inr (inl (andThen (part (caseLabel_implements fun _ _ known =>
        ⟨token, known.2, isCase⟩)) fun tree => again (by simp)))
    · exact inr (inr (inl (andThen (part (defaultLabel_implements fun _ _ known =>
        ⟨token, known.2, isDefault⟩)) fun tree => again (by simp))))
    · refine ite (fun more => ?_) fun _ => fail
      refine inr (inr (inr (given (fun _ _ _ => ?_) (andThen ask fun entry => again (by simp)))))
      simp only [Bool.and_eq_true, decide_eq_true_eq] at more
      simpa using more.1
  · exact andThen takes_sign fun closing => reduces (by simp)

theorem switchStatement_produces :
    Produces settings category .switchStatement switchStatement := by
  have same : switchStatement = fun descent => do
      let keyword ← expectKeyword .switchWord
      let subject ← parenthesized descent
      let body ← switchBody descent
      return build .switchStatement [keyword, subject, body] := by
    funext descent
    simp only [switchStatement, switchBody, bind_assoc, pure_bind]
  rw [same]
  refine andThen takes_word fun keyword => ?_
  refine andThen (sub parenthesized_produces) fun subject => ?_
  exact andThen (sub switchBody_produces) fun body => reduces (by simp)

end Grammar

end ScriptTree
