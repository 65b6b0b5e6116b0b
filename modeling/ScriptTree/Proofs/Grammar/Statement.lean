import ScriptTree.Proofs.Grammar.Flow

/-!
# Phrases of statements and whole texts

With the phrase of every goal at hand, a category that is closed under the
phrases holds every tree that is read, however many steps the reading takes.
-/

namespace ScriptTree

namespace Grammar

namespace Phrase

/-- An expression on its own. -/
def expressionStatement : Phrase :=
  .all [expression, terminator, .reduce .expressionStatement]

def nameStatement : Phrase :=
  .all [.named .label, .sign .colon, .ask .statement, .reduce .labeledStatement] <|>
    .asyncFunction .functionDeclaration <|> expressionStatement

/-- A return statement. -/
def returnStatement : Phrase :=
  .all [.given fun _ scope _ _ => scope.inFunction = true, .word .returnWord,
    .all [.sameLine true, .sub expression, terminator, .reduce .returnStatement] <|>
      .all [terminator, .reduce .returnStatement]]

def jumpStatement (rule : Rule) (word : Keyword) : Phrase :=
  .all [.word word,
    .all [.sameLine true, .named .label, terminator, .reduce rule] <|>
      .all [terminator, .reduce rule]]

def throwStatement : Phrase :=
  .all [.word .throwWord,
    .given fun settings _ point _ => ∃ token, point.next settings.dialect = .ok token ∧
      (point.place.upTo token.start.offset).any isNewline = false,
    .sub expression, terminator, .reduce .throwStatement]

def keywordStatement (word : Keyword) : Phrase :=
  match word with
  | .varWord | .letWord | .constWord => declaration word
  | .functionWord => .function .functionDeclaration false
  | .classWord => .classDefinition .classDeclaration
  | .ifWord => ifStatement
  | .whileWord => whileStatement
  | .doWord => doStatement
  | .forWord => forStatement
  | .tryWord => tryStatement
  | .switchWord => switchStatement
  | .returnWord => returnStatement
  | .breakWord => jumpStatement .breakStatement .breakWord
  | .continueWord => jumpStatement .continueStatement .continueWord
  | .throwWord => throwStatement
  | .debuggerWord => .all [.word .debuggerWord, terminator, .reduce .debuggerStatement]
  | _ => expressionStatement

/-- Any statement. -/
def statement : Phrase :=
  .byKind fun kind =>
    match kind with
    | .punctuator .leftBrace => block
    | .punctuator .semicolon => .all [.sign .semicolon, .reduce .emptyStatement]
    | .keyword word => keywordStatement word
    | .identifier => nameStatement
    | _ => expressionStatement

def ofGoal : Goal → Phrase
  | .statement => statement
  | .expression => expression
  | .assignment => assignment
  | .binary level => binary level
  | .unary => unary
  | .leftHandSide => leftHandSide
  | .construction => construction

def scriptRound (again : Bool) : Phrase :=
  .all [.ahead (·.isEnd), .leave again false] <|> .all [.ask .statement, .leave again true]

/-- The statements of a text. -/
def script : Phrase :=
  .loop scriptRound

end Phrase

variable {settings : Settings} {category : Category}

open Implements

theorem expressionStatement_produces :
    Produces settings category .expressionStatement expressionStatement := by
  unfold expressionStatement
  refine andThen expression_produces fun value => ?_
  exact andThen (terminate_implements [value]) fun trees => reduces rfl

theorem nameStatement_implements {token : Token} (isName : token.isIdentifier = true) :
    Implements settings category
      (fun scope point => anywhere scope point ∧ point.next settings.dialect = .ok token) []
      (fun _ => .nameStatement) (fun tree => [tree]) nameStatement := by
  unfold nameStatement
  simp only [continues, bind_assoc, pure_bind]
  refine peek_then fun first => second_then fun second => ite (fun isColon => ?_) fun _ => ?_
  · have label : Implements settings category
        (fun scope point => ((anywhere scope point ∧ point.next settings.dialect = .ok token) ∧
          point.next settings.dialect = .ok first) ∧ ∃ first,
          point.next settings.dialect = .ok first ∧
            (Point.after first).next settings.dialect = .ok second) []
        (fun _ => .named .label) (fun tree => [tree]) (fun _ => named .label) :=
      takes fun _ _ holds => ⟨token, holds.1.1.2, isName⟩
    refine inl (label.followed (fun _ _ => .all [.sign .colon, .ask .statement,
      .reduce .labeledStatement]) (fun _ _ _ last holds taken => second_is_next holds.2 taken)
      (fun _ _ => ⟨id, id⟩) fun tree => ?_)
    refine andThen (takes fun _ _ known => ⟨second, known, isColon⟩) fun colon => ?_
    exact andThen ask fun body => reduces (by simp)
  · refine settings_then (ite (fun starts => ?_) fun _ => ?_)
    · rw [Bool.and_eq_true] at starts
      exact inr (inl ((asyncFunction_implements starts.2).under fun _ _ holds => holds.2))
    · exact inr (inr expressionStatement_produces.always)

theorem returnStatement_implements {token : Token}
    (isReturn : token.isKeyword .returnWord = true) :
    Implements settings category
      (fun scope point => anywhere scope point ∧ point.next settings.dialect = .ok token) []
      (fun _ => .returnStatement) (fun tree => [tree]) returnStatement := by
  unfold returnStatement
  refine peek_then fun _ => state_then fun current => ite (fun inside => ?_) fun _ => fail
  refine given (fun _ _ holds => ?_) ?_
  · rw [← holds.2.1]
    exact inside
  refine andThen (takes fun _ _ holds => ⟨token, holds.1.1.2, isReturn⟩) fun keyword => ?_
  simp only [nextContinues, continues, bind_assoc, pure_bind]
  refine peek_then fun next => settings_then (ite (fun inLine => ?_) fun _ => ?_)
  · refine inl (given (fun _ _ holds _ => ⟨next, holds.2, inLine⟩) ?_)
    refine andThen (sub expression_produces) fun value => ?_
    exact andThen (terminate_implements [keyword, value]) fun trees => reduces rfl
  · exact inr (andThen (terminate_implements [keyword]) fun trees => reduces rfl)

theorem jumpStatement_implements {rule : Rule} {word : Keyword} {token : Token}
    (isJump : token.isKeyword word = true) :
    Implements settings category
      (fun scope point => anywhere scope point ∧ point.next settings.dialect = .ok token) []
      (fun _ => .jumpStatement rule word) (fun tree => [tree])
      (fun _ => jumpStatement rule word) := by
  unfold jumpStatement
  refine andThen (takes fun _ _ holds => ⟨token, holds.2, admits_keyword isJump⟩)
    fun keyword => ?_
  simp only [nextContinues, continues, bind_assoc, pure_bind]
  refine peek_then fun next => settings_then (peek_then fun same => ?_)
  refine ite (fun labelled => ?_) fun _ => ?_
  · rw [Bool.and_eq_true] at labelled
    refine inl (given (fun _ _ holds _ => ⟨next, holds.1.2, labelled.1⟩) ?_)
    refine andThen (takes fun _ _ holds => ⟨same, holds.2, labelled.2⟩) fun label => ?_
    exact andThen (terminate_implements [keyword, label]) fun trees => reduces rfl
  · exact inr (andThen (terminate_implements [keyword]) fun trees => reduces rfl)

theorem throwStatement_implements {token : Token}
    (isThrow : token.isKeyword .throwWord = true) :
    Implements settings category
      (fun scope point => anywhere scope point ∧ point.next settings.dialect = .ok token) []
      (fun _ => .throwStatement) (fun tree => [tree]) throwStatement := by
  unfold throwStatement
  refine andThen (takes fun _ _ holds => ⟨token, holds.2, isThrow⟩) fun keyword => ?_
  simp only [lineBreakBefore, bind_assoc, pure_bind]
  refine peek_then fun next => state_then fun current => ite (fun _ => fail) fun unbroken => ?_
  refine given (fun _ _ holds => ⟨next, holds.1.2, ?_⟩) ?_
  · rw [← holds.2.2]
    simpa [State.point] using unbroken
  refine andThen (sub expression_produces) fun value => ?_
  exact andThen (terminate_implements [keyword, value]) fun trees => reduces rfl

theorem keywordStatement_implements {word : Keyword} {token : Token}
    (isWord : token.isKeyword word = true) :
    Implements settings category
      (fun scope point => anywhere scope point ∧ point.next settings.dialect = .ok token) []
      (fun _ => .keywordStatement word) (fun tree => [tree]) (keywordStatement · word) := by
  cases word with
  | varWord => exact declaration_implements isWord
  | letWord => exact declaration_implements isWord
  | constWord => exact declaration_implements isWord
  | functionWord => exact (function_implements .functionDeclaration none).always
  | classWord => exact classDefinition_produces.always
  | ifWord => exact ifStatement_produces.always
  | whileWord => exact whileStatement_produces.always
  | doWord => exact doStatement_produces.always
  | forWord => exact forStatement_produces.always
  | tryWord => exact tryStatement_produces.always
  | switchWord => exact switchStatement_produces.always
  | returnWord => exact returnStatement_implements isWord
  | breakWord => exact jumpStatement_implements isWord
  | continueWord => exact jumpStatement_implements isWord
  | throwWord => exact throwStatement_implements isWord
  | debuggerWord =>
      refine andThen (takes fun _ _ holds => ⟨token, holds.2, isWord⟩) fun keyword => ?_
      exact andThen (terminate_implements [keyword]) fun trees => reduces rfl
  | _ => exact expressionStatement_produces.always

theorem statement_produces : Produces settings category .statement statement := by
  unfold statement
  refine nested (peek_byKind fun token => ?_)
  cases is : token.kind with
  | punctuator sign =>
      cases sign with
      | leftBrace => exact block_produces.always
      | semicolon =>
          refine andThen (takes fun _ _ known => ⟨token, known.2, ?_⟩) fun sign => reduces rfl
          simp [Kind.admits, Token.isPunctuator, is]
      | _ => exact expressionStatement_produces.always
  | keyword word => exact keywordStatement_implements (by simp [Token.isKeyword, is])
  | identifier => exact nameStatement_implements (by simp [Token.isIdentifier, is])
  | number | string | pattern | endOfText => exact expressionStatement_produces.always

/-! ## Whole texts -/

theorem produce_produces (goal : Goal) :
    Produces settings category (.ofGoal goal) (produce · goal) := by
  cases goal with
  | statement => exact statement_produces
  | expression => exact expression_produces
  | assignment => exact assignment_produces
  | binary level => exact binary_produces
  | unary => exact unary_produces
  | leftHandSide => exact leftHandSide_produces
  | construction => exact construction_produces

/-- Whatever the phrase of a goal reads belongs to the category of the
goal. -/
def Closed (settings : Settings) (category : Category) : Prop :=
  ∀ {goal : Goal} {scope : Scope} {point last : Point} {tree : SyntaxTree},
    (Phrase.ofGoal goal).Reads settings category scope point [] last [tree] →
    category goal scope point tree last

theorem read_sound (closed : Closed settings category) (rounds steps : Nat) :
    Descent.Sound settings category ⟨rounds, read steps⟩ := by
  induction steps generalizing rounds with
  | zero =>
      constructor
      · intro goal state last tree valid run
        cases run
      · intro goal state last fault valid run
        cases run
        exact .refl state
  | succ steps ih =>
      constructor
      · intro goal state last tree valid run
        have along := (produce_produces goal).reads (ih steps) valid trivial run
        exact ⟨along.valid, along.kept, tree, closed along.reads, rfl⟩
      · intro goal state last fault valid run
        exact (produce_produces goal).fails (ih steps) valid trivial run

theorem statements_implement :
    Implements settings category anywhere [] (fun _ => .script) Array.toList
      (fun descent => collect descent #[] fun trees => do
        if (← peek).isEnd then
          return .done trees
        else
          return .again (trees.push (← descent.read .statement))) := by
  refine collects rfl fun trees => ?_
  refine peek_then fun token => ite (fun ends => ?_) fun _ => ?_
  · exact inl (given (fun _ _ holds => ⟨token, holds.2, ends⟩) (stop rfl))
  · exact inr (andThen ask fun statement => again (by simp))

theorem initial_valid (source : Text) : (State.initial source).Valid settings :=
  fun _ looked => nomatch looked

/-- Every text that is read consists of statements of the category. -/
theorem parseWith_reads (closed : Closed settings category) {tree : SyntaxTree}
    (run : parseWith settings = .ok tree) :
    ∃ trees last, tree = .node (.rule .script) ⟨0, settings.size⟩ trees ∧
      Phrase.script.Reads settings category (State.initial settings.source).scope
        (State.initial settings.source).point [] last trees := by
  unfold parseWith at run
  simp only at run
  split at run
  · rename_i found last scriptRun
    cases run
    obtain ⟨trees, after, loopRun, built⟩ := bind_ok scriptRun
    cases built
    have along := statements_implement.reads (read_sound closed _ _) (initial_valid _) trivial
      loopRun
    exact ⟨trees.toList, _, rfl, along.reads⟩
  · cases run

/-- A text that is accepted has a tree. -/
theorem exists_of_isOk (options : Options) (source : Text)
    (isOk : (parse options source).isOk = true) : ∃ tree, parse options source = .ok tree := by
  cases parsed : parse options source with
  | error fault => rw [parsed] at isOk; cases isOk
  | ok tree => exact ⟨tree, rfl⟩

end Grammar

end ScriptTree
