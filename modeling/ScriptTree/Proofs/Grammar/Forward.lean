import ScriptTree.Proofs.Grammar.Phrase

/-!
# Running steps on known tokens

A state that faces a token looks at it and passes it, and nothing else of the
state matters to the steps that read tokens.  So where the next tokens are
known, what a production does is computed token by token.
-/

namespace ScriptTree

namespace Grammar

namespace State

def look (state : State) (token : Token) : State :=
  { state with peeked := some token }

def pass (state : State) (token : Token) : State :=
  state.moveTo token.stop token.kind.allowsPatternAfter

variable (state : State) (token other : Token)

@[simp]
theorem look_look : (state.look other).look token = state.look token :=
  rfl

@[simp]
theorem pass_look : (state.look other).pass token = state.pass token :=
  rfl

@[simp]
theorem pass_pass : (state.pass other).pass token = state.pass token :=
  rfl

@[simp]
theorem scope_look : (state.look token).scope = state.scope :=
  rfl

@[simp]
theorem scope_pass : (state.pass token).scope = state.scope :=
  rfl

@[simp]
theorem point_look : (state.look token).point = state.point :=
  rfl

@[simp]
theorem point_pass : (state.pass token).point = .after token :=
  rfl

end State

variable {settings : Settings} {state after : State} {token second : Token} {Value Other : Type}

/-- The next token is scanned at the point of a state, or has been looked at
there. -/
structure Faces (settings : Settings) (state : State) (token : Token) : Prop where
  valid : state.Valid settings
  next : state.point.next settings.dialect = .ok token

namespace Faces

theorem look (faces : Faces settings state token) : Faces settings (state.look token) token := by
  refine ⟨fun found same => ?_, faces.next⟩
  cases same
  exact faces.next

/-- How deep a state is nested does not matter to what it faces. -/
theorem deepen (faces : Faces settings state token) (depth : Nat) :
    Faces settings { state with depth } token :=
  ⟨faces.valid, faces.next⟩

theorem pass (next : (Point.after token).next settings.dialect = .ok second) :
    Faces settings (state.pass token) second :=
  ⟨nofun, next⟩

end Faces

/-! ## Running one step after another -/

theorem bind_run {step : Parse Value} {next : Value → Parse Other} {value : Value}
    (run : step settings state = .ok value after) :
    (step >>= next) settings state = next value settings after := by
  change Parse.bind step next settings state = _
  rw [Parse.bind, run]

theorem bind_ok {step : Parse Value} {next : Value → Parse Other} {last : State}
    {value : Other} (run : (step >>= next) settings state = .ok value last) :
    ∃ found middle, step settings state = .ok found middle ∧
      next found settings middle = .ok value last := by
  change Parse.bind step next settings state = _ at run
  unfold Parse.bind at run
  cases found : step settings state with
  | ok found middle =>
      rw [found] at run
      exact ⟨_, _, rfl, run⟩
  | error fault middle =>
      rw [found] at run
      cases run

theorem bind_error {step : Parse Value} {next : Value → Parse Other} {last : State}
    {fault : SyntaxError} (run : (step >>= next) settings state = .error fault last) :
    step settings state = .error fault last ∨ ∃ found middle,
      step settings state = .ok found middle ∧ next found settings middle = .error fault last := by
  change Parse.bind step next settings state = _ at run
  unfold Parse.bind at run
  cases found : step settings state with
  | ok found middle =>
      rw [found] at run
      exact .inr ⟨_, _, rfl, run⟩
  | error other middle =>
      rw [found] at run
      cases run
      exact .inl rfl

theorem settings_run : Parse.settings settings state = .ok settings state :=
  rfl

theorem state_run : Parse.state settings state = .ok state state :=
  rfl

/-- A step one level deeper, where nesting is not bounded. -/
theorem nested_run {step : Parse Value} {value : Value} {last : State}
    (unbounded : settings.limit = none)
    (run : step settings { state with depth := state.depth + 1 } = .ok value after)
    (same : last = { after with depth := after.depth - 1 }) :
    Parse.nested step settings state = .ok value last := by
  unfold Parse.nested
  rw [unbounded, run, same]
  rfl

variable {Progress : Type} {round : Progress → Parse (Round Progress Value)} {progress : Progress}

/-- What a loop does after a round. -/
def Round.resume (next : Progress → Parse Value) : Round Progress Value → Parse Value
  | .again progress => next progress
  | .done value => Pure.pure value

/-- A loop is a round and what comes after it. -/
theorem iterate_succ (rounds : Nat) (start : Progress) :
    iterate round (rounds + 1) start = round start >>= Round.resume (iterate round rounds) := by
  funext settings state
  change _ = Parse.bind _ _ settings state
  simp only [iterate, Parse.bind]
  cases round start settings state with
  | error fault after => rfl
  | ok result after => cases result <;> rfl

theorem iterate_done {rounds : Nat} {value : Value} (some : 0 < rounds)
    (run : round progress settings state = .ok (.done value) after) :
    iterate round rounds progress settings state = .ok value after := by
  cases rounds with
  | zero => cases some
  | succ fewer => simp only [iterate, run]

theorem iterate_again {rounds : Nat} {later : Progress}
    (run : round progress settings state = .ok (.again later) after) :
    iterate round (rounds + 1) progress settings state =
      iterate round rounds later settings after := by
  simp only [iterate, run]

/-! ## Steps that look at tokens and take them -/

theorem peek_run (faces : Faces settings state token) :
    peek settings state = .ok token (state.look token) := by
  unfold peek
  cases looked : state.peeked with
  | some found =>
      obtain rfl : found = token := Except.ok.inj ((faces.valid _ looked).symm.trans faces.next)
      have same : state.look found = state := by
        rw [State.look, ← looked]
      rw [same]
  | none =>
      have scanned : Token.scan settings.dialect state.place state.patternAllowed = .ok token :=
        faces.next
      rw [scanned]
      rfl

theorem peekSecond_scans (faces : Faces settings state token) :
    peekSecond settings state =
      ofScan ((Point.after token).next settings.dialect) settings (state.look token) := by
  unfold peekSecond
  rw [bind_run (peek_run faces)]
  rfl

theorem peekSecond_run (faces : Faces settings state token)
    (next : (Point.after token).next settings.dialect = .ok second) :
    peekSecond settings state = .ok second (state.look token) := by
  rw [peekSecond_scans faces, next]
  rfl

theorem advance_run (faces : Faces settings state token) :
    advance settings state = .ok token (state.pass token) := by
  unfold advance
  rw [bind_run (peek_run faces)]
  rfl

theorem leaf_run (faces : Faces settings state token) (kind : Kind) :
    leaf kind settings state = .ok (.leaf kind token.span) (state.pass token) := by
  unfold leaf
  rw [bind_run (advance_run faces)]
  rfl

theorem nextIs_run (faces : Faces settings state token) (sign : Punctuator) :
    nextIs sign settings state = .ok (token.isPunctuator sign) (state.look token) := by
  unfold nextIs
  rw [bind_run (peek_run faces)]
  rfl

theorem nextIsKeyword_run (faces : Faces settings state token) (word : Keyword) :
    nextIsKeyword word settings state = .ok (token.isKeyword word) (state.look token) := by
  unfold nextIsKeyword
  rw [bind_run (peek_run faces)]
  rfl

theorem nextIsWord_run (faces : Faces settings state token) (word : ContextualWord) :
    nextIsWord word settings state = .ok (token.isWord word) (state.look token) := by
  unfold nextIsWord
  rw [bind_run (peek_run faces)]
  rfl

theorem accept_none (faces : Faces settings state token) {sign : Punctuator}
    (other : token.isPunctuator sign = false) :
    accept? sign settings state = .ok none (state.look token) := by
  unfold accept?
  rw [bind_run (nextIs_run faces sign), other]
  rfl

theorem accept_some (faces : Faces settings state token) {sign : Punctuator}
    (is : token.isPunctuator sign = true) :
    accept? sign settings state =
      .ok (some (.leaf (.fixed (.punctuator sign)) token.span)) (state.pass token) := by
  unfold accept?
  rw [bind_run (nextIs_run faces sign), is]
  simp only [if_true]
  unfold spelled
  rw [bind_run (leaf_run faces.look _)]
  rfl

theorem expect_run (faces : Faces settings state token) {sign : Punctuator}
    (is : token.isPunctuator sign = true) :
    expect sign settings state =
      .ok (.leaf (.fixed (.punctuator sign)) token.span) (state.pass token) := by
  unfold expect
  rw [bind_run (peek_run faces), is]
  exact leaf_run faces.look _

/-! ## Names as operands -/

/-- Whether a token behind a name leaves the name an operand of its own. -/
def leavesName : TokenKind → Bool
  | .punctuator .dot | .punctuator .leftBracket | .punctuator .leftParen | .punctuator .backtick
  | .punctuator .increment | .punctuator .decrement | .keyword .functionWord => false
  | _ => true

/-- Operators leave the operand before them alone. -/
theorem leavesName_of_operator {kind : TokenKind} {operator : BinaryOperator}
    (found : BinaryOperator.ofToken? kind false = some operator) : leavesName kind = true := by
  unfold BinaryOperator.ofToken? at found
  split at found
  case h_1 sign => cases sign <;> first | rfl | cases found
  case h_2 | h_3 => rfl
  case h_4 => cases found

/-- A name with a token behind it that does not belong to it. -/
structure Bare (settings : Settings) (name next : Token) : Prop where
  isName : name.kind = .identifier
  follows : (Point.after name).next settings.dialect = .ok next
  leaves : leavesName next.kind = true

namespace Bare

variable {name next : Token} {descent : Descent}

theorem isSign_false (bare : Bare settings name next) {sign : Punctuator}
    (belongs : leavesName (.punctuator sign) = false) : next.isPunctuator sign = false := by
  rw [Token.isPunctuator, beq_eq_false_iff_ne]
  intro same
  have leaves := bare.leaves
  rw [same, belongs] at leaves
  cases leaves

theorem isFunction_false (bare : Bare settings name next) :
    next.isKeyword .functionWord = false := by
  rw [Token.isKeyword, beq_eq_false_iff_ne]
  intro same
  have leaves := bare.leaves
  rw [same] at leaves
  cases leaves

theorem nameOrFunction_run (bare : Bare settings name next) (faces : Faces settings state name) :
    nameOrFunction descent settings state =
      .ok (.leaf (.rule .variableName) name.span) (state.pass name) := by
  unfold nameOrFunction
  rw [bind_run (nextIsWord_run faces .asyncWord)]
  cases name.isWord .asyncWord with
  | true =>
      rw [if_pos rfl, bind_run (peekSecond_run faces.look bare.follows)]
      simp only [bare.isFunction_false, Bool.false_and]
      exact leaf_run faces.look.look _
  | false => exact leaf_run faces.look _

theorem leftHandSide_run (bare : Bare settings name next) (faces : Faces settings state name)
    (rounds : 0 < descent.rounds) :
    leftHandSide descent settings state =
      .ok (.leaf (.rule .variableName) name.span) ((state.pass name).look next) := by
  have notNew : name.isKeyword .newWord = false := by
    rw [Token.isKeyword, bare.isName]
    rfl
  have primaryRun : primary descent settings (state.look name) =
      .ok (.leaf (.rule .variableName) name.span) (state.pass name) := by
    unfold primary
    rw [bind_run (peek_run faces.look)]
    simp only [bare.isName]
    exact bare.nameOrFunction_run faces.look.look
  have behind : Faces settings (state.pass name) next := .pass bare.follows
  unfold leftHandSide
  rw [bind_run (nextIsKeyword_run faces _), notNew]
  simp only [Bool.false_eq_true, if_false]
  rw [bind_run primaryRun]
  refine iterate_done rounds ?_
  unfold memberStep
  rw [bind_run (peek_run behind)]
  have leaves := bare.leaves
  cases kind : next.kind with
  | punctuator sign =>
      rw [kind] at leaves
      cases sign
      case dot | leftBracket | leftParen | backtick => cases leaves
      all_goals rfl
  | _ => rfl

/-- A name on its own is read as an operand, unless it is an operator. -/
theorem unary_run (bare : Bare settings name next) (faces : Faces settings state name)
    (rounds : 0 < descent.rounds) (plain : (state.inAsync && name.isWord .awaitWord) = false) :
    unary descent settings state =
      .ok (.leaf (.rule .variableName) name.span) ((state.pass name).look next) := by
  have behind : Faces settings (state.pass name) next := .pass bare.follows
  unfold unary
  rw [bind_run (peek_run faces), bare.isName]
  simp only [prefixKind?]
  rw [bind_run state_run]
  change (if (state.inAsync && name.isWord .awaitWord) = true then _ else _ : Parse SyntaxTree)
    settings (state.look name) = _
  rw [plain]
  simp only [Bool.false_eq_true, if_false]
  unfold withPostfix
  rw [bind_run (bare.leftHandSide_run faces.look rounds), State.pass_look,
    bind_run (peek_run behind.look), bare.isSign_false rfl, bare.isSign_false rfl]
  rfl

end Bare

/-! ## Operators -/

section

variable {descent : Descent} {level : Nat} {left right : SyntaxTree}

theorem binaryStep_done (faces : Faces settings state token)
    (ends : ∀ operator, BinaryOperator.ofToken? token.kind state.noIn = some operator →
      operator.level < level) :
    binaryStep descent level left settings state = .ok (.done left) (state.look token) := by
  unfold binaryStep
  rw [bind_run (peek_run faces), bind_run state_run,
    show (state.look token).noIn = state.noIn from rfl]
  cases found : BinaryOperator.ofToken? token.kind state.noIn with
  | none => rfl
  | some operator =>
      simp only [if_pos (ends operator found)]
      rfl

theorem binaryStep_again {operator : BinaryOperator} (faces : Faces settings state token)
    (found : BinaryOperator.ofToken? token.kind state.noIn = some operator)
    (tight : level ≤ operator.level)
    (run : Parse.nested (descent.read (.binary operator.operandLevel)) settings (state.pass token) =
      .ok right after) :
    binaryStep descent level left settings state =
      .ok (.again (build .binaryExpression [left, .leaf operator.kind token.span, right]))
        after := by
  unfold binaryStep
  rw [bind_run (peek_run faces), bind_run state_run,
    show (state.look token).noIn = state.noIn from rfl,
    found]
  simp only [if_neg (Nat.not_lt.mpr tight)]
  rw [bind_run (leaf_run faces.look _), State.pass_look, bind_run run]
  rfl

end

/-! ## Assignments -/

section

variable {descent : Descent} {name next : Token} {tree : SyntaxTree}

/-- No arrow function starts with a name that no arrow follows. -/
theorem Bare.arrow_none (bare : Bare settings name next) (faces : Faces settings state name)
    (notArrow : next.isPunctuator .arrow = false) (notName : next.isIdentifier = false) :
    arrow? descent settings state = .ok none (state.look name) := by
  have notHead : startsAsyncHead settings (state.look name) = .ok false (state.look name) := by
    unfold startsAsyncHead
    rw [bind_run (nextIsWord_run faces.look .asyncWord), State.look_look]
    cases name.isWord .asyncWord with
    | true =>
        rw [if_pos rfl, bind_run (peekSecond_run faces.look bare.follows), notName,
          bare.isSign_false rfl]
        rfl
    | false => rfl
  have notOpen : name.isPunctuator .leftParen = false := by
    rw [Token.isPunctuator, bare.isName]
    rfl
  have isName : name.isIdentifier = true := by
    rw [Token.isIdentifier, bare.isName]
    rfl
  have mayNot : mayStartArrow false settings (state.look name) = .ok false (state.look name) := by
    unfold mayStartArrow
    rw [bind_run (peek_run faces.look), State.look_look, notOpen, isName]
    simp only [Bool.or_self, Bool.false_eq_true, if_false, if_true]
    rw [bind_run (peekSecond_run faces.look bare.follows), notArrow]
    rfl
  unfold arrow?
  rw [bind_run (peek_run faces), bind_run notHead, bind_run mayNot]
  rfl

theorem conditional_run (run : binary descent BinaryOperator.lowest settings state = .ok tree after)
    (faces : Faces settings after token) (notQuestion : token.isPunctuator .question = false) :
    conditional descent settings state = .ok tree (after.look token) := by
  unfold conditional
  rw [bind_run run, bind_run (accept_none faces notQuestion)]
  rfl

theorem assignment_run {looked : State} (unbounded : settings.limit = none)
    (noArrow : arrow? descent settings { state with depth := state.depth + 1 } = .ok none looked)
    (run : conditional descent settings looked = .ok tree after)
    (faces : Faces settings after token) (noAssignment : assignmentKind? token.kind = none) :
    assignment descent settings state =
      .ok tree { after.look token with depth := after.depth - 1 } := by
  unfold assignment
  refine nested_run unbounded ?_ rfl
  rw [bind_run noArrow]
  simp only
  rw [bind_run run, bind_run (peek_run faces), noAssignment]
  rfl

theorem expression_run (run : descent.read .assignment settings state = .ok tree after)
    (faces : Faces settings after token) (notComma : token.isPunctuator .comma = false) :
    expression descent settings state = .ok tree (after.look token) := by
  unfold expression
  rw [bind_run run, bind_run (nextIs_run faces .comma), notComma]
  rfl

theorem terminate_run {children : List SyntaxTree} (faces : Faces settings state token)
    (notSemicolon : token.isPunctuator .semicolon = false)
    (mayEnd : mayEndBefore settings token = true) :
    terminate children settings state = .ok children (state.look token) := by
  unfold terminate
  rw [bind_run (accept_none faces notSemicolon)]
  simp only
  rw [bind_run (peek_run faces.look), bind_run settings_run, mayEnd]
  rfl

/-- A statement that starts with a name which is no label. -/
theorem statement_run (unbounded : settings.limit = none) (bare : Bare settings name next)
    (faces : Faces settings state name) (notColon : next.isPunctuator .colon = false)
    (run : expressionStatement descent settings
      (State.look { state with depth := state.depth + 1 } name) = .ok tree after) :
    statement descent settings state = .ok tree { after with depth := after.depth - 1 } := by
  have deeper := faces.deepen (state.depth + 1)
  unfold statement
  refine nested_run unbounded ?_ rfl
  rw [bind_run (peek_run deeper)]
  simp only [bare.isName]
  unfold nameStatement
  rw [bind_run (peek_run deeper.look), bind_run (peekSecond_run deeper.look.look bare.follows),
    notColon, bare.isFunction_false]
  simp only [Bool.and_false, Bool.false_and, Bool.false_eq_true, if_false]
  exact run

/-- One more statement of a text. -/
def scriptRound (descent : Descent) (trees : Array SyntaxTree) :
    Parse (Round (Array SyntaxTree) (Array SyntaxTree)) := do
  if (← peek).isEnd then
    return .done trees
  else
    return .again (trees.push (← descent.read .statement))

/-- A text with one statement in it. -/
theorem script_run (enough : 1 < descent.rounds) (faces : Faces settings state token)
    (notEnd : token.isEnd = false)
    (run : descent.read .statement settings (state.look token) = .ok tree after)
    (behind : Faces settings after next) (isEnd : next.isEnd = true) :
    script descent settings state =
      .ok (.node (.rule .script) ⟨0, settings.size⟩ [tree]) (after.look next) := by
  have first : scriptRound descent #[] settings state = .ok (.again #[tree]) after := by
    unfold scriptRound
    rw [bind_run (peek_run faces), notEnd]
    simp only [Bool.false_eq_true, if_false]
    rw [bind_run run]
    rfl
  have second :
      scriptRound descent #[tree] settings after = .ok (.done #[tree]) (after.look next) := by
    unfold scriptRound
    rw [bind_run (peek_run behind), isEnd]
    rfl
  obtain ⟨rounds, same⟩ : ∃ rounds, descent.rounds = rounds + 1 := ⟨descent.rounds - 1, by omega⟩
  have all : iterate (scriptRound descent) descent.rounds #[] settings state =
      .ok #[tree] (after.look next) := by
    rw [same, iterate_again first]
    exact iterate_done (by omega) second
  change (iterate (scriptRound descent) descent.rounds #[] >>= _) settings state = _
  rw [bind_run all]
  rfl

end

end Grammar

end ScriptTree
