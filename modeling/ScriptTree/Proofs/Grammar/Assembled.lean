import ScriptTree.Proofs.Grammar.Moves

/-!
# What productions are assembled from

Every production is put together from a few kinds of steps.  What holds of
these, and goes on to whatever is put together from them, holds of the whole
grammar, also where it compares two runs of the reader.
-/

namespace ScriptTree

open Grammar

/-! ## Errors of scanning -/

abbrev SyntaxError.Ordinary (fault : SyntaxError) : Prop :=
  Parse.isFinal fault = false

theorem Trivia.skipFrom_ordinary {rest : Text} {offset : Nat} {inside : Inside} {gap : Gap}
    {fault : SyntaxError} (run : skipFrom rest offset inside gap = .error fault) :
    fault.Ordinary := by
  fun_induction skipFrom rest offset inside gap <;> first
    | (rename_i ih; exact ih run)
    | (cases run; rfl)
    | cases run

namespace Lexeme

theorem basedDigits_ordinary {base : Nat} {start : Place} {fault : SyntaxError}
    (run : basedDigits base start = .error fault) : fault.Ordinary := by
  unfold basedDigits at run
  dsimp only at run
  split at run
  · cases run
    rfl
  · cases run

theorem number_ordinary {start : Place} {fault : SyntaxError} (run : number start = .error fault) :
    fault.Ordinary := by
  have checked {runsOn : Bool} {late stop : Place}
      (run : (if runsOn = true then .error (invalidNumber start late) else .ok stop) =
        Except.error fault) : fault.Ordinary := by
    cases runsOn with
    | true =>
        cases run
        rfl
    | false => cases run
  unfold number at run
  dsimp only at run
  split at run
  · rename_i base _
    cases found : basedDigits base start with
    | error other =>
        rw [found] at run
        cases run
        exact basedDigits_ordinary found
    | ok digits =>
        rw [found] at run
        exact checked run
  · exact checked run

theorem string_ordinary {start : Place} {quote : Char} {fault : SyntaxError}
    (run : string start quote = .error fault) : fault.Ordinary := by
  unfold string at run
  split at run
  · cases run
  · cases run
    rfl

theorem pattern_ordinary {start : Place} {fault : SyntaxError}
    (run : pattern start = .error fault) : fault.Ordinary := by
  unfold pattern at run
  split at run
  · cases run
  · cases run
    rfl

end Lexeme

namespace Token

theorem lexeme_ordinary {dialect : Dialect} {patternAllowed : Bool} {start : Place} {first : Char}
    {fault : SyntaxError} (run : lexeme dialect patternAllowed start first = .error fault) :
    fault.Ordinary := by
  have mapped {found : Except SyntaxError Place} {kind : TokenKind}
      (ordinary : ∀ fault, found = .error fault → fault.Ordinary)
      (run : found.map (kind, ·) = .error fault) : fault.Ordinary := by
    cases found with
    | error other =>
        cases run
        exact ordinary _ rfl
    | ok place => cases run
  unfold lexeme at run
  split at run
  · cases run
  · split at run
    · exact mapped (fun _ => Lexeme.number_ordinary) run
    · split at run
      · exact mapped (fun _ => Lexeme.string_ordinary) run
      · split at run
        · exact mapped (fun _ => Lexeme.pattern_ordinary) run
        · split at run
          · cases run
          · cases run
            rfl

theorem scan_ordinary {dialect : Dialect} {place : Place} {patternAllowed : Bool}
    {fault : SyntaxError} (run : scan dialect place patternAllowed = .error fault) :
    fault.Ordinary := by
  unfold scan at run
  cases skipped : Trivia.skip place with
  | error other =>
      rw [skipped] at run
      cases run
      exact Trivia.skipFrom_ordinary skipped
  | ok found =>
      obtain ⟨start, gap⟩ := found
      rw [skipped] at run
      dsimp only [bind, Except.bind] at run
      split at run
      · cases run
      · rename_i first rest _
        cases lexed : lexeme dialect patternAllowed start first with
        | error other =>
            rw [lexed] at run
            cases run
            exact lexeme_ordinary lexed
        | ok result =>
            rw [lexed] at run
            cases run

end Token

namespace Grammar

theorem unexpected_ordinary (token : Token) (expected : Expectation) :
    (unexpected token expected).Ordinary := by
  unfold unexpected
  split <;> rfl

theorem peek_ordinary {settings : Settings} {state last : State} {fault : SyntaxError}
    (run : peek settings state = .error fault last) : fault.Ordinary := by
  unfold peek at run
  split at run
  · cases run
  · split at run
    · cases run
    · rename_i scanned
      cases run
      exact Token.scan_ordinary scanned

theorem peekSecond_ordinary {settings : Settings} {state last : State} {fault : SyntaxError}
    (run : peekSecond settings state = .error fault last) : fault.Ordinary := by
  rcases bind_error run with peekRun | ⟨first, middle, -, scanRun⟩
  · exact peek_ordinary peekRun
  · change ofScan (Token.scan settings.dialect first.stop _) settings middle = _ at scanRun
    unfold ofScan at scanRun
    split at scanRun
    · cases scanRun
    · rename_i scanned
      cases scanRun
      exact Token.scan_ordinary scanned

/-! ## Scopes -/

/-- A change of the scope around a step. -/
inductive Shift where
  | noIn (ends : Bool)
  | async (inAsync : Bool)
  | functionBody (inAsync : Bool)

namespace Shift

variable {Value : Type}

/-- The step in the changed scope. -/
def around : Shift → Parse Value → Parse Value
  | .noIn ends => Parse.withNoIn ends
  | .async inAsync => Parse.withAsync inAsync
  | .functionBody inAsync => Parse.inFunctionBody inAsync

def scope : Shift → Scope → Scope
  | .noIn ends => Scope.withNoIn ends
  | .async inAsync => Scope.withAsync inAsync
  | .functionBody inAsync => Scope.functionBody inAsync

def enter : Shift → State → State
  | .noIn ends, state => { state with noIn := ends }
  | .async inAsync, state => { state with inAsync }
  | .functionBody inAsync, state => { state with inFunction := true, inAsync, noIn := false }

/-- The state behind the step, back in the scope before. -/
def leave : Shift → State → State → State
  | .noIn _, before, after => { after with noIn := before.noIn }
  | .async _, before, after => { after with inAsync := before.inAsync }
  | .functionBody _, before, after =>
      { after with
        inFunction := before.inFunction
        inAsync := before.inAsync
        noIn := before.noIn }

theorem around_eq (shift : Shift) (step : Parse Value) (settings : Settings) (state : State) :
    shift.around step settings state =
      (step settings (shift.enter state)).mapState (shift.leave state) := by
  cases shift <;> rfl

end Shift

/-! ## Assembled steps -/

/-- Consumes the chunk of a template that starts here, and tells its mark and
where it lies. -/
def piece : Parse (Option (Mark × Span)) :=
  fun settings state =>
    match state.point.chunk settings.size with
    | some ⟨.templateText, stop⟩ =>
        .ok (some (.templateText, ⟨state.place.offset, stop⟩))
          (state.moveTo (state.place.moveTo stop) false)
    | some ⟨.holeOpen, stop⟩ =>
        .ok (some (.holeOpen, ⟨state.place.offset, stop⟩))
          (state.moveTo (state.place.moveTo stop) true)
    | some ⟨.templateEnd, stop⟩ =>
        .ok (some (.templateEnd, ⟨state.place.offset, stop⟩))
          (state.moveTo (state.place.moveTo stop) false)
    | _ => .ok none state

def afterPiece (descent : Descent) (opening : SyntaxTree) (trees : Array SyntaxTree) :
    Option (Mark × Span) → Parse (Round (Array SyntaxTree) (Array SyntaxTree))
  | some (.templateText, span) => return .again (trees.push (.leaf (.rule .templateContent) span))
  | some (.holeOpen, span) => do
      let inner ← Parse.withIn (descent.read .expression)
      let closing ← expect .rightBrace
      return .again (((trees.push (.leaf (.fixed .holeOpen) span)).push inner).push closing)
  | some (.templateEnd, span) =>
      return .done (trees.push (.leaf (.fixed (.punctuator .backtick)) span))
  | _ => do
      let state ← Parse.state
      Parse.fail ⟨.unterminatedTemplate, ⟨opening.span.start, state.place.offset⟩⟩

/-- A template, piece by piece. -/
def inPieces (descent : Descent) : Parse SyntaxTree := do
  let opening ← expect .backtick
  let trees ← collect descent #[opening] fun trees => piece >>= afterPiece descent opening trees
  return build .templateString trees.toList

theorem template_pieces : template = inPieces := by
  funext descent
  unfold template inPieces
  congr 1
  funext opening
  congr 2
  funext trees settings state
  simp only [bind, Parse.bind, Parse.settings, Parse.state, piece, Point.chunk, State.point]
  generalize (Recognizer.template (Probe.ofPlace settings.size state.place)).verdict = verdict
  cases verdict with
  | none => rfl
  | some found =>
      obtain ⟨mark, stop⟩ := found
      cases mark <;> rfl

def commaEnd (trees : Array SyntaxTree) : Parse (Round (Array SyntaxTree) (Array SyntaxTree)) := do
  match ← accept? .comma with
  | some comma => return .again (trees.push comma)
  | none => return .done trees

def postfixAfter (operand : SyntaxTree) : Parse SyntaxTree := do
  let token ← peek
  if token.isPunctuator .increment || token.isPunctuator .decrement then
    if isPostfixAt (← Parse.settings) token then
      if ← assignable operand then
        return build .postfixExpression [operand, ← named .updateOp]
      else
        failAt token (.spelling (.punctuator .semicolon))
    else
      return operand
  else
    return operand

def choiceAfter (descent : Descent) (test : SyntaxTree) : Parse SyntaxTree := do
  match ← accept? .question with
  | none => return test
  | some question =>
      let consequent ← Parse.withIn (descent.read .assignment)
      let colon ← expect .colon
      let alternate ← descent.read .assignment
      return build .conditionalExpression [test, question, consequent, colon, alternate]

def assignmentAfter (descent : Descent) (target : SyntaxTree) : Parse SyntaxTree := do
  let token ← peek
  match assignmentKind? token.kind with
  | none => return target
  | some rule =>
      if ← assignable target then
        let operator ← named rule
        let value ← descent.read .assignment
        return build .assignmentExpression [target, operator, value]
      else
        failAt token .assignableTarget

def arrowEnd (modifier : Option SyntaxTree) (inputs : SyntaxTree) :
    Parse (Option SyntaxTree × SyntaxTree) := do
  let arrow ← peek
  if arrow.isPunctuator .arrow then
    return (modifier, inputs)
  else
    failAt arrow (.spelling (.punctuator .arrow))

abbrev IsAgain {Progress Value : Type} (round : Round Progress Value) : Prop :=
  Implements.goesOn round = true

/-- What is left open about steps that are put together. -/
structure Terms where
  /-- Whether they may start an arrow function. -/
  arrows : Prop
  /-- Whether they may end in any ordinary error. -/
  strays : Prop
  /-- The tokens that they may blame. -/
  known : Token → Prop

/-- Any ordinary error is allowed, and any token may be blamed. -/
abbrev Terms.lax (arrows : Prop) : Terms :=
  ⟨arrows, True, fun _ => True⟩

/-- A step is assembled from those that look ahead or consume a token, the
recursive calls, and the ways to combine them.  Whether it may start an arrow
function is told apart, and so are its errors. -/
inductive Assembled (terms : Terms) : {Value : Type} → (Descent → Parse Value) → Prop where
  | pure {Value : Type} (value : Value) : Assembled terms fun _ => Pure.pure value
  | bind {Value Other : Type} {first : Descent → Parse Other} {next : Other → Descent → Parse Value}
      (firstAssembled : Assembled terms first)
      (nextAssembled : ∀ value, Assembled terms (next value)) :
      Assembled terms fun descent => first descent >>= fun value => next value descent
  | fail {Value : Type} {fault : SyntaxError} (allowed : terms.strays) (ordinary : fault.Ordinary) :
      Assembled terms fun _ => (Parse.fail fault : Parse Value)
  | failAt {Value : Type} {token : Token} (known : terms.known token) (expected : Expectation) :
      Assembled terms fun _ => (Grammar.failAt token expected : Parse Value)
  /-- What comes next is known from then on. -/
  | look {Value : Type} {next : Token → Descent → Parse Value}
      (each : ∀ token, terms.known token → Assembled terms (next token)) :
      Assembled terms fun descent => Grammar.peek >>= fun token => next token descent
  | peekSecond : Assembled terms fun _ => Grammar.peekSecond
  | advance : Assembled terms fun _ => Grammar.advance
  | piece : Assembled terms fun _ => Grammar.piece
  /-- Neither the dialect, the limit nor the memory of heads is looked at. -/
  | settings {Value : Type} {next : Settings → Descent → Parse Value}
      (each : ∀ settings, Assembled terms (next settings))
      (same : ∀ settings dialect limit recallsHeads,
        next { settings with dialect, limit, recallsHeads } = next settings) :
      Assembled terms fun descent => Parse.settings >>= fun settings => next settings descent
  /-- Of the state only the point and the scope are looked at. -/
  | state {Value : Type} {next : State → Descent → Parse Value}
      (each : ∀ state, Assembled terms (next state))
      (same : ∀ one two : State, one.point = two.point → one.scope = two.scope →
        next one = next two) :
      Assembled terms fun descent => Parse.state >>= fun state => next state descent
  | read (goal : Goal) : Assembled terms fun descent => descent.read goal
  | around {Value : Type} {step : Descent → Parse Value} (shift : Shift)
      (inner : Assembled terms step) : Assembled terms fun descent => shift.around (step descent)
  | nested {Value : Type} {step : Descent → Parse Value} (inner : Assembled terms step) :
      Assembled terms fun descent => Parse.nested (step descent)
  /-- A loop goes on only after it has read something. -/
  | loop {Progress Value : Type} {round : Progress → Descent → Parse (Round Progress Value)}
      (each : ∀ progress, Assembled terms (round progress))
      (gains : ∀ {settings : Settings}, settings.size = Text.size settings.source →
        ∀ progress, Moves settings IsAgain (round progress)) (start : Progress) :
      Assembled terms fun descent =>
        iterate (fun progress => round progress descent) descent.rounds start
  /-- The error of a template that does not end is its own. -/
  | chunked (opens : Assembled terms fun _ => expect .backtick)
      (hole : ∀ opening trees span, Assembled terms fun descent =>
        afterPiece descent opening trees (some (.holeOpen, span)))
      (pieces : terms.strays → Assembled terms inPieces) : Assembled terms Grammar.template
  | arrow (allowed : terms.arrows) (async : Assembled terms fun _ => startsAsyncHead)
      (may : ∀ isAsync, Assembled terms fun _ => mayStartArrow isAsync)
      (head : ∀ isAsync, Assembled terms fun descent => arrowHead descent isAsync)
      (rest : ∀ modifier inputs,
        Assembled terms fun descent => arrowRest descent modifier inputs) :
      Assembled terms arrow?

/-! ## Moving forward -/

namespace Shift

theorem stands_enter (shift : Shift) {settings : Settings} {state : State}
    (stands : state.Stands settings) : (shift.enter state).Stands settings := by
  obtain ⟨valid, on⟩ := stands
  cases shift <;> exact ⟨valid, on⟩

theorem stands_leave (shift : Shift) {settings : Settings} (before : State) {after : State}
    (stands : after.Stands settings) : (shift.leave before after).Stands settings := by
  obtain ⟨valid, on⟩ := stands
  cases shift <;> exact ⟨valid, on⟩

@[simp]
theorem place_enter (shift : Shift) (state : State) : (shift.enter state).place = state.place := by
  cases shift <;> rfl

@[simp]
theorem place_leave (shift : Shift) (before after : State) :
    (shift.leave before after).place = after.place := by
  cases shift <;> rfl

end Shift

namespace Moves

variable {settings : Settings} {Value : Type} {gains : Value → Prop}

theorem piece (sized : settings.size = Text.size settings.source) :
    Moves settings (·.isSome) (fun _ => Grammar.piece) where
  ok {_ state last value} _ stands run := by
    unfold Grammar.piece at run
    have moved {mark : Mark} {stop : Nat} {allowed : Bool}
        (found : state.point.chunk settings.size = some ⟨mark, stop⟩)
        (same : state.moveTo (state.place.moveTo stop) allowed = last) :
        last.Stands settings ∧ state.place.offset ≤ last.place.offset ∧
          (value.isSome → state.place.offset < last.place.offset) := by
      subst same
      obtain ⟨on, further⟩ := Point.on_jump sized stands.on found
      exact ⟨.moved on _ _, further.le, fun _ => further⟩
    split at run
    · rename_i found
      exact moved found (Outcome.ok.inj run).2
    · rename_i found
      exact moved found (Outcome.ok.inj run).2
    · rename_i found
      exact moved found (Outcome.ok.inj run).2
    · cases run
      exact ⟨stands, le_rfl, by simp⟩
  error _ _ run := by
    unfold Grammar.piece at run
    split at run <;> cases run

theorem peekSecond : Somewhere settings fun _ => Grammar.peekSecond := by
  unfold Grammar.peekSecond
  refine .later .peek fun first => ⟨fun _ stands run => ?_, fun _ _ run => ?_⟩
  all_goals
    change ofScan (Token.scan settings.dialect first.stop _) settings _ = _ at run
    unfold ofScan at run
    split at run <;> cases run
  · exact ⟨stands, le_rfl, False.elim⟩
  · exact le_rfl

theorem around {step : Descent → Parse Value} (shift : Shift) (moves : Moves settings gains step) :
    Moves settings gains (fun descent => shift.around (step descent)) where
  ok {descent state last value} reads stands run := by
    rw [shift.around_eq] at run
    cases inner : step descent settings (shift.enter state) with
    | error fault after =>
        rw [inner] at run
        cases run
    | ok found after =>
        rw [inner] at run
        cases run
        obtain ⟨afterStands, le, lt⟩ := moves.ok reads (shift.stands_enter stands) inner
        simp only [Shift.place_enter] at le lt
        exact ⟨shift.stands_leave _ afterStands, by simpa using le, by simpa using lt⟩
  error {descent state last fault} reads stands run := by
    rw [shift.around_eq] at run
    cases inner : step descent settings (shift.enter state) with
    | ok found after =>
        rw [inner] at run
        cases run
    | error found after =>
        rw [inner] at run
        cases run
        simpa using moves.error reads (shift.stands_enter stands) inner

theorem nested {step : Descent → Parse Value} (moves : Moves settings gains step) :
    Moves settings gains (fun descent => Parse.nested (step descent)) where
  ok {descent state last value} reads stands run := by
    obtain ⟨fault, stops⟩ | runs := nested_cases settings state
    · rw [stops] at run
      cases run
    · rw [runs] at run
      dsimp only [between] at run
      cases inner : step descent settings { state with depth := state.depth + 1 } with
      | error fault after =>
          rw [inner] at run
          cases run
      | ok found after =>
          rw [inner] at run
          cases run
          have deeper : State.Stands settings { state with depth := state.depth + 1 } :=
            ⟨stands.valid, stands.on⟩
          obtain ⟨afterStands, le, lt⟩ := moves.ok reads deeper inner
          exact ⟨⟨afterStands.valid, afterStands.on⟩, le, lt⟩
  error {descent state last fault} reads stands run := by
    obtain ⟨fault, stops⟩ | runs := nested_cases settings state
    · rw [stops] at run
      cases run
      exact le_rfl
    · rw [runs] at run
      dsimp only [between] at run
      cases inner : step descent settings { state with depth := state.depth + 1 } with
      | ok found after =>
          rw [inner] at run
          cases run
      | error found after =>
          rw [inner] at run
          cases run
          have deeper : State.Stands settings { state with depth := state.depth + 1 } :=
            ⟨stands.valid, stands.on⟩
          have le := moves.error reads deeper inner
          exact le

theorem iterate {Progress : Type} {round : Progress → Descent → Parse (Round Progress Value)}
    (each : ∀ progress, Somewhere settings (round progress)) (start : Progress) :
    Somewhere settings fun descent =>
      Grammar.iterate (fun progress => round progress descent) descent.rounds start := by
  have along (rounds : Nat) (start : Progress) : Somewhere settings fun descent =>
      Grammar.iterate (fun progress => round progress descent) rounds start := by
    induction rounds generalizing start with
    | zero => exact .fail
    | succ rounds ih =>
        simp only [iterate_succ]
        refine .later (each start) fun result => ?_
        cases result with
        | done value => exact .pure id
        | again progress => exact ih progress
  exact ⟨fun reads => (along _ start).ok reads, fun reads => (along _ start).error reads⟩

theorem attempt {step : Descent → Parse Value} (moves : Somewhere settings step) :
    Somewhere settings fun descent => Parse.attempt (step descent) where
  ok {descent state last value} reads stands run := by
    unfold Parse.attempt at run
    cases inner : step descent settings state with
    | ok found after =>
        rw [inner] at run
        cases run
        obtain ⟨afterStands, le, -⟩ := moves.ok reads stands inner
        exact ⟨afterStands, le, False.elim⟩
    | error fault after =>
        rw [inner] at run
        dsimp only at run
        split at run
        · cases run
        · cases run
          exact ⟨⟨stands.valid, stands.on⟩, le_rfl, False.elim⟩
  error {descent state last fault} reads stands run := by
    unfold Parse.attempt at run
    cases inner : step descent settings state with
    | ok found after =>
        rw [inner] at run
        cases run
    | error found after =>
        rw [inner] at run
        dsimp only at run
        split at run
        · cases run
          exact moves.error reads stands inner
        · cases run

theorem wasRejected (offset : Nat) : Somewhere settings fun _ => Grammar.wasRejected offset where
  ok _ stands run := by
    cases run
    exact ⟨stands, le_rfl, False.elim⟩
  error _ _ run := nomatch run

theorem reject (offset : Nat) : Somewhere settings fun _ => Grammar.reject offset where
  ok _ stands run := by
    cases run
    exact ⟨⟨stands.valid, stands.on⟩, le_rfl, False.elim⟩
  error _ _ run := nomatch run

end Moves

namespace Assembled

variable {terms : Terms} {Value Other : Type}

/-- Whatever is assembled moves forward. -/
theorem moves {settings : Settings} (sized : settings.size = Text.size settings.source)
    {arrows : Prop} {step : Descent → Parse Value} (assembled : Assembled (.lax arrows) step) :
    Moves.Somewhere settings step := by
  induction assembled with
  | pure value => exact .pure id
  | bind _ _ firstIh nextIh => exact .later firstIh nextIh
  | fail | failAt => exact .fail
  | look _ ih => exact .later .peek fun token => ih token trivial
  | peekSecond => exact .peekSecond
  | advance => exact Moves.advance.weaken fun _ => False.elim
  | piece => exact (Moves.piece sized).weaken fun _ => False.elim
  | settings _ _ ih =>
      exact ⟨fun reads stands run => (ih settings).ok reads stands run,
        fun reads stands run => (ih settings).error reads stands run⟩
  | state _ _ ih =>
      exact ⟨fun reads stands run => (ih _).ok reads stands run,
        fun reads stands run => (ih _).error reads stands run⟩
  | read goal => exact (Moves.read sized goal).weaken fun _ => False.elim
  | around shift _ ih => exact ih.around shift
  | nested _ ih => exact ih.nested
  | loop _ _ start ih => exact .iterate ih start
  | chunked _ _ _ _ _ ih =>
      rw [template_pieces]
      exact ih trivial
  | arrow _ _ _ _ _ asyncIh mayIh headIh restIh =>
      have without : Moves.Somewhere settings fun _ => Pure.pure (none : Option SyntaxTree) :=
        .pure id
      refine .later .peek fun token => .later asyncIh fun isAsync =>
        .later (mayIh isAsync) fun starts => ?_
      cases starts with
      | false => exact without
      | true =>
          refine .later (.wasRejected _) fun known => ?_
          cases known with
          | true => exact without
          | false =>
              refine .later (headIh isAsync).attempt fun found => ?_
              cases found with
              | some head => exact .later (restIh head.1 head.2) fun _ => .pure id
              | none => exact .later (.reject _) fun _ => without

theorem ite {test : Prop} [Decidable test] {yes no : Descent → Parse Value}
    (yesAssembled : Assembled terms yes) (noAssembled : Assembled terms no) :
    Assembled terms fun descent => if test then yes descent else no descent := by
  by_cases holds : test
  · simpa only [if_pos holds] using yesAssembled
  · simpa only [if_neg holds] using noAssembled

theorem peek : Assembled terms fun _ => Grammar.peek := by
  have looked : Assembled terms fun _ => Grammar.peek >>= fun token => Pure.pure token :=
    .look fun token _ => .pure token
  simpa using looked

theorem map {step : Descent → Parse Other} (change : Other → Value)
    (assembled : Assembled terms step) :
    Assembled terms fun descent => change <$> step descent :=
  .bind assembled fun value => .pure (change value)

theorem withIn {step : Descent → Parse Value} (assembled : Assembled terms step) :
    Assembled terms fun descent => Parse.withIn (step descent) :=
  .around (.noIn false) assembled

/-! ## Single tokens -/

theorem leaf (kind : Kind) : Assembled terms fun _ => Grammar.leaf kind := by
  unfold Grammar.leaf
  exact .bind .advance fun token => .pure _

theorem named (rule : Rule) : Assembled terms fun _ => Grammar.named rule :=
  leaf (.rule rule)

theorem spelled (spelling : Spelling) : Assembled terms fun _ => Grammar.spelled spelling :=
  leaf (.fixed spelling)

theorem nextIs (sign : Punctuator) : Assembled terms fun _ => Grammar.nextIs sign :=
  .bind .peek fun _ => .pure _

theorem nextIsKeyword (word : Keyword) : Assembled terms fun _ => Grammar.nextIsKeyword word :=
  .bind .peek fun _ => .pure _

theorem nextIsWord (word : ContextualWord) : Assembled terms fun _ => Grammar.nextIsWord word :=
  .bind .peek fun _ => .pure _

theorem expect (sign : Punctuator) : Assembled terms fun _ => Grammar.expect sign :=
  .look fun _ known => .ite (spelled _) (.failAt known _)

theorem accept? (sign : Punctuator) : Assembled terms fun _ => Grammar.accept? sign :=
  .bind (nextIs sign) fun _ => .ite (.bind (spelled _) fun _ => .pure _) (.pure _)

theorem expectKeyword (word : Keyword) : Assembled terms fun _ => Grammar.expectKeyword word :=
  .look fun _ known => .ite (spelled _) (.failAt known _)

theorem expectWord (word : ContextualWord) : Assembled terms fun _ => Grammar.expectWord word :=
  .look fun _ known => .ite (spelled _) (.failAt known _)

theorem expectName (rule : Rule) : Assembled terms fun _ => Grammar.expectName rule :=
  .look fun _ known => .ite (named _) (.failAt known _)

/-- Going on in one of two ways, depending on whether a sign comes next. -/
theorem accepted {sign : Punctuator} {some : SyntaxTree → Descent → Parse Value}
    {none : Descent → Parse Value} (someAssembled : ∀ tree, Assembled terms (some tree))
    (noneAssembled : Assembled terms none) :
    Assembled terms fun descent => Grammar.accept? sign >>= fun found =>
      match found with
      | .some tree => some tree descent
      | .none => none descent :=
  .bind (accept? sign) fun found => by
    cases found with
    | none => exact noneAssembled
    | some tree => exact someAssembled tree

/-! ## Rounds that read something -/

section Gains

variable {settings : Settings} {gains : Value → Prop}

theorem somewhere (sized : settings.size = Text.size settings.source)
    {step : Descent → Parse Value} (assembled : Assembled (.lax False) step) :
    Moves.Somewhere settings step :=
  assembled.moves sized

theorem stops {Progress : Type} {value : Value} : Moves settings IsAgain
    fun _ => (Pure.pure (.done value) : Parse (Round Progress Value)) :=
  .pure Bool.false_ne_true

theorem expect_gains (sized : settings.size = Text.size settings.source) (sign : Punctuator) :
    Moves settings (fun _ => True) fun _ => Grammar.expect sign :=
  .along sized (Implements.takes_sign : Implements settings (Derives settings) anywhere [] _ _ _)
    (somewhere sized (expect sign)) fun _ _ => trivial

/-- What is consumed if it comes next is read in one of two ways of going
on. -/
theorem accepted_gains {sign : Punctuator}
    {some : SyntaxTree → Descent → Parse Value} {none : Descent → Parse Value}
    (someMoves : ∀ tree, Moves.Somewhere settings (some tree))
    (noneMoves : Moves settings gains none) :
    Moves settings gains fun descent => Grammar.accept? sign >>= fun found =>
      match found with
      | .some tree => some tree descent
      | .none => none descent :=
  .found (.accept sign) someMoves noneMoves

end Gains

/-! ## Ends of statements -/

theorem continues (token : Token) : Assembled terms fun _ => Grammar.continues token :=
  .settings (fun _ => .pure _) fun _ _ _ _ => rfl

theorem nextContinues : Assembled terms fun _ => Grammar.nextContinues :=
  .bind .peek fun token => continues token

theorem lineBreakBefore (token : Token) :
    Assembled terms fun _ => Grammar.lineBreakBefore token := by
  refine .state (fun _ => .pure _) fun one two point _ => ?_
  rw [show one.place = two.place from congrArg Point.place point]

theorem terminate (children : List SyntaxTree) :
    Assembled terms fun _ => Grammar.terminate children :=
  accepted (fun _ => .pure _) (.look fun _ known =>
    .settings (fun _ => .ite (.pure _) (.failAt known _)) fun _ _ _ _ => rfl)

/-! ## Functions and classes -/

theorem ends (trees : Array SyntaxTree) : Assembled terms fun _ => commaEnd trees :=
  accepted (fun _ => .pure _) (.pure _)

theorem ends_gains {settings : Settings} (trees : Array SyntaxTree) :
    Moves settings IsAgain fun _ => commaEnd trees :=
  accepted_gains (fun _ => .pure id) stops

theorem parameter (trees : Array SyntaxTree) :
    Assembled terms fun descent => Grammar.parameter descent trees := by
  refine .bind (nextIs _) fun closes => .ite (.pure _) (accepted (fun dots => ?_) ?_)
  · exact .bind (expectName _) fun _ => .pure _
  · refine .bind (expectName _) fun name => .bind (nextIs _) fun _ => .ite ?_ (ends _)
    exact .bind (named _) fun _ => .bind (.read _) fun _ => ends _

theorem parameter_gains {settings : Settings} (sized : settings.size = Text.size settings.source)
    (trees : Array SyntaxTree) :
    Moves settings IsAgain fun descent => Grammar.parameter descent trees := by
  refine .later (somewhere sized (nextIs _)) fun closes => .ite stops ?_
  refine accepted_gains (fun dots => ?_) (.later (somewhere sized (expectName _)) fun name => ?_)
  · exact somewhere sized (.bind (expectName _) fun _ => .pure _)
  · refine .later (somewhere sized (nextIs _)) fun _ => .ite ?_ (ends_gains _)
    exact .later (somewhere sized (named _)) fun _ => .later (somewhere sized (.read _)) fun _ =>
      ends_gains _

theorem parameters : Assembled terms Grammar.parameters :=
  .withIn (.bind (expect _) fun _ => .bind (.loop parameter parameter_gains _) fun _ =>
    .bind (expect _) fun _ => .pure _)

theorem block : Assembled terms Grammar.block := by
  refine .bind (expect _) fun _ => .bind (.loop (fun trees => ?_) (fun sized trees => ?_) _)
    fun _ => .bind (expect _) fun _ => .pure _
  · exact .look fun _ known => .ite (.pure _) (.ite (.failAt known _)
      (.bind (.read _) fun _ => .pure _))
  · exact .later .peek fun _ => .ite stops (.ite .fail
      (.early (.read sized _) fun _ => .pure id))

theorem functionBody (isAsync : Bool) :
    Assembled terms fun descent => Grammar.functionBody descent isAsync :=
  .around (.functionBody isAsync) block

theorem functionName (rule : Rule) : Assembled terms fun _ => Grammar.functionName rule :=
  .look fun _ known =>
    .ite (.bind (named _) fun _ => .pure _) (.ite (.failAt known _) (.pure _))

theorem function (rule : Rule) (modifier : Option SyntaxTree) :
    Assembled terms fun descent => Grammar.function descent rule modifier := by
  have rest (keyword : SyntaxTree) (star : Option SyntaxTree) : Assembled terms fun descent =>
      Grammar.functionName rule >>= fun name => Grammar.parameters descent >>= fun inputs =>
        Grammar.functionBody descent modifier.isSome >>= fun body =>
          Pure.pure (build rule (modifier.toList ++ keyword ::
            (star.toList ++ name ++ [inputs, body]))) :=
    .bind (functionName _) fun _ => .bind parameters fun _ => .bind (functionBody _) fun _ =>
      .pure _
  refine .nested (.bind (expectKeyword _) fun keyword => .bind (nextIs _) fun _ =>
    .ite ?_ (rest keyword none))
  exact .bind (.map _ (named _)) fun star => rest keyword star

theorem nextIsModifier (word : ContextualWord) (sameLine : Bool) :
    Assembled terms fun _ => Grammar.nextIsModifier word sameLine :=
  .bind (nextIsWord _) fun _ => .ite (.bind peekSecond fun _ =>
    .ite (.ite (continues _) (.pure _)) (.pure _)) (.pure _)

theorem modifier? (word : ContextualWord) (sameLine : Bool) :
    Assembled terms fun _ => Grammar.modifier? word sameLine :=
  .bind (nextIsModifier _ _) fun _ => .ite (.bind (expectWord _) fun _ => .pure _) (.pure _)

/-- Going on in one of two ways, depending on whether a modifier comes next. -/
theorem modified {word : ContextualWord} {sameLine : Bool}
    {some : SyntaxTree → Descent → Parse Value} {none : Descent → Parse Value}
    (someAssembled : ∀ tree, Assembled terms (some tree)) (noneAssembled : Assembled terms none) :
    Assembled terms fun descent => Grammar.modifier? word sameLine >>= fun found =>
      match found with
      | .some tree => some tree descent
      | .none => none descent :=
  .bind (modifier? word sameLine) fun found => by
    cases found with
    | none => exact noneAssembled
    | some tree => exact someAssembled tree

theorem leadingWord : Assembled terms fun _ => Grammar.leadingWord :=
  modified (fun _ => .pure _) (modified (fun _ => .pure _)
    (modified (fun _ => .pure _) (.pure _)))

theorem methodModifiers (allowStatic : Bool) :
    Assembled terms fun _ => Grammar.methodModifiers allowStatic := by
  unfold Grammar.methodModifiers
  refine .ite (.bind (modifier? _ _) fun static => ?_) (.bind (.pure none) fun static => ?_)
  all_goals
    refine .bind leadingWord fun ⟨word, isAsync, isAccessor⟩ => .bind (nextIs _) fun _ => ?_
    exact .ite (.bind (.pure none) fun _ => .pure _)
      (.ite (.bind (.map _ (named _)) fun _ => .pure _) (.bind (.pure none) fun _ => .pure _))

theorem propertyKey : Assembled terms Grammar.propertyKey := by
  refine .look fun token known => ?_
  split
  · exact .bind (named _) fun _ => .pure _
  · exact .bind (named _) fun _ => .pure _
  · exact .bind (named _) fun _ => .pure _
  · exact .bind (named _) fun _ => .pure _
  · exact .bind (spelled _) fun _ => .bind (.withIn (.read _)) fun _ => .bind (expect _) fun _ =>
      .pure _
  · exact .failAt known _

theorem methodRest (isAsync : Bool) :
    Assembled terms fun descent => Grammar.methodRest descent isAsync :=
  .bind parameters fun _ => .bind (functionBody _) fun _ => .pure _

theorem className (rule : Rule) : Assembled terms fun _ => Grammar.className rule :=
  .look fun _ known =>
    .ite (.bind (named _) fun _ => .pure _) (.ite (.failAt known _) (.pure _))

theorem heritage : Assembled terms Grammar.heritage :=
  .bind .peek fun _ => .ite (.bind (spelled _) fun _ => .bind (.read _) fun _ => .pure _) (.pure _)

theorem method : Assembled terms Grammar.method :=
  .bind (methodModifiers _) fun _ => .bind propertyKey fun _ => .bind (methodRest _) fun _ =>
    .pure _

theorem method_gains {settings : Settings} (sized : settings.size = Text.size settings.source) :
    Moves settings (fun _ => True) Grammar.method :=
  .along sized method_produces (somewhere sized method) fun _ _ => by
    simp [Phrase.method, Phrase.methodFromWord, Phrase.leading, Phrase.starred,
      Phrase.methodFromKey,
      Phrase.methodRest, Phrase.parameters, Phrase.all]

theorem classBody : Assembled terms Grammar.classBody := by
  refine .withIn (.bind (expect _) fun _ =>
    .bind (.loop (fun trees => ?_) (fun sized trees => ?_) _)
    fun _ => .bind (expect _) fun _ => .pure _)
  · exact .bind (nextIs _) fun _ => .ite (.pure _) (accepted (fun _ => .pure _)
      (.bind method fun _ => .pure _))
  · refine .later (somewhere sized (nextIs _)) fun _ => .ite stops
      (accepted_gains (fun _ => .pure id) ?_)
    exact .early (method_gains sized) fun _ => .pure id

theorem classDefinition (rule : Rule) :
    Assembled terms fun descent => Grammar.classDefinition descent rule :=
  .nested (.bind (expectKeyword _) fun _ => .bind (className _) fun _ => .bind heritage fun _ =>
    .bind classBody fun _ => .pure _)

/-! ## Operands -/

theorem spreadAfter (dots : SyntaxTree) :
    Assembled terms fun descent => Grammar.spreadAfter descent dots :=
  .bind (.read _) fun _ => .pure _

theorem element : Assembled terms Grammar.element :=
  accepted spreadAfter (.read _)

theorem element_gains {settings : Settings} (sized : settings.size = Text.size settings.source) :
    Moves settings (fun _ => True) Grammar.element :=
  accepted_gains (fun _ => somewhere sized (spreadAfter _)) (.read sized _)

theorem arguments : Assembled terms Grammar.arguments := by
  refine .withIn (.bind (expect _) fun _ =>
    .bind (.loop (fun trees => ?_) (fun sized trees => ?_) _)
    fun _ => .bind (expect _) fun _ => .pure _)
  · exact .bind (nextIs _) fun _ => .ite (.pure _) (.bind element fun _ => ends _)
  · exact .later (somewhere sized (nextIs _)) fun _ => .ite stops
      (.early (element_gains sized) fun _ => somewhere sized (ends _))

theorem array : Assembled terms Grammar.array := by
  refine .withIn (.bind (expect _) fun _ =>
    .bind (.loop (fun trees => ?_) (fun sized trees => ?_) _)
    fun _ => .bind (expect _) fun _ => .pure _)
  · exact .bind (nextIs _) fun _ => .ite (.pure _) (accepted (fun _ => .pure _)
      (.bind element fun _ => .bind (nextIs _) fun _ => .ite (.pure _)
        (.bind (expect _) fun _ => .pure _)))
  · refine .later (somewhere sized (nextIs _)) fun _ => .ite stops
      (accepted_gains (fun _ => .pure id) (.early (element_gains sized) fun _ => ?_))
    exact somewhere sized (.bind (nextIs _) fun _ => .ite (.pure _)
      (.bind (expect _) fun _ => .pure _))

theorem property : Assembled terms Grammar.property := by
  refine .bind (methodModifiers _) fun modifiers => .bind propertyKey fun key => ?_
  refine .ite (.bind (.pure true) fun isMethod => ?_) (.bind (nextIs _) fun isMethod => ?_)
  all_goals
    refine .ite (.bind (methodRest _) fun _ => .pure _)
      (accepted (fun _ => .bind (.read _) fun _ => .pure _) ?_)
    exact .settings (fun _ => .ite (.pure _) (.look fun _ known => .failAt known _))
      fun _ _ _ _ => rfl

theorem object : Assembled terms Grammar.object := by
  refine .withIn (.bind (expect _) fun _ =>
    .bind (.loop (fun trees => ?_) (fun sized trees => ?_) _)
    fun _ => .bind (expect _) fun _ => .pure _)
  · exact .bind (nextIs _) fun _ => .ite (.pure _) (accepted
      (fun _ => .bind (spreadAfter _) fun _ => ends _) (.bind property fun _ => ends _))
  · refine .later (somewhere sized (nextIs _)) fun _ => .ite stops
      (accepted_gains (fun _ => ?_) (.later (somewhere sized property) fun _ => ends_gains _))
    exact somewhere sized (.bind (spreadAfter _) fun _ => ends _)

theorem parenthesized : Assembled terms Grammar.parenthesized :=
  .withIn (.bind (expect _) fun _ => .bind (.read _) fun _ => .bind (expect _) fun _ => .pure _)

theorem hole (opening : SyntaxTree) (trees : Array SyntaxTree) (span : Span) :
    Assembled terms fun descent =>
      Grammar.afterPiece descent opening trees (some (.holeOpen, span)) :=
  .bind (.withIn (.read _)) fun _ => .bind (expect _) fun _ => .pure _

theorem afterPiece (allowed : terms.strays) (opening : SyntaxTree) (trees : Array SyntaxTree)
    (found : Option (Mark × Span)) :
    Assembled terms fun descent => Grammar.afterPiece descent opening trees found := by
  have unfinished : Assembled terms fun _ => (do
      let state ← Parse.state
      Parse.fail ⟨.unterminatedTemplate, ⟨opening.span.start, state.place.offset⟩⟩ :
        Parse (Round (Array SyntaxTree) (Array SyntaxTree))) := by
    refine .state (fun _ => .fail allowed rfl) fun one two point _ => ?_
    rw [show one.place = two.place from congrArg Point.place point]
  unfold Grammar.afterPiece
  split
  · exact .pure _
  · exact hole opening trees _
  · exact .pure _
  · exact unfinished

theorem inPieces (allowed : terms.strays) : Assembled terms Grammar.inPieces := by
  refine .bind (expect _) fun opening => .bind (.loop (fun trees => ?_) (fun sized trees => ?_) _)
    fun _ => .pure _
  · exact .bind .piece fun found => afterPiece allowed opening trees found
  · refine .found (.piece sized)
      (fun found => somewhere sized (afterPiece trivial opening trees (some found))) ?_
    refine ⟨fun _ _ run => ?_, fun _ _ run => ?_⟩
    · cases run
    · cases run
      exact le_rfl

theorem template : Assembled terms Grammar.template :=
  .chunked (expect _) hole inPieces

theorem nameOrFunction : Assembled terms Grammar.nameOrFunction :=
  .bind (nextIsWord _) fun _ => .ite (.bind peekSecond fun _ => .bind (continues _) fun _ =>
    .ite (.bind (expectWord _) fun _ => function _ _) (named _)) (named _)

theorem primary : Assembled terms Grammar.primary := by
  refine .look fun token known => ?_
  split
  · exact nameOrFunction
  · exact named _
  · exact named _
  · exact named _
  · exact function _ _
  · exact classDefinition _
  · exact parenthesized
  · exact array
  · exact object
  · exact template
  · exact .failAt known _

theorem memberName : Assembled terms fun _ => Grammar.memberName := by
  refine .look fun token known => ?_
  split
  · exact named _
  · exact named _
  · exact .failAt known _

theorem memberStep (allowCall : Bool) (operand : SyntaxTree) :
    Assembled terms fun descent => Grammar.memberStep descent allowCall operand := by
  refine .bind .peek fun token => ?_
  split
  · exact .bind (spelled _) fun _ => .bind memberName fun _ => .pure _
  · exact .bind (spelled _) fun _ => .bind (.withIn (.read _)) fun _ => .bind (expect _) fun _ =>
      .pure _
  · exact .ite (.bind arguments fun _ => .pure _) (.pure _)
  · exact .bind template fun _ => .pure _
  · exact .pure _

theorem memberStep_gains {settings : Settings} (sized : settings.size = Text.size settings.source)
    (allowCall : Bool) (operand : SyntaxTree) :
    Moves settings IsAgain fun descent => Grammar.memberStep descent allowCall operand := by
  refine .along sized (member_rounds operand) (somewhere sized (memberStep allowCall operand)) ?_
  intro result again
  rw [again]
  simp [Phrase.memberRound, Phrase.arguments, Phrase.all]

theorem memberChain (allowCall : Bool) (operand : SyntaxTree) :
    Assembled terms fun descent => Grammar.memberChain descent allowCall operand :=
  .loop (memberStep allowCall) (fun sized => memberStep_gains sized allowCall) operand

theorem construction : Assembled terms Grammar.construction := by
  have rest (keyword base : SyntaxTree) : Assembled terms fun descent =>
      Grammar.memberChain descent false base >>= fun callee =>
        Grammar.nextIs .leftParen >>= fun isCall =>
          if isCall = true then Grammar.arguments descent >>= fun inputs =>
            Pure.pure (build .newExpression [keyword, callee, inputs])
          else Pure.pure (build .newExpression [keyword, callee]) :=
    .bind (memberChain _ _) fun _ => .bind (nextIs _) fun _ =>
      .ite (.bind arguments fun _ => .pure _) (.pure _)
  exact .nested (.bind (expectKeyword _) fun _ => .bind (nextIsKeyword _) fun _ =>
    .ite (.bind (.read _) fun _ => rest _ _) (.bind primary fun _ => rest _ _))

theorem leftHandSide : Assembled terms Grammar.leftHandSide :=
  .bind (nextIsKeyword _) fun _ => .ite (.bind construction fun _ => memberChain _ _)
    (.bind primary fun _ => memberChain _ _)

/-! ## Operators and assignments -/

theorem assignable (tree : SyntaxTree) : Assembled terms fun _ => Grammar.assignable tree :=
  .settings (fun _ => .pure _) fun _ _ _ _ => rfl

theorem postfixAfter (operand : SyntaxTree) :
    Assembled terms fun _ => Grammar.postfixAfter operand := by
  refine .look fun token known => .ite (.settings (fun settings => ?_) fun _ _ _ _ => rfl) (.pure _)
  exact .ite (.bind (assignable _) fun _ =>
    .ite (.bind (named _) fun _ => .pure _) (.failAt known _))
    (.pure _)

theorem withPostfix : Assembled terms Grammar.withPostfix :=
  .bind leftHandSide postfixAfter

theorem unary : Assembled terms Grammar.unary := by
  refine .look fun token known => ?_
  cases prefixKind? token.kind with
  | some kind =>
      refine .settings (fun settings => ?_) fun _ _ _ _ => rfl
      exact .ite (.failAt known _) (.bind (leaf _) fun _ => .bind (.nested (.read _)) fun _ =>
        .bind (assignable _) fun _ => .ite (.failAt known _) (.pure _))
  | none =>
      refine .state (fun state => ?_) fun one two _ scope => ?_
      · exact .ite (.bind (expectWord _) fun _ => .bind (.nested (.read _)) fun _ => .pure _)
          withPostfix
      · rw [show one.inAsync = two.inAsync from congrArg Scope.inAsync scope]

theorem binaryStep (level : Nat) (left : SyntaxTree) :
    Assembled terms fun descent => Grammar.binaryStep descent level left := by
  refine .bind .peek fun token => .state (fun state => ?_) fun one two _ scope => ?_
  · cases BinaryOperator.ofToken? token.kind state.noIn with
    | none => exact .pure _
    | some operator =>
        exact .ite (.pure _) (.bind (leaf _) fun _ => .bind (.nested (.read _)) fun _ => .pure _)
  · rw [show one.noIn = two.noIn from congrArg Scope.noIn scope]

theorem binaryStep_gains {settings : Settings} (sized : settings.size = Text.size settings.source)
    (level : Nat) (left : SyntaxTree) :
    Moves settings IsAgain fun descent => Grammar.binaryStep descent level left := by
  refine .along sized (binary_rounds left) (somewhere sized (binaryStep level left)) ?_
  intro result again
  rw [again]
  refine ⟨fun kind => ?_, by simp [Phrase.all]⟩
  dsimp only
  cases BinaryOperator.ofToken? kind false with
  | none => exact fun _ _ _ _ => id
  | some operator => simp [Phrase.operation, Phrase.all]

theorem binary (level : Nat) : Assembled terms fun descent => Grammar.binary descent level :=
  .bind unary fun _ => .loop (binaryStep level) (fun sized => binaryStep_gains sized level) _

theorem choiceAfter (test : SyntaxTree) :
    Assembled terms fun descent => Grammar.choiceAfter descent test := by
  refine .bind (accept? _) fun found => ?_
  cases found with
  | none => exact .pure _
  | some question =>
      exact .bind (.withIn (.read _)) fun _ => .bind (expect _) fun _ => .bind (.read _) fun _ =>
        .pure _

theorem conditional : Assembled terms Grammar.conditional :=
  .bind (binary _) choiceAfter

theorem startsAsyncHead : Assembled terms fun _ => Grammar.startsAsyncHead :=
  .bind (nextIsWord _) fun _ => .ite (.bind peekSecond fun _ => .ite (continues _) (.pure _))
    (.pure _)

theorem mayStartArrow (isAsync : Bool) : Assembled terms fun _ => Grammar.mayStartArrow isAsync :=
  .bind .peek fun _ => .ite (.pure _) (.ite (.bind peekSecond fun _ => .pure _) (.pure _))

theorem arrowEnd (modifier : Option SyntaxTree) (inputs : SyntaxTree) :
    Assembled terms fun _ => Grammar.arrowEnd modifier inputs :=
  .look fun _ known => .ite (.pure _) (.failAt known _)

theorem arrowHead (isAsync : Bool) :
    Assembled terms fun descent => Grammar.arrowHead descent isAsync := by
  refine .ite (.bind (.map _ (expectWord _)) fun modifier => ?_)
    (.bind (.pure none) fun modifier => ?_)
  all_goals
    exact .bind .peek fun _ => .ite (.bind (named _) fun _ => arrowEnd _ _)
      (.bind parameters fun _ => arrowEnd _ _)

theorem arrowRest (modifier : Option SyntaxTree) (inputs : SyntaxTree) :
    Assembled terms fun descent => Grammar.arrowRest descent modifier inputs :=
  .bind (expect _) fun _ => .bind (nextIs _) fun _ => .ite (.bind (functionBody _) fun _ => .pure _)
    (.bind (.around (.async _) (.read _)) fun _ => .pure _)

theorem assignmentAfter (target : SyntaxTree) :
    Assembled terms fun descent => Grammar.assignmentAfter descent target := by
  refine .look fun token known => ?_
  cases assignmentKind? token.kind with
  | none => exact .pure _
  | some rule =>
      exact .bind (assignable _) fun _ => .ite
        (.bind (named _) fun _ => .bind (.read _) fun _ => .pure _) (.failAt known _)

theorem assignment (allowed : terms.arrows) : Assembled terms Grammar.assignment := by
  refine .nested (.bind (.arrow allowed startsAsyncHead mayStartArrow arrowHead arrowRest)
    fun found => ?_)
  cases found with
  | some function => exact .pure _
  | none => exact .bind conditional assignmentAfter

theorem expression : Assembled terms Grammar.expression := by
  refine .bind (.read _) fun first => .bind (nextIs _) fun _ => .ite ?_ (.pure _)
  refine .bind (.loop (fun trees => .bind (accept? _) fun found => ?_) (fun sized trees => ?_) _)
    fun _ => .pure _
  · cases found with
    | none => exact .pure _
    | some comma => exact .bind (.read _) fun _ => .pure _
  · exact .found (.accept _) (fun _ => somewhere sized (.bind (.read _) fun _ => .pure _)) stops

/-! ## Declarations and loops -/

theorem binding (trees : Array SyntaxTree) :
    Assembled terms fun descent => Grammar.binding descent trees := by
  have ends (trees : Array SyntaxTree) : Assembled terms fun _ : Descent =>
      Grammar.accept? .comma >>= fun found =>
        match found with
        | some comma => Grammar.expectName .variableDefinition >>= fun name =>
            Pure.pure
              (.again ((trees.push comma).push name) : Round (Array SyntaxTree) (Array SyntaxTree))
        | none => Pure.pure (.done trees) :=
    accepted (fun _ => .bind (expectName _) fun _ => .pure _) (.pure _)
  exact .bind (nextIs _) fun _ => .ite
    (.bind (named _) fun _ => .bind (.read _) fun _ => ends _) (ends _)

theorem binding_gains {settings : Settings} (sized : settings.size = Text.size settings.source)
    (trees : Array SyntaxTree) :
    Moves settings IsAgain fun descent => Grammar.binding descent trees := by
  have ends (trees : Array SyntaxTree) : Moves settings IsAgain fun _ : Descent =>
      Grammar.accept? .comma >>= fun found =>
        match found with
        | some comma => Grammar.expectName .variableDefinition >>= fun name =>
            Pure.pure
              (.again ((trees.push comma).push name) : Round (Array SyntaxTree) (Array SyntaxTree))
        | none => Pure.pure (.done trees) :=
    accepted_gains (fun _ => somewhere sized (.bind (expectName _) fun _ => .pure _)) stops
  exact .later (somewhere sized (nextIs _)) fun _ =>
    .ite (.later (somewhere sized (named _)) fun _ =>
    .later (somewhere sized (.read _)) fun _ => ends _) (ends _)

theorem declarationRest (noIn : Bool) (trees : Array SyntaxTree) :
    Assembled terms fun descent => Grammar.declarationRest descent noIn trees :=
  .around (.noIn noIn) (.bind (.loop binding binding_gains _) fun _ => .pure _)

theorem declaration (word : Keyword) :
    Assembled terms fun descent => Grammar.declaration descent word :=
  .bind (spelled _) fun _ => .bind (expectName _) fun _ => .bind (declarationRest _ _) fun _ =>
    .bind (terminate _) fun _ => .pure _

theorem ifStatement : Assembled terms Grammar.ifStatement :=
  .bind (expectKeyword _) fun _ => .bind parenthesized fun _ => .bind (.read _) fun _ =>
    .bind (nextIsKeyword _) fun _ => .ite
      (.bind (spelled _) fun _ => .bind (.read _) fun _ => .pure _) (.pure _)

theorem whileStatement : Assembled terms Grammar.whileStatement :=
  .bind (expectKeyword _) fun _ => .bind parenthesized fun _ => .bind (.read _) fun _ => .pure _

theorem doStatement : Assembled terms Grammar.doStatement :=
  .bind (expectKeyword _) fun _ => .bind (.read _) fun _ => .bind (expectKeyword _) fun _ =>
    .bind parenthesized fun _ => .bind (accept? _) fun _ => .pure _

theorem iterationRest (children : List SyntaxTree) :
    Assembled terms fun descent => Grammar.iterationRest descent children :=
  .bind (nextIsKeyword _) fun _ => .ite
    (.bind (spelled _) fun _ => .bind (.withIn (.read _)) fun _ => .bind (expect _) fun _ =>
      .pure _)
    (.bind (expectWord _) fun _ => .bind (.withIn (.read _)) fun _ => .bind (expect _) fun _ =>
      .pure _)

theorem expressionBefore (sign : Punctuator) :
    Assembled terms fun descent => Grammar.expressionBefore descent sign :=
  .bind (nextIs _) fun _ => .ite (.pure _) (.bind (.read _) fun _ => .pure _)

theorem countingRest (children : List SyntaxTree) :
    Assembled terms fun descent => Grammar.countingRest descent children :=
  .withIn (.bind (expect _) fun _ => .bind (expressionBefore _) fun _ => .bind (expect _) fun _ =>
    .bind (expressionBefore _) fun _ => .bind (expect _) fun _ => .pure _)

theorem nextIterates : Assembled terms fun _ => Grammar.nextIterates :=
  .bind .peek fun _ => .pure _

theorem declaredHead (opening : SyntaxTree) (word : Keyword) :
    Assembled terms fun descent => Grammar.declaredHead descent opening word :=
  .bind (spelled _) fun _ => .bind (expectName _) fun _ => .bind nextIterates fun _ =>
    .ite (iterationRest _) (.bind (declarationRest _ _) fun _ => countingRest _)

theorem expressionHead (opening : SyntaxTree) :
    Assembled terms fun descent => Grammar.expressionHead descent opening :=
  .bind (.around (.noIn true) expression) fun _ => .bind nextIterates fun _ =>
    .ite (.bind (assignable _) fun _ =>
      .ite (iterationRest _) (.look fun _ known => .failAt known _))
      (countingRest _)

theorem forHead : Assembled terms Grammar.forHead := by
  refine .bind (expect _) fun opening => .bind .peek fun token => .ite (countingRest _) ?_
  cases declares token.kind with
  | none => exact expressionHead opening
  | some word => exact declaredHead opening word

theorem forStatement : Assembled terms Grammar.forStatement :=
  .bind (expectKeyword _) fun _ => .bind forHead fun _ => .bind (.read _) fun _ => .pure _

/-! ## Exceptions and switches -/

theorem handlerBinding : Assembled terms fun _ => Grammar.handlerBinding := by
  refine .bind (accept? _) fun found => ?_
  cases found with
  | none => exact .pure _
  | some opening => exact .bind (expectName _) fun _ => .bind (expect _) fun _ => .pure _

theorem handler : Assembled terms Grammar.handler :=
  .bind (nextIsKeyword _) fun _ => .ite
    (.bind (spelled _) fun _ => .bind handlerBinding fun _ => .bind block fun _ => .pure _)
    (.pure _)

theorem finalizer : Assembled terms Grammar.finalizer :=
  .bind (nextIsKeyword _) fun _ => .ite
    (.bind (spelled _) fun _ => .bind block fun _ => .pure _) (.pure _)

theorem tryStatement : Assembled terms Grammar.tryStatement := by
  refine .bind (expectKeyword _) fun _ => .bind block fun _ => .bind handler fun handled =>
    .bind finalizer fun finished => ?_
  cases handled ++ finished with
  | nil => exact .look fun _ known => .failAt known _
  | cons => exact .pure _

theorem caseLabel : Assembled terms Grammar.caseLabel :=
  .bind (spelled _) fun _ => .bind (.withIn (.read _)) fun _ => .bind (expect _) fun _ => .pure _

theorem defaultLabel : Assembled terms fun _ => Grammar.defaultLabel :=
  .bind (spelled _) fun _ => .bind (expect _) fun _ => .pure _

theorem switchEntry (trees : Array SyntaxTree) :
    Assembled terms fun descent => Grammar.switchEntry descent trees :=
  .look fun _ known => .ite (.pure _) (.ite (.bind caseLabel fun _ => .pure _)
    (.ite (.bind defaultLabel fun _ => .pure _)
      (.ite (.bind (.read _) fun _ => .pure _) (.failAt known _))))

theorem switchEntry_gains {settings : Settings} (sized : settings.size = Text.size settings.source)
    (trees : Array SyntaxTree) :
    Moves settings IsAgain fun descent => Grammar.switchEntry descent trees := by
  have labelled : Moves settings (fun _ => True) Grammar.caseLabel :=
    .later (somewhere sized (spelled _)) fun _ =>
      .early (Moves.around (.noIn false) (.read sized _)) fun _ =>
        somewhere sized (.bind (expect _) fun _ => .pure _)
  have byDefault : Moves settings (fun _ => True) fun _ => Grammar.defaultLabel :=
    .later (somewhere sized (spelled _)) fun _ => .early (expect_gains sized _) fun _ => .pure id
  exact .later .peek fun _ => .ite stops (.ite (.early labelled fun _ => .pure id)
    (.ite (.early byDefault fun _ => .pure id)
      (.ite (.early (.read sized _) fun _ => .pure id) .fail)))

theorem switchStatement : Assembled terms Grammar.switchStatement :=
  .bind (expectKeyword _) fun _ => .bind parenthesized fun _ => .bind (expect _) fun _ =>
    .bind (.loop switchEntry switchEntry_gains _) fun _ => .bind (expect _) fun _ => .pure _

/-! ## Statements -/

theorem expressionStatement : Assembled terms Grammar.expressionStatement :=
  .bind expression fun _ => .bind (terminate _) fun _ => .pure _

theorem nameStatement : Assembled terms Grammar.nameStatement := by
  refine .bind .peek fun token => .bind peekSecond fun second => .ite ?_ ?_
  · exact .bind (named _) fun _ => .bind (spelled _) fun _ => .bind (.read _) fun _ => .pure _
  · exact .bind (continues _) fun _ => .ite (.bind (expectWord _) fun _ => function _ _)
      expressionStatement

theorem returnStatement : Assembled terms Grammar.returnStatement := by
  refine .look fun token known => .state (fun state => ?_) fun one two _ scope => ?_
  · exact .ite (.bind (spelled _) fun _ => .bind nextContinues fun _ => .ite
      (.bind expression fun _ => .bind (terminate _) fun _ => .pure _)
      (.bind (terminate _) fun _ => .pure _)) (.failAt known _)
  · rw [show one.inFunction = two.inFunction from congrArg Scope.inFunction scope]

theorem jumpStatement (rule : Rule) (word : Keyword) :
    Assembled terms fun _ => Grammar.jumpStatement rule word :=
  .bind (spelled _) fun _ => .bind nextContinues fun _ => .bind .peek fun _ =>
    .ite (.bind (named _) fun _ => .bind (terminate _) fun _ => .pure _)
      (.bind (terminate _) fun _ => .pure _)

theorem throwStatement : Assembled terms Grammar.throwStatement :=
  .bind (spelled _) fun _ => .look fun _ known => .bind (lineBreakBefore _) fun _ =>
    .ite (.failAt known _) (.bind expression fun _ => .bind (terminate _) fun _ => .pure _)

theorem keywordStatement (word : Keyword) :
    Assembled terms fun descent => Grammar.keywordStatement descent word := by
  unfold Grammar.keywordStatement
  split
  · exact declaration _
  · exact declaration _
  · exact declaration _
  · exact function _ _
  · exact classDefinition _
  · exact ifStatement
  · exact whileStatement
  · exact doStatement
  · exact forStatement
  · exact tryStatement
  · exact switchStatement
  · exact returnStatement
  · exact jumpStatement _ _
  · exact jumpStatement _ _
  · exact throwStatement
  · exact .bind (spelled _) fun _ => .bind (terminate _) fun _ => .pure _
  · exact expressionStatement

theorem statement : Assembled terms Grammar.statement := by
  refine .nested (.bind .peek fun token => ?_)
  split
  · exact block
  · exact .bind (spelled _) fun _ => .pure _
  · exact keywordStatement _
  · exact nameStatement
  · exact expressionStatement

end Assembled

variable {terms : Terms}

/-- Only an assignment may start an arrow function. -/
theorem produce_assembled (goal : Goal) (allowed : goal = .assignment → terms.arrows) :
    Assembled terms fun descent => produce descent goal := by
  cases goal with
  | statement => exact .statement
  | expression => exact .expression
  | assignment => exact .assignment (allowed rfl)
  | binary level => exact .binary level
  | unary => exact .unary
  | leftHandSide => exact .leftHandSide
  | construction => exact .construction

theorem script_assembled : Assembled terms script := by
  refine .bind (.loop (fun trees => ?_) (fun sized trees => ?_) _)
    fun _ => .settings (fun _ => .pure _) fun _ _ _ _ => rfl
  · exact .bind .peek fun _ => .ite (.pure _) (.bind (.read _) fun _ => .pure _)
  · exact .later .peek fun _ => .ite Assembled.stops (.early (.read sized _) fun _ => .pure id)

end Grammar

end ScriptTree
