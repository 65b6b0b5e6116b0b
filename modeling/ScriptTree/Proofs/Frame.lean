import ScriptTree.Proofs.Grammar.Assembled
import ScriptTree.Proofs.Grammar.Forward

/-!
# What reading leaves as it was

Every step goes back to the scope and the depth it was started in, whether it
succeeds or fails.  A speculation that fails goes back to its place as well, so
that only the memory of rejected heads may have grown.
-/

namespace ScriptTree

namespace Grammar

variable {Value Other Progress : Type}

namespace Outcome

/-- The state that is left behind. -/
def last : Outcome Value → State
  | .ok _ last | .error _ last => last

@[simp]
theorem last_mapState (change : State → State) (outcome : Outcome Value) :
    (outcome.mapState change).last = change outcome.last := by
  cases outcome <;> rfl

end Outcome

/-- Wherever a step is started, it keeps what every step leaves as it was. -/
def Keeps (step : Parse Value) : Prop :=
  ∀ settings state, Kept state (step settings state).last

namespace Keeps

theorem pure (value : Value) : Keeps (Pure.pure value) :=
  fun _ state => .refl state

theorem fail (fault : SyntaxError) : Keeps (Parse.fail fault : Parse Value) :=
  fun _ state => .refl state

theorem bind {step : Parse Other} {next : Other → Parse Value} (first : Keeps step)
    (second : ∀ value, Keeps (next value)) : Keeps (step >>= next) := by
  intro settings state
  have kept := first settings state
  change Kept state (Parse.bind step next settings state).last
  unfold Parse.bind
  cases found : step settings state with
  | error fault after =>
      rw [found] at kept
      exact kept
  | ok value after =>
      rw [found] at kept
      exact kept.trans (second value settings after)

theorem peek : Keeps peek := by
  intro settings state
  unfold Grammar.peek
  split
  · exact .refl state
  · split
    · exact ⟨rfl, rfl, fun _ member => member⟩
    · exact .refl state

theorem ofScan (result : Except SyntaxError Token) : Keeps (ofScan result) := by
  intro settings state
  cases result <;> exact .refl state

theorem peekSecond : Keeps peekSecond :=
  .bind .peek fun _ => .bind (fun _ state => .refl state) fun _ => .ofScan _

theorem advance : Keeps advance :=
  .bind .peek fun _ => .bind (fun _ _ => ⟨rfl, rfl, fun _ member => member⟩) fun _ => .pure _

theorem piece : Keeps piece := by
  intro settings state
  unfold Grammar.piece
  split <;> exact ⟨rfl, rfl, fun _ member => member⟩

theorem wasRejected (offset : Nat) : Keeps (wasRejected offset) :=
  .bind (fun _ state => .refl state) fun _ => .bind (fun _ state => .refl state) fun _ => .pure _

theorem reject (offset : Nat) : Keeps (reject offset) :=
  fun _ _ => ⟨rfl, rfl, fun _ => List.mem_cons_of_mem offset⟩

variable {step : Parse Value}

theorem between {change : State → State} {restore : State → State → State}
    {inside : Scope → Scope} (surrounds : Surrounds change restore inside) (keeps : Keeps step) :
    Keeps (between change restore step) := by
  intro settings state
  rw [Outcome.last_mapState]
  exact surrounds.kept state _ (keeps settings (change state))

theorem around (shift : Shift) (keeps : Keeps step) : Keeps (shift.around step) := by
  cases shift with
  | noIn ends => exact keeps.between (surrounds_noIn ends)
  | async inAsync => exact keeps.between (surrounds_async inAsync)
  | functionBody inAsync => exact keeps.between (surrounds_functionBody inAsync)

theorem nested (keeps : Keeps step) : Keeps (Parse.nested step) := by
  intro settings state
  obtain ⟨fault, stops⟩ | runs := nested_cases settings state
  · rw [stops]
    exact .refl state
  · rw [runs]
    exact keeps.between surrounds_depth settings state

/-- A failure is undone, but for the heads that were rejected on the way. -/
theorem attempt (keeps : Keeps step) : Keeps (Parse.attempt step) := by
  intro settings state
  have kept := keeps settings state
  unfold Parse.attempt
  cases found : step settings state with
  | ok value after =>
      rw [found] at kept
      exact kept
  | error fault after =>
      rw [found] at kept
      dsimp only
      split
      · exact kept
      · exact ⟨kept.scope, rfl, kept.heads⟩

theorem iterate {round : Progress → Parse (Round Progress Value)}
    (each : ∀ progress, Keeps (round progress)) (rounds : Nat) (start : Progress) :
    Keeps (iterate round rounds start) := by
  induction rounds generalizing start with
  | zero => exact .fail _
  | succ rounds ih =>
      rw [iterate_succ]
      refine .bind (each start) fun result => ?_
      cases result with
      | done value => exact .pure value
      | again progress => exact ih progress

end Keeps

/-- An arrow function, or the speculation that finds none. -/
theorem arrow?_keeps {descent : Descent} (async : Keeps startsAsyncHead)
    (may : ∀ isAsync, Keeps (mayStartArrow isAsync))
    (head : ∀ isAsync, Keeps (arrowHead descent isAsync))
    (rest : ∀ modifier inputs, Keeps (arrowRest descent modifier inputs)) :
    Keeps (arrow? descent) := by
  refine .bind .peek fun token => .bind async fun isAsync => .bind (may isAsync) fun starts => ?_
  cases starts with
  | false => exact .pure none
  | true =>
      refine .bind (.wasRejected _) fun known => ?_
      cases known with
      | true => exact .pure none
      | false =>
          refine .bind (head isAsync).attempt fun found => ?_
          cases found with
          | some head => exact .bind (rest head.1 head.2) fun _ => .pure _
          | none => exact .bind (.reject _) fun _ => .pure none

/-- Whatever is assembled keeps the scope and the depth if the recursive calls
do. -/
theorem Assembled.keeps {arrows : Prop} {step : Descent → Parse Value}
    (assembled : Assembled (.lax arrows) step) {descent : Descent}
    (reads : ∀ goal, Keeps (descent.read goal)) : Keeps (step descent) := by
  induction assembled with
  | pure value => exact .pure value
  | bind _ _ firstIh nextIh => exact .bind firstIh nextIh
  | fail => exact .fail _
  | failAt => exact .fail _
  | look _ ih => exact .bind .peek fun token => ih token trivial
  | peekSecond => exact .peekSecond
  | advance => exact .advance
  | piece => exact .piece
  | settings _ _ ih => exact .bind (fun _ state => .refl state) ih
  | state _ _ ih => exact .bind (fun _ state => .refl state) ih
  | read goal => exact reads goal
  | around shift _ ih => exact ih.around shift
  | nested _ ih => exact ih.nested
  | loop _ _ start ih => exact .iterate ih descent.rounds start
  | chunked _ _ _ _ _ ih =>
      rw [template_pieces]
      exact ih trivial
  | arrow _ _ _ _ _ async may head rest => exact arrow?_keeps async may head rest

/-- Every goal is read with the scope and the depth kept. -/
theorem read_keeps (steps : Nat) (goal : Goal) : Keeps (read steps goal) := by
  induction steps generalizing goal with
  | zero => exact .fail stalled
  | succ steps ih =>
      have assembled : Assembled (.lax True) fun descent => produce descent goal :=
        produce_assembled goal fun _ => trivial
      exact assembled.keeps ih

/-! ## Parsing functions -/

/-- The parsing functions of the grammar, from single tokens to whole texts. -/
inductive Production : {Value : Type} → (Descent → Parse Value) → Prop where
  | peek : Production fun _ => peek
  | peekSecond : Production fun _ => peekSecond
  | advance : Production fun _ => advance
  | leaf (kind : Kind) : Production fun _ => leaf kind
  | nextIs (sign : Punctuator) : Production fun _ => nextIs sign
  | nextIsKeyword (word : Keyword) : Production fun _ => nextIsKeyword word
  | nextIsWord (word : ContextualWord) : Production fun _ => nextIsWord word
  | expect (sign : Punctuator) : Production fun _ => expect sign
  | accept? (sign : Punctuator) : Production fun _ => accept? sign
  | expectKeyword (word : Keyword) : Production fun _ => expectKeyword word
  | expectWord (word : ContextualWord) : Production fun _ => expectWord word
  | expectName (rule : Rule) : Production fun _ => expectName rule
  | continues (token : Token) : Production fun _ => continues token
  | nextContinues : Production fun _ => nextContinues
  | lineBreakBefore (token : Token) : Production fun _ => lineBreakBefore token
  | terminate (children : List SyntaxTree) : Production fun _ => terminate children
  | parameter (trees : Array SyntaxTree) : Production (parameter · trees)
  | parameters : Production parameters
  | block : Production block
  | functionBody (isAsync : Bool) : Production (functionBody · isAsync)
  | functionName (rule : Rule) : Production fun _ => functionName rule
  | function (rule : Rule) (modifier : Option SyntaxTree) : Production (function · rule modifier)
  | nextIsModifier (word : ContextualWord) (sameLine : Bool) :
      Production fun _ => nextIsModifier word sameLine
  | modifier? (word : ContextualWord) (sameLine : Bool) :
      Production fun _ => modifier? word sameLine
  | methodModifiers (allowStatic : Bool) : Production fun _ => methodModifiers allowStatic
  | propertyKey : Production propertyKey
  | methodRest (isAsync : Bool) : Production (methodRest · isAsync)
  | className (rule : Rule) : Production fun _ => className rule
  | heritage : Production heritage
  | method : Production method
  | classBody : Production classBody
  | classDefinition (rule : Rule) : Production (classDefinition · rule)
  | element : Production element
  | arguments : Production arguments
  | array : Production array
  | property : Production property
  | object : Production object
  | parenthesized : Production parenthesized
  | template : Production template
  | nameOrFunction : Production nameOrFunction
  | primary : Production primary
  | memberName : Production fun _ => memberName
  | memberStep (allowCall : Bool) (operand : SyntaxTree) :
      Production (memberStep · allowCall operand)
  | memberChain (allowCall : Bool) (operand : SyntaxTree) :
      Production (memberChain · allowCall operand)
  | construction : Production construction
  | leftHandSide : Production leftHandSide
  | assignable (tree : SyntaxTree) : Production fun _ => assignable tree
  | withPostfix : Production withPostfix
  | unary : Production unary
  | binaryStep (level : Nat) (left : SyntaxTree) : Production (binaryStep · level left)
  | binary (level : Nat) : Production (binary · level)
  | conditional : Production conditional
  | arrowHead (isAsync : Bool) : Production (arrowHead · isAsync)
  | arrowRest (modifier : Option SyntaxTree) (inputs : SyntaxTree) :
      Production (arrowRest · modifier inputs)
  | arrow? : Production arrow?
  | assignment : Production assignment
  | expression : Production expression
  | binding (trees : Array SyntaxTree) : Production (binding · trees)
  | declarationRest (noIn : Bool) (trees : Array SyntaxTree) :
      Production (declarationRest · noIn trees)
  | declaration (word : Keyword) : Production (declaration · word)
  | ifStatement : Production ifStatement
  | whileStatement : Production whileStatement
  | doStatement : Production doStatement
  | iterationRest (children : List SyntaxTree) : Production (iterationRest · children)
  | countingRest (children : List SyntaxTree) : Production (countingRest · children)
  | forHead : Production forHead
  | forStatement : Production forStatement
  | handler : Production handler
  | finalizer : Production finalizer
  | tryStatement : Production tryStatement
  | switchEntry (trees : Array SyntaxTree) : Production (switchEntry · trees)
  | switchStatement : Production switchStatement
  | expressionStatement : Production expressionStatement
  | nameStatement : Production nameStatement
  | returnStatement : Production returnStatement
  | jumpStatement (rule : Rule) (word : Keyword) : Production fun _ => jumpStatement rule word
  | throwStatement : Production throwStatement
  | keywordStatement (word : Keyword) : Production (keywordStatement · word)
  | statement : Production statement
  | script : Production script

theorem Production.assembled {step : Descent → Parse Value} (production : Production step) :
    Assembled (.lax True) step := by
  cases production with
  | peek => exact .peek
  | peekSecond => exact .peekSecond
  | advance => exact .advance
  | leaf kind => exact .leaf kind
  | nextIs sign => exact .nextIs sign
  | nextIsKeyword word => exact .nextIsKeyword word
  | nextIsWord word => exact .nextIsWord word
  | expect sign => exact .expect sign
  | accept? sign => exact .accept? sign
  | expectKeyword word => exact .expectKeyword word
  | expectWord word => exact .expectWord word
  | expectName rule => exact .expectName rule
  | continues token => exact .continues token
  | nextContinues => exact .nextContinues
  | lineBreakBefore token => exact .lineBreakBefore token
  | terminate children => exact .terminate children
  | parameter trees => exact .parameter trees
  | parameters => exact .parameters
  | block => exact .block
  | functionBody isAsync => exact .functionBody isAsync
  | functionName rule => exact .functionName rule
  | function rule modifier => exact .function rule modifier
  | nextIsModifier word sameLine => exact .nextIsModifier word sameLine
  | modifier? word sameLine => exact .modifier? word sameLine
  | methodModifiers allowStatic => exact .methodModifiers allowStatic
  | propertyKey => exact .propertyKey
  | methodRest isAsync => exact .methodRest isAsync
  | className rule => exact .className rule
  | heritage => exact .heritage
  | method => exact .method
  | classBody => exact .classBody
  | classDefinition rule => exact .classDefinition rule
  | element => exact .element
  | arguments => exact .arguments
  | array => exact .array
  | property => exact .property
  | object => exact .object
  | parenthesized => exact .parenthesized
  | template => exact .template
  | nameOrFunction => exact .nameOrFunction
  | primary => exact .primary
  | memberName => exact .memberName
  | memberStep allowCall operand => exact .memberStep allowCall operand
  | memberChain allowCall operand => exact .memberChain allowCall operand
  | construction => exact .construction
  | leftHandSide => exact .leftHandSide
  | assignable tree => exact .assignable tree
  | withPostfix => exact .withPostfix
  | unary => exact .unary
  | binaryStep level left => exact .binaryStep level left
  | binary level => exact .binary level
  | conditional => exact .conditional
  | arrowHead isAsync => exact .arrowHead isAsync
  | arrowRest modifier inputs => exact .arrowRest modifier inputs
  | arrow? => exact .arrow trivial .startsAsyncHead .mayStartArrow .arrowHead .arrowRest
  | assignment => exact .assignment trivial
  | expression => exact .expression
  | binding trees => exact .binding trees
  | declarationRest noIn trees => exact .declarationRest noIn trees
  | declaration word => exact .declaration word
  | ifStatement => exact .ifStatement
  | whileStatement => exact .whileStatement
  | doStatement => exact .doStatement
  | iterationRest children => exact .iterationRest children
  | countingRest children => exact .countingRest children
  | forHead => exact .forHead
  | forStatement => exact .forStatement
  | handler => exact .handler
  | finalizer => exact .finalizer
  | tryStatement => exact .tryStatement
  | switchEntry trees => exact .switchEntry trees
  | switchStatement => exact .switchStatement
  | expressionStatement => exact .expressionStatement
  | nameStatement => exact .nameStatement
  | returnStatement => exact .returnStatement
  | jumpStatement rule word => exact .jumpStatement rule word
  | throwStatement => exact .throwStatement
  | keywordStatement word => exact .keywordStatement word
  | statement => exact .statement
  | script => exact script_assembled

theorem Production.keeps {step : Descent → Parse Value} (production : Production step)
    (rounds steps : Nat) : Keeps (step ⟨rounds, read steps⟩) :=
  production.assembled.keeps (read_keeps steps)

/-! ## Looking ahead -/

/-- Where the next token is known, a step leaves the state as it is. -/
def Looks (step : Parse Value) : Prop :=
  ∀ settings state token, (step settings (State.look state token)).last = state.look token

namespace Looks

theorem pure (value : Value) : Looks (Pure.pure value) :=
  fun _ _ _ => rfl

theorem bind {step : Parse Other} {next : Other → Parse Value} (first : Looks step)
    (second : ∀ value, Looks (next value)) : Looks (step >>= next) := by
  intro settings state token
  have same := first settings state token
  change (Parse.bind step next settings (state.look token)).last = _
  unfold Parse.bind
  cases found : step settings (state.look token) with
  | error fault after =>
      rw [found] at same
      exact same
  | ok value after =>
      rw [found] at same
      obtain rfl : after = state.look token := same
      exact second value settings state token

theorem ite {test : Prop} [Decidable test] {yes no : Parse Value} (first : Looks yes)
    (second : Looks no) : Looks (if test then yes else no) := by
  split
  · exact first
  · exact second

theorem peek : Looks peek :=
  fun _ _ _ => rfl

theorem peekSecond : Looks peekSecond :=
  .bind .peek fun first => .bind (fun _ _ _ => rfl) fun settings _ _ _ => by
    cases Token.scan settings.dialect first.stop first.kind.allowsPatternAfter <;> rfl

theorem startsAsyncHead : Looks startsAsyncHead :=
  .bind (.bind .peek fun _ => .pure _) fun _ => .ite
    (.bind .peekSecond fun _ => .ite (.bind (fun _ _ _ => rfl) fun _ => .pure _) (.pure _))
    (.pure _)

theorem mayStartArrow (isAsync : Bool) : Looks (mayStartArrow isAsync) :=
  .bind .peek fun _ => .ite (.pure _) (.ite (.bind .peekSecond fun _ => .pure _) (.pure _))

theorem wasRejected (offset : Nat) : Looks (wasRejected offset) :=
  .bind (fun _ _ _ => rfl) fun _ => .bind (fun _ _ _ => rfl) fun _ => .pure _

variable {settings : Settings} {state last : State} {token : Token} {step : Parse Value}
  {value : Value}

theorem same (looks : Looks step) (run : step settings (state.look token) = .ok value last) :
    last = state.look token := by
  have same := looks settings state token
  rw [run] at same
  exact same

end Looks

theorem peek_look {settings : Settings} {state after : State} {token : Token}
    (run : peek settings state = .ok token after) : after = state.look token := by
  unfold peek at run
  split at run
  · rename_i found looked
    cases run
    cases state
    cases looked
    rfl
  · split at run
    · cases run
      rfl
    · cases run

/-! ## Failed speculation -/

/-- A state looks as an earlier one does from outside, but for the heads that
were rejected since. -/
structure Untouched (settings : Settings) (state last : State) : Prop where
  place : last.place = state.place
  patternAllowed : last.patternAllowed = state.patternAllowed
  kept : Kept state last
  next : ∃ token looked, peek settings state = .ok token looked ∧
    peek settings last = .ok token last

theorem attempt_none {step : Parse Value} {settings : Settings} {state last : State}
    (run : Parse.attempt step settings state = .ok none last) :
    ∃ fault after, step settings state = .error fault after ∧ last = after.rewindTo state := by
  unfold Parse.attempt at run
  split at run
  · cases run
  · rename_i fault after failed
    split at run
    · cases run
    · cases run
      exact ⟨fault, after, failed, rfl⟩

theorem arrow?_untouched {descent : Descent} {settings : Settings} {state last : State}
    (head : ∀ isAsync, Keeps (arrowHead descent isAsync))
    (run : arrow? descent settings state = .ok none last) : Untouched settings state last := by
  obtain ⟨token, looked, peekRun, run⟩ := bind_ok run
  obtain rfl := peek_look peekRun
  have unmoved : Untouched settings state (state.look token) :=
    ⟨rfl, rfl, ⟨rfl, rfl, fun _ member => member⟩, token, _, peekRun, rfl⟩
  obtain ⟨isAsync, middle, asyncRun, run⟩ := bind_ok run
  obtain rfl := Looks.startsAsyncHead.same asyncRun
  obtain ⟨starts, middle, startsRun, run⟩ := bind_ok run
  obtain rfl := (Looks.mayStartArrow isAsync).same startsRun
  cases starts with
  | false =>
      cases run
      exact unmoved
  | true =>
      obtain ⟨known, middle, knownRun, run⟩ := bind_ok run
      obtain rfl := (Looks.wasRejected _).same knownRun
      cases known with
      | true =>
          cases run
          exact unmoved
      | false =>
          obtain ⟨found, middle, headRun, run⟩ := bind_ok run
          cases found with
          | some found =>
              obtain ⟨tree, _, -, run⟩ := bind_ok run
              cases run
          | none =>
              obtain ⟨fault, after, failed, rfl⟩ := attempt_none headRun
              have kept := head isAsync settings (state.look token)
              rw [failed] at kept
              cases run
              exact ⟨rfl, rfl, ⟨kept.scope, rfl, fun _ member =>
                List.mem_cons_of_mem _ (kept.heads member)⟩, token, _, peekRun, rfl⟩

/-- Every parsing function goes back to the depth and the flags it was started
with, whether it succeeds or fails.  Where no arrow function is found, the
reader also stands where it stood and faces the same token. -/
theorem reading_keeps (settings : Settings) (rounds steps : Nat) (state : State) :
    (∀ {Value : Type} {step : Descent → Parse Value}, Production step →
      Kept state (step ⟨rounds, read steps⟩ settings state).last) ∧
    ∀ last, arrow? ⟨rounds, read steps⟩ settings state = .ok none last →
      Untouched settings state last := by
  constructor
  · intro Value step production
    exact production.keeps rounds steps settings state
  · intro last run
    exact arrow?_untouched (fun isAsync => (Production.arrowHead isAsync).keeps rounds steps) run

/-- Whether a step succeeded without finding anything. -/
def Outcome.isNone : Outcome (Option Value) → Bool
  | .ok none _ => true
  | _ => false

theorem Outcome.exists_of_isNone {outcome : Outcome (Option Value)}
    (isNone : outcome.isNone = true) : ∃ last, outcome = .ok none last := by
  unfold Outcome.isNone at isNone
  split at isNone
  · exact ⟨_, rfl⟩
  · cases isNone

/-- A group that could be the head of an arrow function, with an asynchronous
arrow function inside. -/
def groupSource : Text :=
  "(a, b = async () => \x7b\x7d)".toList

/-- The start of the group in the head of a loop inside a function. -/
def beforeGroup : State :=
  { State.initial groupSource with
    depth := 2
    inFunction := true
    noIn := true }

theorem reading_keeps_group :
    Production (fun descent => arrowHead descent false) ∧
    ∃ last, arrow? ⟨20, read 20⟩ (.ofOptions ⟨.script, .standard⟩ groupSource) beforeGroup =
        .ok none last ∧
      Untouched (.ofOptions ⟨.script, .standard⟩ groupSource) beforeGroup last ∧
      Kept beforeGroup (arrowHead ⟨20, read 20⟩ false (.ofOptions ⟨.script, .standard⟩ groupSource)
        beforeGroup).last := by
  obtain ⟨last, run⟩ : ∃ last, arrow? ⟨20, read 20⟩ (.ofOptions ⟨.script, .standard⟩ groupSource)
      beforeGroup = .ok none last :=
    Outcome.exists_of_isNone (by decide +kernel)
  obtain ⟨keeps, untouched⟩ :=
    reading_keeps (.ofOptions ⟨.script, .standard⟩ groupSource) 20 20 beforeGroup
  have head := keeps (Production.arrowHead false)
  exact ⟨.arrowHead false, last, run, untouched last run, head⟩

end Grammar

end ScriptTree
