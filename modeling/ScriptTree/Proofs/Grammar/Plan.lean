import ScriptTree.Proofs.Frame

/-!
# Plans of the grammar

A plan writes down which acts a step consists of.  Run as it is, it is the
step; run with another way of looking ahead, it is a second reader that differs
from the first in nothing else.  A plan also tells which states a run passes
through, in the middle of a step and in speculations that fail.
-/

namespace ScriptTree

namespace Grammar

/-- A step, written down act by act. -/
inductive Plan : Type → Type 1 where
  | pure {Value : Type} (value : Value) : Plan Value
  | bind {Other Value : Type} (first : Plan Other) (next : Other → Plan Value) : Plan Value
  | fail {Value : Type} (fault : SyntaxError) : Plan Value
  /-- Looks at the next token. -/
  | look : Plan Token
  | settings : Plan Settings
  /-- Tells the point and the scope, but not whether a token is kept. -/
  | stand : Plan (Point × Scope)
  /-- Goes on at another place. -/
  | moveTo (place : Place) (patternAllowed : Bool) : Plan Unit
  | wasRejected (offset : Nat) : Plan Bool
  | reject (offset : Nat) : Plan Unit
  | read (goal : Goal) : Plan SyntaxTree
  | around {Value : Type} (shift : Shift) (inner : Plan Value) : Plan Value
  | nested {Value : Type} (inner : Plan Value) : Plan Value
  | attempt {Value : Type} (inner : Plan Value) : Plan (Option Value)
  | loop {Progress Value : Type} (round : Progress → Plan (Round Progress Value))
      (start : Progress) : Plan Value

def standing : Parse (Point × Scope) :=
  fun _ state => .ok (state.point, state.scope) state

namespace Plan

variable {Value Other Progress : Type}

/-- Runs a plan with a way of looking at the next token. -/
def run (look : Parse Token) (descent : Descent) : {Value : Type} → Plan Value → Parse Value
  | _, .pure value => Pure.pure value
  | _, .bind first next => first.run look descent >>= fun value => (next value).run look descent
  | _, .fail fault => Parse.fail fault
  | _, .look => look
  | _, .settings => Parse.settings
  | _, .stand => standing
  | _, .moveTo place patternAllowed => Parse.modify (·.moveTo place patternAllowed)
  | _, .wasRejected offset => Grammar.wasRejected offset
  | _, .reject offset => Grammar.reject offset
  | _, .read goal => descent.read goal
  | _, .around shift inner => shift.around (inner.run look descent)
  | _, .nested inner => Parse.nested (inner.run look descent)
  | _, .attempt inner => Parse.attempt (inner.run look descent)
  | _, .loop round start =>
      iterate (fun progress => (round progress).run look descent) descent.rounds start

/-- What follows a round of a loop. -/
def resume (next : Progress → Plan Value) : Round Progress Value → Plan Value
  | .again progress => next progress
  | .done value => .pure value

def unroll (round : Progress → Plan (Round Progress Value)) : Nat → Progress → Plan Value
  | 0, _ => .fail stalled
  | rounds + 1, progress => .bind (round progress) (resume (unroll round rounds))

/-! ## Plans of single steps -/

def ofScan : Except SyntaxError Token → Plan Token
  | .ok token => .pure token
  | .error fault => .fail fault

def peekSecond : Plan Token :=
  .bind .look fun first => .bind .settings fun settings =>
    ofScan (Token.scan settings.dialect first.stop first.kind.allowsPatternAfter)

def advance : Plan Token :=
  .bind .look fun token => .bind (.moveTo token.stop token.kind.allowsPatternAfter) fun _ =>
    .pure token

def take (place : Place) (mark : Mark) (stop : Nat) (patternAllowed : Bool) :
    Plan (Option (Mark × Span)) :=
  .bind (.moveTo (place.moveTo stop) patternAllowed) fun _ =>
    .pure (some (mark, ⟨place.offset, stop⟩))

def piece : Plan (Option (Mark × Span)) :=
  .bind .settings fun settings => .bind .stand fun (point, _) =>
    match point.chunk settings.size with
    | some ⟨.templateText, stop⟩ => take point.place .templateText stop false
    | some ⟨.holeOpen, stop⟩ => take point.place .holeOpen stop true
    | some ⟨.templateEnd, stop⟩ => take point.place .templateEnd stop false
    | _ => .pure none

/-- An arrow function whose head is tried at an offset. -/
def tryHead (head : Plan (Option SyntaxTree × SyntaxTree))
    (rest : Option SyntaxTree → SyntaxTree → Plan SyntaxTree) (offset : Nat) :
    Bool → Plan (Option SyntaxTree)
  | true => .pure none
  | false => .bind (.attempt head) fun
      | some (modifier, inputs) => .bind (rest modifier inputs) fun tree => .pure (some tree)
      | none => .bind (.reject offset) fun _ => .pure none

def arrow (async : Plan Bool) (may : Bool → Plan Bool)
    (head : Bool → Plan (Option SyntaxTree × SyntaxTree))
    (rest : Option SyntaxTree → SyntaxTree → Plan SyntaxTree) : Plan (Option SyntaxTree) :=
  .bind .look fun token => .bind async fun isAsync => .bind (may isAsync) fun
    | true => .bind (.wasRejected token.start.offset)
        (tryHead (head isAsync) rest token.start.offset)
    | false => .pure none

variable {look : Parse Token} {descent : Descent}

theorem run_ofScan (result : Except SyntaxError Token) :
    (ofScan result).run look descent = Grammar.ofScan result := by
  cases result <;> rfl

theorem run_peekSecond : peekSecond.run peek descent = Grammar.peekSecond := by
  simp only [peekSecond, run, run_ofScan]
  rfl

theorem run_piece : piece.run look descent = Grammar.piece := by
  funext settings state
  change (match state.point.chunk settings.size with
    | some ⟨.templateText, stop⟩ => take state.place .templateText stop false
    | some ⟨.holeOpen, stop⟩ => take state.place .holeOpen stop true
    | some ⟨.templateEnd, stop⟩ => take state.place .templateEnd stop false
    | _ => Plan.pure none).run look descent settings state = _
  unfold Grammar.piece
  cases state.point.chunk settings.size with
  | none => rfl
  | some found =>
      obtain ⟨mark, stop⟩ := found
      cases mark <;> rfl

/-- What is read along the rounds of a loop is what the loop does. -/
theorem run_unroll (round : Progress → Plan (Round Progress Value)) (rounds : Nat)
    (start : Progress) :
    (unroll round rounds start).run look descent =
      iterate (fun progress => (round progress).run look descent) rounds start := by
  induction rounds generalizing start with
  | zero => rfl
  | succ rounds ih =>
      rw [iterate_succ]
      change ((round start).run look descent >>= _) = _
      congr 1
      funext result
      cases result with
      | again progress => exact ih progress
      | done value => rfl

section

variable {async : Plan Bool} {may : Bool → Plan Bool}
  {head : Bool → Plan (Option SyntaxTree × SyntaxTree)}
  {rest : Option SyntaxTree → SyntaxTree → Plan SyntaxTree}

theorem run_arrow (asyncRun : async.run peek descent = startsAsyncHead)
    (mayRun : ∀ isAsync, (may isAsync).run peek descent = mayStartArrow isAsync)
    (headRun : ∀ isAsync, (head isAsync).run peek descent = arrowHead descent isAsync)
    (restRun : ∀ modifier inputs,
      (rest modifier inputs).run peek descent = arrowRest descent modifier inputs) :
    (arrow async may head rest).run peek descent = arrow? descent := by
  simp only [arrow, run, asyncRun, mayRun]
  unfold arrow?
  congr 1
  funext token
  congr 1
  funext isAsync
  congr 1
  funext starts
  cases starts with
  | false => rfl
  | true =>
      change (Grammar.wasRejected token.start.offset >>= _) = Grammar.wasRejected _ >>= _
      congr 1
      funext known
      cases known with
      | true => rfl
      | false =>
          simp only [tryHead, run, headRun]
          change _ = Parse.attempt (arrowHead descent isAsync) >>= _
          congr 1
          funext found
          cases found with
          | none => rfl
          | some found => simp only [run, restRun]

end

end Plan

/-! ## Plans of the whole grammar -/

namespace Outcome

variable {Value : Type}

/-- The value or the error, without the state that is left behind. -/
def toExcept : Outcome Value → Except SyntaxError Value
  | .ok value _ => .ok value
  | .error fault _ => .error fault

@[simp]
theorem toExcept_mapState (change : State → State) (outcome : Outcome Value) :
    (outcome.mapState change).toExcept = outcome.toExcept := by
  cases outcome <;> rfl

end Outcome

theorem parseWith_eq (settings : Settings) :
    parseWith settings =
      (script ⟨stepsFor settings.size, read (stepsFor settings.size)⟩ settings
        (.initial settings.source)).toExcept := by
  unfold parseWith
  dsimp only
  cases script ⟨stepsFor settings.size, read (stepsFor settings.size)⟩ settings
    (.initial settings.source) <;> rfl

/-- Whatever is assembled follows a plan. -/
theorem Assembled.planned {arrows : Prop} {Value : Type} {step : Descent → Parse Value}
    (assembled : Assembled (.lax arrows) step) :
    ∃ plan : Plan Value, ∀ descent, plan.run Grammar.peek descent = step descent := by
  induction assembled with
  | pure value => exact ⟨.pure value, fun _ => rfl⟩
  | bind _ _ firstIh nextIh =>
      obtain ⟨first, firstRun⟩ := firstIh
      choose next nextRun using nextIh
      exact ⟨.bind first next, fun descent => by simp only [Plan.run, firstRun, nextRun]⟩
  | @fail _ fault => exact ⟨.fail fault, fun _ => rfl⟩
  | @failAt _ token _ expected => exact ⟨.fail (unexpected token expected), fun _ => rfl⟩
  | look _ ih =>
      choose next nextRun using fun token => ih token trivial
      exact ⟨.bind .look next, fun descent => by simp only [Plan.run, nextRun]⟩
  | peekSecond => exact ⟨.peekSecond, fun _ => Plan.run_peekSecond⟩
  | advance => exact ⟨.advance, fun _ => rfl⟩
  | piece => exact ⟨.piece, fun _ => Plan.run_piece⟩
  | settings _ _ ih =>
      choose next nextRun using ih
      exact ⟨.bind .settings next, fun descent => by simp only [Plan.run, nextRun]⟩
  | @state _ next each same ih =>
      -- The plan cannot ask for the state, but the next step needs no more of
      -- it than the point and the scope.
      choose plan planRun using ih
      let someState (point : Point) (scope : Scope) : State :=
        { State.initial [] with
          place := point.place
          patternAllowed := point.patternAllowed
          inFunction := scope.inFunction
          inAsync := scope.inAsync
          noIn := scope.noIn }
      refine ⟨.bind .stand fun (point, scope) => plan (someState point scope), fun descent => ?_⟩
      funext settings state
      change (plan (someState state.point state.scope)).run Grammar.peek descent settings state =
        next state descent settings state
      rw [planRun, same (someState state.point state.scope) state rfl rfl]
  | read goal => exact ⟨.read goal, fun _ => rfl⟩
  | around shift _ ih =>
      obtain ⟨inner, innerRun⟩ := ih
      exact ⟨.around shift inner, fun descent => by simp only [Plan.run, innerRun]⟩
  | nested _ ih =>
      obtain ⟨inner, innerRun⟩ := ih
      exact ⟨.nested inner, fun descent => by simp only [Plan.run, innerRun]⟩
  | loop _ _ start ih =>
      choose round roundRun using ih
      exact ⟨.loop round start, fun descent => by simp only [Plan.run, roundRun]⟩
  | chunked _ _ _ _ _ ih =>
      rw [template_pieces]
      exact ih trivial
  | arrow _ _ _ _ _ asyncIh mayIh headIh restIh =>
      obtain ⟨async, asyncRun⟩ := asyncIh
      choose may mayRun using mayIh
      choose head headRun using headIh
      choose rest restRun using restIh
      exact ⟨.arrow async may head rest, fun descent => Plan.run_arrow (asyncRun descent)
        (mayRun · descent) (headRun · descent) (restRun · · descent)⟩

/-- A plan of each goal and one of a whole text, which the reader follows. -/
structure Plans where
  goal : Goal → Plan SyntaxTree
  script : Plan SyntaxTree
  goal_run : ∀ asked descent, (goal asked).run peek descent = produce descent asked
  script_run : ∀ descent, script.run peek descent = Grammar.script descent

theorem nonempty_plans : Nonempty Plans := by
  choose goal goalRun using fun asked =>
    (produce_assembled asked fun _ => trivial : Assembled (.lax True) (produce · asked)).planned
  obtain ⟨script, scriptRun⟩ := (script_assembled : Assembled (.lax True) Grammar.script).planned
  exact ⟨⟨goal, script, goalRun, scriptRun⟩⟩

namespace Plans

variable (plans : Plans) (look : Parse Token)

/-- Reads a goal by its plan, with a way of looking ahead. -/
def read : Nat → Goal → Parse SyntaxTree
  | 0, _ => Parse.fail stalled
  | steps + 1, goal => (plans.goal goal).run look ⟨steps, read steps⟩

/-- Reads a text by its plan, with a way of looking ahead. -/
def parseWith (settings : Settings) : Except SyntaxError SyntaxTree :=
  let steps := stepsFor settings.size
  (plans.script.run look ⟨steps, plans.read look steps⟩ settings
    (State.initial settings.source)).toExcept

/-- The states a plan passes through when it is run from a state with so many
steps left. -/
inductive Passes (settings : Settings) :
    Nat → {Value : Type} → Plan Value → State → State → Prop where
  | start {steps : Nat} {Value : Type} {plan : Plan Value} {state : State} :
      Passes settings steps plan state state
  | last {steps : Nat} {Value : Type} {plan : Plan Value} {state : State} :
      Passes settings steps plan state
        (plan.run peek ⟨steps, Grammar.read steps⟩ settings state).last
  | first {steps : Nat} {Value Other : Type} {first : Plan Other} {next : Other → Plan Value}
      {state inner : State} (passes : Passes settings steps first state inner) :
      Passes settings steps (.bind first next) state inner
  | next {steps : Nat} {Value Other : Type} {first : Plan Other} {next : Other → Plan Value}
      {value : Other} {state middle inner : State}
      (ran : first.run peek ⟨steps, Grammar.read steps⟩ settings state = .ok value middle)
      (passes : Passes settings steps (next value) middle inner) :
      Passes settings steps (.bind first next) state inner
  | read {steps : Nat} {goal : Goal} {state inner : State}
      (passes : Passes settings steps (plans.goal goal) state inner) :
      Passes settings (steps + 1) (.read goal) state inner
  | around {steps : Nat} {Value : Type} {plan : Plan Value} {shift : Shift} {state inner : State}
      (passes : Passes settings steps plan (shift.enter state) inner) :
      Passes settings steps (.around shift plan) state inner
  | nested {steps : Nat} {Value : Type} {plan : Plan Value} {state inner : State}
      (allowed : ∀ limit, settings.limit = some limit → state.depth < limit)
      (passes : Passes settings steps plan { state with depth := state.depth + 1 } inner) :
      Passes settings steps (.nested plan) state inner
  | attempt {steps : Nat} {Value : Type} {plan : Plan Value} {state inner : State}
      (passes : Passes settings steps plan state inner) :
      Passes settings steps (.attempt plan) state inner
  | loop {steps : Nat} {Progress Value : Type}
      {round : Progress → Plan (Round Progress Value)} {start : Progress} {state inner : State}
      (passes : Passes settings steps (Plan.unroll round steps start) state inner) :
      Passes settings steps (.loop round start) state inner

/-- The states that are reached while a text is read. -/
def Reaches (settings : Settings) (state : State) : Prop :=
  plans.Passes settings (stepsFor settings.size) plans.script (State.initial settings.source) state

theorem read_peek (steps : Nat) (goal : Goal) :
    plans.read peek steps goal = Grammar.read steps goal := by
  induction steps generalizing goal with
  | zero => rfl
  | succ steps ih =>
      have same : plans.read peek steps = Grammar.read steps := funext ih
      change (plans.goal goal).run peek ⟨steps, plans.read peek steps⟩ = _
      rw [same, plans.goal_run]
      rfl

/-- Run as they are, the plans are the reader. -/
theorem parseWith_peek (settings : Settings) :
    plans.parseWith peek settings = Grammar.parseWith settings := by
  let steps := stepsFor settings.size
  have same : plans.read peek steps = Grammar.read steps := funext (plans.read_peek steps)
  calc
    plans.parseWith peek settings =
        (plans.script.run peek ⟨steps, plans.read peek steps⟩ settings
          (State.initial settings.source)).toExcept := rfl
    _ = (Grammar.script ⟨steps, Grammar.read steps⟩ settings
          (State.initial settings.source)).toExcept := by
      rw [same, plans.script_run]
    _ = Grammar.parseWith settings := (parseWith_eq settings).symm

end Plans

end Grammar

end ScriptTree
