import ScriptTree.Proofs.Grammar.Plan
import ScriptTree.Proofs.Grammar.Reached

/-!
# Keeping the next token

The reader keeps the next token once it has been scanned.  What it keeps is
always what would be scanned at its place, after tokens and chunks of templates
that were consumed, and after speculations that were undone.  So it reads every
text as a reader does that keeps nothing and scans whenever it looks ahead.
-/

namespace ScriptTree

namespace Grammar

/-- The next token, scanned whenever it is asked for and not kept. -/
def rescan : Parse Token :=
  fun settings state =>
    ofScan (Token.scan settings.dialect state.place state.patternAllowed) settings state

/-- The state without the token it keeps. -/
def State.forget (state : State) : State :=
  { state with peeked := none }

variable {Value Other Progress : Type} {settings : Settings}

/-- From a valid state a step leaves a valid one, and another step does the same
from the state without its token. -/
structure Mirrors (settings : Settings) (keeping scanning : Parse Value) : Prop where
  valid : ∀ {state : State}, state.Valid settings → (keeping settings state).last.Valid settings
  same : ∀ {state : State}, state.Valid settings →
    scanning settings state.forget = (keeping settings state).mapState State.forget

namespace Mirrors

/-- A step that does not ask for the next token. -/
theorem blind {step : Parse Value}
    (valid : ∀ {state : State}, state.Valid settings → (step settings state).last.Valid settings)
    (same : ∀ state, step settings state.forget = (step settings state).mapState State.forget) :
    Mirrors settings step step :=
  ⟨valid, fun {state} _ => same state⟩

theorem pure (value : Value) : Mirrors settings (Pure.pure value) (Pure.pure value) :=
  .blind id fun _ => rfl

theorem fail (fault : SyntaxError) :
    Mirrors settings (Parse.fail fault : Parse Value) (Parse.fail fault) :=
  .blind id fun _ => rfl

theorem peek : Mirrors settings peek rescan where
  valid {state} valid := by
    cases run : Grammar.peek settings state with
    | ok token last => exact (peek_ok valid run).2.2.1
    | error fault last =>
        obtain rfl := peek_error run
        exact valid
  same {state} valid := by
    unfold Grammar.peek rescan
    cases looked : state.peeked with
    | some token =>
        -- Here alone the two readers act differently, and validity makes up for it.
        have scanned : Token.scan settings.dialect state.place state.patternAllowed = .ok token :=
          valid token looked
        change ofScan (Token.scan settings.dialect state.place state.patternAllowed) _ _ = _
        rw [scanned]
        rfl
    | none =>
        change ofScan (Token.scan settings.dialect state.place state.patternAllowed) _ _ = _
        dsimp only
        cases Token.scan settings.dialect state.place state.patternAllowed <;> rfl

theorem bind {keeping scanning : Parse Other} {next later : Other → Parse Value}
    (first : Mirrors settings keeping scanning)
    (second : ∀ value, Mirrors settings (next value) (later value)) :
    Mirrors settings (keeping >>= next) (scanning >>= later) where
  valid {state} valid := by
    have between := first.valid valid
    change (Parse.bind keeping next settings state).last.Valid settings
    unfold Parse.bind
    cases run : keeping settings state with
    | ok value middle =>
        rw [run] at between
        exact (second value).valid between
    | error fault middle =>
        rw [run] at between
        exact between
  same {state} valid := by
    have between := first.valid valid
    have same := first.same valid
    change Parse.bind scanning later settings state.forget =
      (Parse.bind keeping next settings state).mapState State.forget
    unfold Parse.bind
    rw [same]
    cases run : keeping settings state with
    | ok value middle =>
        rw [run] at between
        exact (second value).same between
    | error fault middle => rfl

theorem standing : Mirrors settings standing standing :=
  .blind id fun _ => rfl

theorem moveTo (place : Place) (patternAllowed : Bool) :
    Mirrors settings (Parse.modify (·.moveTo place patternAllowed))
      (Parse.modify (·.moveTo place patternAllowed)) :=
  .blind (fun _ => nofun) fun _ => rfl

theorem wasRejected (offset : Nat) :
    Mirrors settings (wasRejected offset) (wasRejected offset) :=
  .blind id fun _ => rfl

theorem reject (offset : Nat) : Mirrors settings (reject offset) (reject offset) :=
  .blind id fun _ => rfl

variable {keeping scanning : Parse Value}

/-- A change of the state around a step that has nothing to do with the token
that is kept. -/
theorem between {change : State → State} {restore : State → State → State}
    (enters : ∀ {state}, state.Valid settings → (change state).Valid settings)
    (leaves : ∀ state {after}, after.Valid settings → (restore state after).Valid settings)
    (changes : ∀ state, change state.forget = (change state).forget)
    (restores : ∀ state after, restore state.forget after.forget = (restore state after).forget)
    (mirrors : Mirrors settings keeping scanning) :
    Mirrors settings (between change restore keeping) (between change restore scanning) where
  valid {state} valid := by
    rw [Outcome.last_mapState]
    exact leaves state (mirrors.valid (enters valid))
  same {state} valid := by
    change (scanning settings (change state.forget)).mapState (restore state.forget) = _
    rw [changes, mirrors.same (enters valid)]
    change _ = ((keeping settings (change state)).mapState (restore state)).mapState State.forget
    cases keeping settings (change state) <;> simp only [Outcome.mapState, restores]

theorem around (shift : Shift) (mirrors : Mirrors settings keeping scanning) :
    Mirrors settings (shift.around keeping) (shift.around scanning) := by
  have moved : Mirrors settings (Grammar.between shift.enter shift.leave keeping)
      (Grammar.between shift.enter shift.leave scanning) := by
    refine mirrors.between (fun valid => ?_) (fun state _ valid => ?_) (fun state => ?_)
      fun state after => ?_
    · cases shift <;> exact valid
    · cases shift <;> exact valid
    · cases shift <;> rfl
    · cases shift <;> rfl
  constructor
  · intro state valid
    rw [shift.around_eq]
    exact moved.valid valid
  · intro state valid
    rw [shift.around_eq, shift.around_eq]
    exact moved.same valid

theorem nested (mirrors : Mirrors settings keeping scanning) :
    Mirrors settings (Parse.nested keeping) (Parse.nested scanning) := by
  have deeper : Mirrors settings
      (Grammar.between (fun state => { state with depth := state.depth + 1 })
        (fun _ after => { after with depth := after.depth - 1 }) keeping)
      (Grammar.between (fun state => { state with depth := state.depth + 1 })
        (fun _ after => { after with depth := after.depth - 1 }) scanning) :=
    mirrors.between id (fun _ _ => id) (fun _ => rfl) fun _ _ => rfl
  constructor
  · intro state valid
    obtain ⟨fault, stops⟩ | runs := nested_cases settings state
    · rw [stops]
      exact valid
    · rw [runs]
      exact deeper.valid valid
  · intro state valid
    have inside := deeper.same valid
    unfold Parse.nested
    cases settings.limit with
    | none => exact inside
    | some limit =>
        change (if limit ≤ state.depth then _ else _) = Outcome.mapState _ (if _ then _ else _)
        split
        · rfl
        · exact inside

theorem attempt (mirrors : Mirrors settings keeping scanning) :
    Mirrors settings (Parse.attempt keeping) (Parse.attempt scanning) where
  valid {state} valid := by
    have after := mirrors.valid valid
    unfold Parse.attempt
    cases run : keeping settings state with
    | ok value last =>
        rw [run] at after
        exact after
    | error fault last =>
        rw [run] at after
        dsimp only
        split
        · exact after
        · exact valid
  same {state} valid := by
    unfold Parse.attempt
    rw [mirrors.same valid]
    cases keeping settings state with
    | ok value last => rfl
    | error fault last =>
        dsimp only [Outcome.mapState]
        split <;> rfl

theorem iterate {one two : Progress → Parse (Round Progress Value)}
    (each : ∀ progress, Mirrors settings (one progress) (two progress)) (rounds : Nat)
    (start : Progress) :
    Mirrors settings (iterate one rounds start) (iterate two rounds start) := by
  induction rounds generalizing start with
  | zero => exact .fail stalled
  | succ rounds ih =>
      rw [iterate_succ, iterate_succ]
      refine .bind (each start) fun result => ?_
      cases result with
      | again progress => exact ih progress
      | done value => exact .pure value

end Mirrors

/-- A plan that keeps tokens is mirrored by the same plan that scans them anew,
if its recursive calls are. -/
theorem Plan.mirrors {rounds : Nat} {keeping scanning : Goal → Parse SyntaxTree}
    (reads : ∀ goal, Mirrors settings (keeping goal) (scanning goal)) (plan : Plan Value) :
    Mirrors settings (plan.run peek ⟨rounds, keeping⟩) (plan.run rescan ⟨rounds, scanning⟩) := by
  induction plan with
  | pure value => exact .pure value
  | bind first next firstIh nextIh => exact firstIh.bind nextIh
  | fail fault => exact .fail fault
  | look => exact .peek
  | settings => exact .blind id fun _ => rfl
  | stand => exact .standing
  | moveTo place patternAllowed => exact .moveTo place patternAllowed
  | wasRejected offset => exact .wasRejected offset
  | reject offset => exact .reject offset
  | read goal => exact reads goal
  | around shift inner ih => exact ih.around shift
  | nested inner ih => exact ih.nested
  | attempt inner ih => exact ih.attempt
  | loop round start ih => exact .iterate ih rounds start

namespace Plans

variable (plans : Plans)

theorem read_mirrors (steps : Nat) (goal : Goal) :
    Mirrors settings (Grammar.read steps goal) (plans.read rescan steps goal) := by
  induction steps generalizing goal with
  | zero => exact .fail stalled
  | succ steps ih =>
      have mirrors : Mirrors settings ((plans.goal goal).run peek ⟨steps, Grammar.read steps⟩)
          ((plans.goal goal).run rescan ⟨steps, plans.read rescan steps⟩) :=
        (plans.goal goal).mirrors ih
      rw [plans.goal_run] at mirrors
      exact mirrors

theorem run_mirrors (steps : Nat) (plan : Plan Value) :
    Mirrors settings (plan.run peek ⟨steps, Grammar.read steps⟩)
      (plan.run rescan ⟨steps, plans.read rescan steps⟩) :=
  plan.mirrors (plans.read_mirrors steps)

/-- The state that is left behind when a text has been read is reached. -/
theorem reaches_last (settings : Settings) :
    plans.Reaches settings (Grammar.script
      ⟨stepsFor settings.size, Grammar.read (stepsFor settings.size)⟩ settings
      (State.initial settings.source)).last := by
  rw [← plans.script_run]
  exact .last

/-- Every state that a run passes through is valid if the first one is. -/
theorem Passes.valid {plans : Plans} {steps : Nat} {plan : Plan Value} {state inner : State}
    (passes : plans.Passes settings steps plan state inner) (valid : state.Valid settings) :
    inner.Valid settings := by
  induction passes with
  | start => exact valid
  | last => exact (plans.run_mirrors _ _).valid valid
  | first _ ih => exact ih valid
  | @next steps _ _ first _ _ _ _ _ ran _ ih =>
      -- What the first act leaves behind is valid since the act is mirrored.
      have between := (plans.run_mirrors steps first).valid valid
      rw [ran] at between
      exact ih between
  | read _ ih => exact ih valid
  | @around _ _ _ shift _ _ _ ih =>
      apply ih
      cases shift <;> exact valid
  | nested _ _ ih => exact ih valid
  | attempt _ ih => exact ih valid
  | loop _ ih => exact ih valid

theorem parseWith_rescan (settings : Settings) :
    plans.parseWith rescan settings = Grammar.parseWith settings := by
  let steps := stepsFor settings.size
  have valid : (State.initial settings.source).Valid settings := initial_valid settings.source
  have same := (plans.run_mirrors steps plans.script).same valid
  rw [plans.script_run] at same
  calc
    plans.parseWith rescan settings =
        (plans.script.run rescan ⟨steps, plans.read rescan steps⟩ settings
          (State.initial settings.source).forget).toExcept := rfl
    _ = (Grammar.script ⟨steps, Grammar.read steps⟩ settings
          (State.initial settings.source)).toExcept := by
      rw [same, Outcome.toExcept_mapState]
    _ = Grammar.parseWith settings := (parseWith_eq settings).symm

end Plans

theorem peekSecond_ok {state after : State} {second : Token}
    (run : peekSecond settings state = .ok second after) :
    ∃ first, peek settings state = .ok first after ∧ after = state.look first ∧
      (Point.after first).next settings.dialect = .ok second := by
  obtain ⟨first, middle, peekRun, scanRun⟩ := bind_ok run
  refine ⟨first, ?_⟩
  change ofScan ((Point.after first).next settings.dialect) settings middle = _ at scanRun
  unfold ofScan at scanRun
  split at scanRun
  · rename_i scanned
    cases scanRun
    exact ⟨peekRun, peek_look peekRun, scanned⟩
  · cases scanRun

/-- Looking at a token, consuming it and looking again. -/
theorem advance_peek {state after : State} {first second : Token}
    (run : peek settings state = .ok first after)
    (next : (Point.after first).next settings.dialect = .ok second) :
    (advance >>= fun _ => peek) settings state = .ok second ((state.pass first).look second) := by
  have consumed : advance settings state = .ok first (state.pass first) := by
    obtain rfl := peek_look run
    unfold advance
    rw [bind_run run]
    rfl
  have scanned : (state.pass first).point.next settings.dialect = .ok second := next
  rw [bind_run consumed, peek_scans scanned rfl]

end Grammar

open Grammar

/-- The grammar can be planned.  However it is planned, a token that is kept in
any state that is reached is the one that is scanned there, and what is seen
behind the next token comes next after it is consumed.  So the plans read a text
in the same way whether tokens are kept or scanned whenever they are asked
for. -/
theorem lookahead_coherent (options : Options) (source : Text) :
    Nonempty Plans ∧ ∀ plans : Plans,
      (∀ state, plans.Reaches (.ofOptions options source) state →
        (∀ token, state.peeked = some token →
          Token.scan options.dialect state.place state.patternAllowed = .ok token) ∧
        ∀ second after, peekSecond (.ofOptions options source) state = .ok second after →
          ∃ last, (advance >>= fun _ => peek) (.ofOptions options source) state = .ok second last ∧
            (advance >>= fun _ => peek) (.ofOptions options source) after = .ok second last) ∧
      plans.parseWith peek (.ofOptions options source) = parse options source ∧
      plans.parseWith rescan (.ofOptions options source) = parse options source := by
  refine ⟨nonempty_plans, fun plans => ⟨fun state reached => ⟨?_, ?_⟩, ?_, ?_⟩⟩
  · have valid : state.Valid (.ofOptions options source) := reached.valid (initial_valid source)
    exact valid
  · intro second after run
    obtain ⟨first, peekRun, rfl, next⟩ := peekSecond_ok run
    exact ⟨_, advance_peek peekRun next, advance_peek rfl next⟩
  · exact plans.parseWith_peek _
  · exact plans.parseWith_rescan _

/-- A template in a group that is first taken for the head of an arrow function,
and two names that do not belong there. -/
def strayText : Text :=
  "(\x60r\x60) s t".toList

def firstStray : Token where
  kind := .identifier
  text := ['s']
  start := ⟨6, ['s', ' ', 't']⟩
  stop := ⟨7, [' ', 't']⟩
  gap := .plain

def secondStray : Token where
  kind := .identifier
  text := ['t']
  start := ⟨8, ['t']⟩
  stop := ⟨9, []⟩
  gap := .plain

def strayEnd : State :=
  (script ⟨stepsFor (Text.size strayText), Grammar.read (stepsFor (Text.size strayText))⟩
    (.ofOptions ⟨.script, .standard⟩ strayText) (.initial strayText)).last

theorem strayEnd_peeked : strayEnd.peeked = some firstStray := by
  decide +kernel

theorem lookahead_coherent_stray :
    ∃ (plans : Plans) (last : State),
      plans.Reaches (.ofOptions ⟨.script, .standard⟩ strayText) strayEnd ∧
      strayEnd.peeked = some firstStray ∧
      Token.scan .script strayEnd.place strayEnd.patternAllowed = .ok firstStray ∧
      peekSecond (.ofOptions ⟨.script, .standard⟩ strayText) strayEnd =
        .ok secondStray strayEnd ∧
      (advance >>= fun _ => peek) (.ofOptions ⟨.script, .standard⟩ strayText) strayEnd =
        .ok secondStray last ∧
      plans.parseWith rescan (.ofOptions ⟨.script, .standard⟩ strayText) =
        parse ⟨.script, .standard⟩ strayText := by
  obtain ⟨⟨plans⟩, coherent⟩ := lookahead_coherent ⟨.script, .standard⟩ strayText
  obtain ⟨holds, -, same⟩ := coherent plans
  obtain ⟨scanned, follows⟩ := holds strayEnd (plans.reaches_last _)
  have seen : peekSecond (.ofOptions ⟨.script, .standard⟩ strayText) strayEnd =
      .ok secondStray strayEnd := by
    unfold peekSecond
    rw [bind_run (peek_seen strayEnd_peeked)]
    rfl
  obtain ⟨last, next, -⟩ := follows secondStray strayEnd seen
  exact ⟨plans, last, plans.reaches_last _, strayEnd_peeked, scanned firstStray strayEnd_peeked,
    seen, next, same⟩

end ScriptTree
