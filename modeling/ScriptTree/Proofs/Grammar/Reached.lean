import ScriptTree.Proofs.Grammar.Derivation

/-!
# The calls of a run

A run asks for a goal in a state if it depends on the answer it gets there.
Starting with a whole text, the goals that are asked for make up all that
happens while the text is read, speculation and failures included.
-/

namespace ScriptTree

namespace Grammar

variable {Value : Type}

/-- The run of a step from a state asks for a goal in another state: with all
other answers the same, the answer given there makes a difference. -/
def Asks (settings : Settings) (step : Descent → Parse Value) (descent : Descent) (state : State)
    (goal : Goal) (inner : State) : Prop :=
  ∃ other : Descent, other.rounds = descent.rounds ∧
    (∀ asked start, ¬(asked = goal ∧ start = inner) →
      other.read asked settings start = descent.read asked settings start) ∧
    step other settings state ≠ step descent settings state

/-- The goals that are asked for while a text is read, each with the state in
which it is asked for and the number of steps that are left. -/
inductive Reached (settings : Settings) : Nat → Goal → State → Prop where
  | script {goal : Goal} {inner : State}
      (asks : Asks settings script
        ⟨stepsFor settings.size, read (stepsFor settings.size)⟩ (.initial settings.source)
        goal inner) :
      Reached settings (stepsFor settings.size) goal inner
  | within {steps : Nat} {goal asked : Goal} {state inner : State}
      (reached : Reached settings (steps + 1) goal state)
      (asks : Asks settings (produce · goal) ⟨steps, read steps⟩ state asked inner) :
      Reached settings steps asked inner

variable {settings : Settings} {category : Category} {pre : Scope → Point → Prop}
  {before : List SyntaxTree} {phrase : Value → Phrase} {view : Value → List SyntaxTree}
  {step : Descent → Parse Value} {descent : Descent} {state inner : State} {goal : Goal}

/-- A step asks only for what its phrase asks for. -/
theorem Implements.calls (rule : Implements settings category pre before phrase view step)
    (sound : descent.Sound settings category) (valid : state.Valid settings)
    (holds : pre state.scope state.point) (asks : Asks settings step descent state goal inner) :
    inner.Valid settings ∧ ∃ value, (phrase value).Calls settings category state.scope state.point
      before goal inner.scope inner.point := by
  obtain ⟨other, rounds, elsewhere, differs⟩ := asks
  by_contra none
  apply differs
  apply rule.asks sound valid holds rounds
  intro asked start value startValid called
  apply elsewhere
  rintro ⟨rfl, rfl⟩
  exact none ⟨startValid, value, called⟩

private theorem bind_same {Other : Type} {one two : Parse Other} {next : Other → Parse Value}
    (same : one settings state = two settings state) :
    Parse.bind one next settings state = Parse.bind two next settings state := by
  unfold Parse.bind
  rw [same]

theorem script_calls
    (asks : Asks settings script ⟨stepsFor settings.size, read (stepsFor settings.size)⟩
      (.initial settings.source) goal inner) :
    inner.Valid settings ∧ Phrase.script.Calls settings (Derives settings)
      (State.initial settings.source).scope (State.initial settings.source).point [] goal
      inner.scope inner.point := by
  let steps := stepsFor settings.size
  have sound : Descent.Sound settings (Derives settings) ⟨steps, read steps⟩ :=
    read_sound derives_closed _ _
  obtain ⟨other, rounds, elsewhere, differs⟩ := asks
  obtain ⟨valid, -, called⟩ := statements_implement.calls sound (initial_valid settings.source)
    trivial ⟨other, rounds, elsewhere, fun same => differs (bind_same same)⟩
  exact ⟨valid, called⟩

theorem Reached.calls {steps : Nat} {asked : Goal} (valid : state.Valid settings)
    (asks : Asks settings (produce · goal) ⟨steps, read steps⟩ state asked inner) :
    inner.Valid settings ∧ (Phrase.ofGoal goal).Calls settings (Derives settings) state.scope
      state.point [] asked inner.scope inner.point := by
  have sound : Descent.Sound settings (Derives settings) ⟨steps, read steps⟩ :=
    read_sound derives_closed _ _
  obtain ⟨innerValid, -, called⟩ := (produce_produces goal).calls sound valid trivial asks
  exact ⟨innerValid, called⟩

theorem Reached.valid {steps : Nat} (reached : Reached settings steps goal state) :
    state.Valid settings := by
  induction reached with
  | script asks => exact (script_calls asks).1
  | within reached asks ih => exact (Reached.calls ih asks).1

/-! ## Showing that a goal is asked for -/

deriving instance DecidableEq for State

/-- Whether a step succeeded. -/
def Outcome.isOk : Outcome Value → Bool
  | .ok _ _ => true
  | .error _ _ => false

/-- The same recursive calls, but for one that fails for good. -/
def Descent.without (descent : Descent) (goal : Goal) (inner : State) : Descent where
  rounds := descent.rounds
  read asked settings start :=
    if asked = goal ∧ start = inner then .error stalled start
    else descent.read asked settings start

/-- A step that succeeds, but not without a recursive call, makes that call. -/
theorem Asks.of_without (succeeds : (step descent settings state).isOk = true)
    (fails : (step (descent.without goal inner) settings state).isOk = false) :
    Asks settings step descent state goal inner := by
  refine ⟨descent.without goal inner, rfl, fun asked start elsewhere => if_neg elsewhere, ?_⟩
  intro same
  rw [same, succeeds] at fails
  cases fails

end Grammar

end ScriptTree
