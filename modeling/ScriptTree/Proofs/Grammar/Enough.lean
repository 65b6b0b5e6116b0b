import ScriptTree.Proofs.Grammar.Comparison

/-!
# Enough steps

Every recursive call asks for less than the production that makes it, in a
measure of the text that is left and of the goal.  So a reader with enough
steps does not give up, more steps change nothing, and the productions can be
taken to call each other without end.
-/

namespace ScriptTree

theorem Place.On.offset_le_size {source : Text} {place : Place} (on : Place.On source place) :
    place.offset ≤ Text.size source := by
  have := on.offset_add
  omega

theorem SyntaxError.Ordinary.ne_stalled {fault : SyntaxError} (ordinary : fault.Ordinary) :
    fault ≠ Grammar.stalled := by
  rintro rfl
  cases ordinary

namespace Grammar

variable {settings : Settings} {Value Other : Type}

/-! ## The measure -/

/-- A bound on how many calls within each other it takes to read a goal. -/
def effort (settings : Settings) (goal : Goal) (offset : Nat) : Nat :=
  2 * (settings.size - offset) + goal.rank

theorem Goal.rank_le (goal : Goal) : goal.rank ≤ 1 := by
  cases goal <;> simp [rank]

/-- A production asks for less than what is asked of it, and not before the
place where it starts. -/
theorem effort_lt (sized : settings.size = Text.size settings.source) {goal called : Goal}
    {scope inside : Scope} {point target : Point}
    (calls : (Phrase.ofGoal goal).Calls settings (Derives settings) scope point [] called inside
      target) (on : Place.On settings.source point.place) :
    Place.On settings.source target.place ∧ point.place.offset ≤ target.place.offset ∧
      effort settings called target.place.offset < effort settings goal point.place.offset := by
  obtain ⟨onTarget, onward, which⟩ :=
    Phrase.calls_forward sized (·.forward sized) (·.rank < goal.rank) calls on
  have le := onward.le on
  have inside := onTarget.offset_le_size
  have small := called.rank_le
  refine ⟨onTarget, le, ?_⟩
  unfold effort
  rcases which (Phrase.ofGoal_begins goal) with lower | passes
  · omega
  · have lt := passes.lt on
    omega

/-! ## Calls that are not made -/

/-- The recursive calls of a descent from an offset on that ask for less than
some bound.  No other call succeeds. -/
def Descent.window (descent : Descent) (start bound : Nat) : Descent where
  rounds := descent.rounds
  read goal settings state :=
    if start ≤ state.place.offset ∧ effort settings goal state.place.offset < bound then
      descent.read goal settings state
    else
      .error ⟨.unterminatedTemplate, .empty 0⟩ state

namespace Descent

variable {descent : Descent} {start bound : Nat} {goal : Goal} {state last : State}

theorem window_read (late : start ≤ state.place.offset)
    (small : effort settings goal state.place.offset < bound) :
    (descent.window start bound).read goal settings state = descent.read goal settings state :=
  if_pos ⟨late, small⟩

theorem window_ok {tree : SyntaxTree}
    (run : (descent.window start bound).read goal settings state = .ok tree last) :
    descent.read goal settings state = .ok tree last := by
  unfold window at run
  dsimp only at run
  split at run
  · exact run
  · cases run

theorem window_error {fault : SyntaxError}
    (run : (descent.window start bound).read goal settings state = .error fault last) :
    (start ≤ state.place.offset ∧ effort settings goal state.place.offset < bound ∧
      descent.read goal settings state = .error fault last) ∨
      last = state ∧ fault = ⟨.unterminatedTemplate, .empty 0⟩ := by
  unfold window at run
  dsimp only at run
  split at run
  · rename_i inside
    exact .inl ⟨inside.1, inside.2, run⟩
  · cases run
    exact .inr ⟨rfl, rfl⟩

theorem Moves.window (moves : descent.Moves settings) :
    (descent.window start bound).Moves settings where
  sound :=
    { reads := fun valid run => moves.sound.reads valid (window_ok run)
      fails := fun valid run => by
        rcases window_error run with ⟨-, -, run⟩ | ⟨rfl, -⟩
        · exact moves.sound.fails valid run
        · exact .refl _ }
  fails stands run := by
    rcases window_error run with ⟨-, -, run⟩ | ⟨rfl, -⟩
    · exact moves.fails stands run
    · exact le_rfl

/-- A production makes all its calls within a window that it starts in. -/
theorem Moves.produce_window (goal : Goal) (moves : descent.Moves settings)
    (sized : settings.size = Text.size settings.source) (stands : state.Stands settings)
    (late : start ≤ state.place.offset) (small : effort settings goal state.place.offset ≤ bound) :
    produce (descent.window start bound) goal settings state =
      produce descent goal settings state := by
  refine (produce_produces goal).asks moves.sound stands.valid trivial rfl ?_
  intro called inner _ _ calls
  obtain ⟨-, le, less⟩ := effort_lt sized calls stands.on
  exact window_read (late.trans le) (lt_of_lt_of_le less small)

end Descent

/-! ## Giving up -/

/-- A step does not give up in the text if its loops may take as many rounds
as there is text left. -/
def Endures (settings : Settings) (rounds : Nat) (step : Parse Value) : Prop :=
  ∀ state last : State, state.Stands settings → settings.size - state.place.offset < rounds →
    step settings state ≠ .error stalled last

namespace Endures

variable {rounds : Nat} {descent : Descent}

theorem ofOrdinary {step : Parse Value}
    (ordinary : ∀ state last fault, step settings state = .error fault last → fault.Ordinary) :
    Endures settings rounds step :=
  fun _ _ _ _ run => (ordinary _ _ _ run).ne_stalled rfl

theorem succeeds {step : Parse Value}
    (runs : ∀ state, ∃ value last, step settings state = .ok value last) :
    Endures settings rounds step := by
  intro state last _ _ run
  obtain ⟨value, after, found⟩ := runs state
  rw [found] at run
  cases run

theorem peek : Endures settings rounds Grammar.peek :=
  ofOrdinary fun _ _ _ => peek_ordinary

theorem peekSecond : Endures settings rounds Grammar.peekSecond :=
  ofOrdinary fun _ _ _ => peekSecond_ordinary

theorem piece : Endures settings rounds Grammar.piece := by
  refine succeeds fun state => ?_
  unfold Grammar.piece
  split <;> exact ⟨_, _, rfl⟩

theorem bind {first : Descent → Parse Other} {next : Other → Parse Value}
    (reads : descent.Moves settings) (moves : Moves.Somewhere settings first)
    (firstEndures : Endures settings rounds (first descent))
    (nextEndures : ∀ value, Endures settings rounds (next value)) :
    Endures settings rounds (first descent >>= next) := by
  intro state last stands left run
  rcases bind_error run with firstRun | ⟨value, middle, firstRun, nextRun⟩
  · exact firstEndures _ _ stands left firstRun
  · obtain ⟨middleStands, le, -⟩ := moves.ok reads stands firstRun
    have less : settings.size - middle.place.offset < rounds := by omega
    exact nextEndures value _ _ middleStands less nextRun

theorem around {step : Parse Value} (shift : Shift) (endures : Endures settings rounds step) :
    Endures settings rounds (shift.around step) := by
  intro state last stands left run
  rw [shift.around_eq] at run
  cases inner : step settings (shift.enter state) with
  | ok value after =>
      rw [inner] at run
      cases run
  | error fault after =>
      rw [inner] at run
      cases run
      exact endures _ _ (shift.stands_enter stands) (by simpa using left) inner

theorem nested {step : Parse Value} (endures : Endures settings rounds step) :
    Endures settings rounds (Parse.nested step) := by
  intro state last stands left run
  unfold Parse.nested at run
  dsimp only at run
  have deeper (run : (step settings { state with depth := state.depth + 1 }).mapState
      (fun after => { after with depth := after.depth - 1 }) = .error stalled last) : False := by
    cases inner : step settings { state with depth := state.depth + 1 } with
    | ok value after =>
        rw [inner] at run
        cases run
    | error fault after =>
        rw [inner] at run
        cases run
        have inside : State.Stands settings { state with depth := state.depth + 1 } :=
          ⟨stands.valid, stands.on⟩
        exact endures _ _ inside left inner
  split at run
  · exact deeper run
  · split at run
    · cases run
    · exact deeper run

theorem attempt {step : Parse Value} (endures : Endures settings rounds step) :
    Endures settings rounds (Parse.attempt step) := by
  intro state last stands left run
  unfold Parse.attempt at run
  cases found : step settings state with
  | ok value after =>
      rw [found] at run
      cases run
  | error fault after =>
      rw [found] at run
      dsimp only at run
      split at run
      · cases run
        exact endures _ _ stands left found
      · cases run

/-- A loop ends before its rounds do, since every round but the last reads
something. -/
theorem iterate (sized : settings.size = Text.size settings.source) {Progress : Type}
    {round : Progress → Descent → Parse (Round Progress Value)}
    (reads : descent.Moves settings) (gains : ∀ progress, Moves settings IsAgain (round progress))
    (each : ∀ progress, Endures settings rounds (round progress descent)) (start : Progress) :
    Endures settings rounds
      (Grammar.iterate (fun progress => round progress descent) rounds start) := by
  have ends (fewer : Nat) : fewer ≤ rounds → ∀ start (state last : State), state.Stands settings →
      settings.size - state.place.offset < fewer →
      Grammar.iterate (fun progress => round progress descent) fewer start settings state ≠
        .error stalled last := by
    induction fewer with
    | zero =>
        intro _ _ _ _ _ left
        omega
    | succ fewer ih =>
        intro le start state last stands left run
        rw [iterate_succ] at run
        rcases bind_error run with roundRun | ⟨result, middle, roundRun, restRun⟩
        · exact each start _ _ stands (by omega) roundRun
        · obtain ⟨middleStands, -, further⟩ := (gains start).ok reads stands roundRun
          cases result with
          | done value => cases restRun
          | again progress =>
              have inside := middleStands.on.offset_le_size
              have moved := further rfl
              exact ih (by omega) progress _ _ middleStands (by omega) restRun
  exact ends rounds le_rfl start

end Endures

/-- A production does not give up unless one of its calls does. -/
theorem Assembled.endures (sized : settings.size = Text.size settings.source) {descent : Descent}
    (reads : descent.Moves settings)
    (enduring : ∀ goal, Endures settings descent.rounds (descent.read goal))
    {arrows : Prop} {step : Descent → Parse Value} (assembled : Assembled (.lax arrows) step) :
    Endures settings descent.rounds (step descent) := by
  induction assembled with
  | pure value => exact .succeeds fun state => ⟨value, state, rfl⟩
  | bind first _ firstIh nextIh => exact .bind reads (first.moves sized) firstIh nextIh
  | fail _ ordinary =>
      refine .ofOrdinary fun _ _ _ run => ?_
      cases run
      exact ordinary
  | failAt =>
      refine .ofOrdinary fun _ _ _ run => ?_
      cases run
      exact unexpected_ordinary _ _
  | look _ ih => exact .bind reads .peek .peek fun token => ih token trivial
  | peekSecond => exact .peekSecond
  | advance =>
      exact Endures.bind reads .peek .peek fun token => .succeeds fun state => ⟨_, _, rfl⟩
  | piece => exact .piece
  | settings _ _ ih => exact fun _ _ stands left run => ih settings _ _ stands left run
  | state _ _ ih => exact fun _ _ stands left run => ih _ _ _ stands left run
  | read goal => exact enduring goal
  | around shift _ ih => exact ih.around shift
  | nested _ ih => exact ih.nested
  | loop _ gains start ih => exact .iterate sized reads (gains sized) ih start
  | chunked _ _ _ _ _ ih =>
      rw [template_pieces]
      exact ih trivial
  | arrow _ async may head rest asyncIh mayIh headIh restIh =>
      have without : Endures settings descent.rounds (Pure.pure (none : Option SyntaxTree)) :=
        .succeeds fun state => ⟨_, state, rfl⟩
      refine .bind reads .peek .peek fun token => .bind reads (async.moves sized) asyncIh
        fun isAsync => .bind reads ((may isAsync).moves sized) (mayIh isAsync) fun starts => ?_
      cases starts with
      | false => exact without
      | true =>
          refine .bind reads (.wasRejected _) (.succeeds fun state => ⟨_, _, rfl⟩) fun known => ?_
          cases known with
          | true => exact without
          | false =>
              refine .bind reads ((head isAsync).moves sized).attempt (headIh isAsync).attempt
                fun found => ?_
              cases found with
              | some pair =>
                  exact .bind reads ((rest pair.1 pair.2).moves sized) (restIh pair.1 pair.2)
                    fun _ => .succeeds fun state => ⟨_, _, rfl⟩
              | none =>
                  exact .bind reads (.reject _) (.succeeds fun state => ⟨_, _, rfl⟩)
                    fun _ => without

/-! ## Reading with enough steps -/

theorem read_moves (sized : settings.size = Text.size settings.source) (rounds steps : Nat) :
    (Descent.mk rounds (read steps)).Moves settings where
  sound := read_sound derives_closed rounds steps
  fails := by
    induction steps generalizing rounds with
    | zero =>
        intro goal state last fault _ run
        cases run
        exact le_rfl
    | succ steps ih =>
        intro goal state last fault stands run
        have reads : (Descent.mk steps (read steps)).Moves settings :=
          ⟨read_sound derives_closed steps steps, ih steps⟩
        have assembled : Assembled (.lax True) fun descent => produce descent goal :=
          produce_assembled goal fun _ => trivial
        exact (assembled.moves sized).error reads stands run

/-- A reader does not give up if it may take more steps than the goal takes
effort. -/
theorem read_endures (sized : settings.size = Text.size settings.source) (steps : Nat) (goal : Goal)
    {state last : State} (stands : state.Stands settings)
    (enough : effort settings goal state.place.offset + 2 ≤ steps) :
    read steps goal settings state ≠ .error stalled last := by
  induction steps generalizing goal state last with
  | zero => omega
  | succ steps ih =>
      have moves := read_moves sized steps steps
      have window := moves.produce_window goal sized stands (Nat.zero_le _) le_rfl
      intro run
      change produce ⟨steps, read steps⟩ goal settings state = _ at run
      rw [← window] at run
      have assembled : Assembled (.lax True) fun descent => produce descent goal :=
        produce_assembled goal fun _ => trivial
      refine assembled.endures sized moves.window ?_ _ _ stands ?_ run
      · intro called inner after innerStands _ stops
        rcases Descent.window_error stops with ⟨-, small, stops⟩ | ⟨-, same⟩
        · exact ih called innerStands (by omega) stops
        · cases same
      · change _ < steps
        unfold effort at enough
        omega

/-! ## More steps, or more heads -/

/-- The state with more heads that were rejected before all others. -/
def State.adding (heads : List Nat) (state : State) : State :=
  { state with rejectedHeads := state.rejectedHeads ++ heads }

/-- The same text is read with more steps, or after more heads were
rejected. -/
def resumed (settings : Settings) (heads : List Nat) : Comparison where
  quits fault := fault = stalled
  related one two := two = one.adding heads
  first := settings
  second := settings

theorem resumed_peek (heads : List Nat) : (resumed settings heads).Follows peek peek := by
  rintro before _ rfl
  change (resumed settings heads).Matches (peek settings before)
    (peek settings (before.adding heads))
  cases looked : before.peeked with
  | some token =>
      have also : (before.adding heads).peeked = some token := looked
      rw [peek_seen looked, peek_seen also]
      exact .ok token rfl
  | none =>
      have also : (before.adding heads).peeked = none := looked
      have point : (before.adding heads).point = before.point := rfl
      cases scanned : before.point.next settings.dialect with
      | ok token =>
          rw [peek_scans scanned looked, peek_scans (point ▸ scanned) also]
          exact .ok token rfl
      | error fault =>
          rw [peek_stops scanned looked, peek_stops (point ▸ scanned) also]
          exact .error fault rfl

theorem resumed_moves (heads : List Nat) : (resumed settings heads).Moves := by
  rintro place patternAllowed one _ rfl
  rfl

theorem resumed_sound (heads : List Nat) : (resumed settings heads).Sound where
  settings := ⟨settings.dialect, settings.limit, settings.recallsHeads, rfl⟩
  point := by
    rintro one _ rfl
    rfl
  scope := by
    rintro one _ rfl
    rfl
  peek := resumed_peek heads
  peekSecond := Comparison.follows_peekSecond rfl (resumed_peek heads)
  advance := (resumed_moves heads).advance (resumed_peek heads)
  piece := (resumed_moves heads).piece rfl (by
    rintro one _ rfl
    rfl)
  enter shift := by
    rintro one _ rfl
    cases shift <;> rfl
  leave shift := by
    rintro one _ after _ rfl rfl
    cases shift <;> rfl
  nested := by
    intro Value one two follows
    rintro before _ rfl
    have inner := follows { before with depth := before.depth + 1 } _ rfl
    let rise (after : State) : State := { after with depth := after.depth - 1 }
    have deeper : (resumed settings heads).Matches (Outcome.mapState rise _)
        (Outcome.mapState rise _) := inner.mapState fun same => congrArg rise same
    unfold Parse.nested
    dsimp only [resumed]
    cases settings.limit with
    | none => exact deeper
    | some limit =>
        by_cases reached : limit ≤ before.depth
        · have also : limit ≤ (before.adding heads).depth := reached
          dsimp only
          rw [if_pos reached, if_pos also]
          exact .error _ rfl
        · have also : ¬limit ≤ (before.adding heads).depth := reached
          dsimp only
          rw [if_neg reached, if_neg also]
          exact deeper

theorem resumed_remembers {heads : List Nat} (blind : settings.recallsHeads = true → heads = []) :
    (resumed settings heads).Remembers where
  final := by
    rintro _ rfl
    rfl
  rewind := by
    rintro one _ after _ rfl rfl
    rfl
  recalls := rfl
  heads := by
    rintro one _ rfl recalls
    rw [blind recalls]
    exact (List.append_nil _).symm
  rejects offset := by
    rintro one _ rfl
    rfl

theorem read_resumed {heads : List Nat} (blind : settings.recallsHeads = true → heads = [])
    {fewer more : Nat} (le : fewer ≤ more) (goal : Goal) :
    (resumed settings heads).Follows (read fewer goal) (read more goal) := by
  induction fewer generalizing more goal with
  | zero => exact fun _ _ _ => .quit rfl
  | succ fewer ih =>
      obtain ⟨more, rfl⟩ : ∃ count, more = count + 1 := ⟨more - 1, by omega⟩
      have sound : (resumed settings heads).Sound := resumed_sound heads
      have arrows := (resumed_remembers blind).arrows sound ⟨fewer, read fewer⟩ ⟨more, read more⟩
      have fewerLe : fewer ≤ more := by omega
      exact sound.follows (fun goal => ih fewerLe goal) fewerLe (fun _ => rfl) (fun _ => arrows)
        (produce_assembled goal fun _ => trivial)

/-- Of two runs that remember the same heads the second ends like the first,
unless that one has given up. -/
theorem resumed_same {one two : Outcome Value} (matched : (resumed settings []).Matches one two) :
    two = one ∨ ∃ last, one = .error stalled last := by
  have unmoved (state : State) : state.adding [] = state := by
    simp [State.adding]
  cases matched with
  | ok value related => exact .inl (by rw [show _ = _ from related, unmoved])
  | error fault related => exact .inl (by rw [show _ = _ from related, unmoved])
  | quit gaveUp =>
      cases gaveUp
      exact .inr ⟨_, rfl⟩

/-- One more step reads the same, wherever the steps are enough. -/
theorem read_succ (sized : settings.size = Text.size settings.source) {steps : Nat} (goal : Goal)
    {state : State} (stands : state.Stands settings)
    (enough : effort settings goal state.place.offset + 2 ≤ steps) :
    read (steps + 1) goal settings state = read steps goal settings state := by
  have same : state.adding [] = state := by
    simp [State.adding]
  have blind : settings.recallsHeads = true → ([] : List Nat) = [] := fun _ => rfl
  have matched := read_resumed blind (Nat.le_succ steps) goal state state same.symm
  rcases resumed_same matched with same | ⟨last, gaveUp⟩
  · exact same
  · exact absurd gaveUp (read_endures sized steps goal stands enough)

end Grammar

end ScriptTree
