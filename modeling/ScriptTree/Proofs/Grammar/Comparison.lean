import ScriptTree.Proofs.Grammar.Assembled

/-!
# Comparing two runs

Two runs of the reader on the same text, with other bounds, other numbers of
steps or another memory, are compared step by step.  They go on alike until
the first of them gives up.
-/

namespace ScriptTree

namespace Grammar

/-- What two runs have in common, and which errors of the first one end the
comparison. -/
structure Comparison where
  quits : SyntaxError → Prop
  related : State → State → Prop
  first : Settings
  second : Settings

namespace Comparison

variable {Value Other : Type}

/-- Two results agree, and what they leave behind is related, unless the first
run has given up. -/
inductive Matches (comparison : Comparison) : Outcome Value → Outcome Value → Prop where
  | ok (value : Value) {one two : State} (related : comparison.related one two) :
      Matches comparison (.ok value one) (.ok value two)
  | error (fault : SyntaxError) {one two : State} (related : comparison.related one two) :
      Matches comparison (.error fault one) (.error fault two)
  | quit {fault : SyntaxError} {state : State} {other : Outcome Value}
      (quits : comparison.quits fault) : Matches comparison (.error fault state) other

/-- Two steps agree in related states. -/
def Follows (comparison : Comparison) (one two : Parse Value) : Prop :=
  ∀ before after, comparison.related before after →
    comparison.Matches (one comparison.first before) (two comparison.second after)

/-- What the grammar looks at is the same in related states, and whatever it
does to both keeps them related. -/
structure Sound (comparison : Comparison) : Prop where
  settings : ∃ dialect limit recallsHeads,
    comparison.second = { comparison.first with dialect, limit, recallsHeads }
  point : ∀ {one two}, comparison.related one two → one.point = two.point
  scope : ∀ {one two}, comparison.related one two → one.scope = two.scope
  peek : comparison.Follows Grammar.peek Grammar.peek
  peekSecond : comparison.Follows Grammar.peekSecond Grammar.peekSecond
  advance : comparison.Follows Grammar.advance Grammar.advance
  piece : comparison.Follows Grammar.piece Grammar.piece
  enter : ∀ (shift : Shift) {one two}, comparison.related one two →
    comparison.related (shift.enter one) (shift.enter two)
  leave : ∀ (shift : Shift) {one two after later}, comparison.related one two →
    comparison.related after later →
    comparison.related (shift.leave one after) (shift.leave two later)
  nested : ∀ {Value : Type} {one two : Parse Value}, comparison.Follows one two →
    comparison.Follows (Parse.nested one) (Parse.nested two)

variable {comparison : Comparison}

theorem Matches.mapState {one two : Outcome Value} {change other : State → State}
    (matched : comparison.Matches one two)
    (keeps : ∀ {after later}, comparison.related after later →
      comparison.related (change after) (other later)) :
    comparison.Matches (one.mapState change) (two.mapState other) := by
  cases matched with
  | ok value related => exact .ok value (keeps related)
  | error fault related => exact .error fault (keeps related)
  | quit quits => exact .quit quits

theorem follows_pure (value : Value) :
    comparison.Follows (Pure.pure value) (Pure.pure value) :=
  fun _ _ related => .ok value related

theorem follows_fail (fault : SyntaxError) :
    comparison.Follows (Parse.fail fault : Parse Value) (Parse.fail fault) :=
  fun _ _ related => .error fault related

theorem Follows.bind {one two : Parse Other} {next later : Other → Parse Value}
    (firsts : comparison.Follows one two)
    (nexts : ∀ value, comparison.Follows (next value) (later value)) :
    comparison.Follows (one >>= next) (two >>= later) := by
  intro before after related
  have matched := firsts before after related
  change comparison.Matches (Parse.bind one next comparison.first before)
    (Parse.bind two later comparison.second after)
  unfold Parse.bind
  generalize one comparison.first before = found at matched
  generalize two comparison.second after = other at matched
  cases matched with
  | ok value related => exact nexts value _ _ related
  | error fault related => exact .error fault related
  | quit quits => exact .quit quits

/-- In one dialect, what follows the next token is the same. -/
theorem follows_peekSecond (dialect : comparison.second.dialect = comparison.first.dialect)
    (peek : comparison.Follows Grammar.peek Grammar.peek) :
    comparison.Follows Grammar.peekSecond Grammar.peekSecond := by
  refine peek.bind fun token => ?_
  intro before after related
  change comparison.Matches
    (ofScan (Token.scan comparison.first.dialect _ _) comparison.first before)
    (ofScan (Token.scan comparison.second.dialect _ _) comparison.second after)
  rw [dialect]
  unfold ofScan
  cases Token.scan comparison.first.dialect token.stop token.kind.allowsPatternAfter with
  | ok second => exact .ok second related
  | error fault => exact .error fault related

/-- Wherever two related states are moved, they stay related. -/
def Moves (comparison : Comparison) : Prop :=
  ∀ place patternAllowed {one two}, comparison.related one two →
    comparison.related (one.moveTo place patternAllowed) (two.moveTo place patternAllowed)

theorem Moves.advance (moves : comparison.Moves)
    (peek : comparison.Follows Grammar.peek Grammar.peek) :
    comparison.Follows Grammar.advance Grammar.advance := by
  refine peek.bind fun token => ?_
  exact fun _ _ related => .ok token (moves _ _ related)

theorem Moves.piece (moves : comparison.Moves)
    (size : comparison.second.size = comparison.first.size)
    (point : ∀ {one two}, comparison.related one two → one.point = two.point) :
    comparison.Follows Grammar.piece Grammar.piece := by
  intro before after related
  have here := point related
  have place : before.place = after.place := congrArg Point.place here
  unfold Grammar.piece
  rw [here, size, place]
  split
  · exact .ok _ (moves _ _ related)
  · exact .ok _ (moves _ _ related)
  · exact .ok _ (moves _ _ related)
  · exact .ok _ related

/-- A loop with fewer rounds gives up before one with more, if that ends the
comparison. -/
theorem follows_iterate {Progress : Type} {round other : Progress → Parse (Round Progress Value)}
    (each : ∀ progress, comparison.Follows (round progress) (other progress)) {fewer more : Nat}
    (le : fewer ≤ more) (exhausted : fewer < more → comparison.quits stalled) (start : Progress) :
    comparison.Follows (iterate round fewer start) (iterate other more start) := by
  induction fewer generalizing more start with
  | zero =>
      cases more with
      | zero => exact follows_fail stalled
      | succ more => exact fun _ _ _ => .quit (exhausted (Nat.succ_pos more))
  | succ fewer ih =>
      obtain ⟨more, rfl⟩ : ∃ count, more = count + 1 := ⟨more - 1, by omega⟩
      intro before after related
      have matched := each start before after related
      unfold iterate
      generalize round start comparison.first before = found at matched
      generalize other start comparison.second after = same at matched
      cases matched with
      | ok value related =>
          cases value with
          | done value => exact .ok value related
          | again progress =>
              have fewerLe : fewer ≤ more := by omega
              exact ih fewerLe (fun less => exhausted (by omega)) progress _ _ related
      | error fault related => exact .error fault related
      | quit quits => exact .quit quits

/-- Two runs agree on where an arrow function starts, given that they agree on
its parts. -/
def Arrows (comparison : Comparison) (one two : Descent) : Prop :=
  comparison.Follows startsAsyncHead startsAsyncHead →
    (∀ isAsync, comparison.Follows (mayStartArrow isAsync) (mayStartArrow isAsync)) →
    (∀ isAsync, comparison.Follows (arrowHead one isAsync) (arrowHead two isAsync)) →
    (∀ modifier inputs,
      comparison.Follows (arrowRest one modifier inputs) (arrowRest two modifier inputs)) →
    comparison.Follows (arrow? one) (arrow? two)

/-- Two runs that agree on their recursive calls and on arrow functions agree
on every production. -/
theorem Sound.follows (sound : comparison.Sound) {one two : Descent}
    (reads : ∀ goal, comparison.Follows (one.read goal) (two.read goal))
    (le : one.rounds ≤ two.rounds) (exhausted : one.rounds < two.rounds → comparison.quits stalled)
    {arrows : Prop} (agree : arrows → comparison.Arrows one two) {step : Descent → Parse Value}
    (assembled : Assembled (.lax arrows) step) : comparison.Follows (step one) (step two) := by
  induction assembled with
  | pure value => exact follows_pure value
  | bind _ _ firstIh nextIh => exact firstIh.bind nextIh
  | fail | failAt => exact follows_fail _
  | look _ ih => exact sound.peek.bind fun token => ih token trivial
  | peekSecond => exact sound.peekSecond
  | advance => exact sound.advance
  | piece => exact sound.piece
  | @settings _ next each same ih =>
      intro before after related
      obtain ⟨dialect, limit, recallsHeads, second⟩ := sound.settings
      change comparison.Matches (next comparison.first one comparison.first before)
        (next comparison.second two comparison.second after)
      have nextSame : next comparison.second = next comparison.first := by
        rw [second, same]
      rw [nextSame]
      exact ih comparison.first before after related
  | @state _ next each same ih =>
      intro before after related
      change comparison.Matches (next before one comparison.first before)
        (next after two comparison.second after)
      rw [← same before after (sound.point related) (sound.scope related)]
      exact ih before before after related
  | read goal => exact reads goal
  | around shift _ ih =>
      intro before after related
      dsimp only
      rw [shift.around_eq, shift.around_eq]
      exact (ih _ _ (sound.enter shift related)).mapState (sound.leave shift related)
  | nested _ ih => exact sound.nested ih
  | loop _ _ start ih => exact follows_iterate ih le exhausted start
  | chunked _ _ _ _ _ ih =>
      rw [template_pieces]
      exact ih trivial
  | arrow allowed _ _ _ _ asyncIh mayIh headIh restIh =>
      exact agree allowed asyncIh mayIh headIh restIh

/-! ## Runs with the same memory -/

/-- Two runs remember the same heads, and the first does not go on after it
has given up. -/
structure Remembers (comparison : Comparison) : Prop where
  final : ∀ {fault}, comparison.quits fault → Parse.isFinal fault = true
  rewind : ∀ {one two after later}, comparison.related one two → comparison.related after later →
    comparison.related (after.rewindTo one) (later.rewindTo two)
  recalls : comparison.first.recallsHeads = comparison.second.recallsHeads
  heads : ∀ {one two}, comparison.related one two →
    comparison.first.recallsHeads = true → one.rejectedHeads = two.rejectedHeads
  rejects : ∀ offset {one two}, comparison.related one two →
    comparison.related { one with rejectedHeads := offset :: one.rejectedHeads }
      { two with rejectedHeads := offset :: two.rejectedHeads }

namespace Remembers

theorem attempt (remembers : comparison.Remembers) {one two : Parse Value}
    (steps : comparison.Follows one two) :
    comparison.Follows (Parse.attempt one) (Parse.attempt two) := by
  intro before after related
  have matched := steps before after related
  unfold Parse.attempt
  generalize one comparison.first before = found at matched
  generalize two comparison.second after = other at matched
  cases matched with
  | ok value related => exact .ok (some value) related
  | error fault left =>
      dsimp only
      split
      · exact .error fault left
      · exact .ok none (remembers.rewind related left)
  | quit quits =>
      dsimp only
      rw [if_pos (remembers.final quits)]
      exact .quit quits

theorem wasRejected (remembers : comparison.Remembers) (offset : Nat) :
    comparison.Follows (wasRejected offset) (wasRejected offset) := by
  intro before after related
  have same : (comparison.first.recallsHeads && before.rejectedHeads.contains offset) =
      (comparison.second.recallsHeads && after.rejectedHeads.contains offset) := by
    rw [← remembers.recalls]
    cases recalls : comparison.first.recallsHeads with
    | true => rw [remembers.heads related recalls]
    | false => rfl
  change comparison.Matches (.ok _ before) (.ok _ after)
  rw [same]
  exact .ok _ related

theorem arrows (remembers : comparison.Remembers) (sound : comparison.Sound) (one two : Descent) :
    comparison.Arrows one two := by
  intro async may head rest
  refine sound.peek.bind fun token => async.bind fun isAsync => (may isAsync).bind fun starts => ?_
  cases starts with
  | false => exact follows_pure none
  | true =>
      refine (remembers.wasRejected _).bind fun rejected => ?_
      cases rejected with
      | true => exact follows_pure none
      | false =>
          refine (remembers.attempt (head isAsync)).bind fun found => ?_
          cases found with
          | some head => exact (rest head.1 head.2).bind fun tree => follows_pure _
          | none =>
              have rejects : comparison.Follows (reject token.start.offset)
                  (reject token.start.offset) :=
                fun _ _ related => .ok () (remembers.rejects _ related)
              exact rejects.bind fun _ => follows_pure none

end Remembers

end Comparison

end Grammar

end ScriptTree
