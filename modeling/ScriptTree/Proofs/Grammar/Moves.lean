import ScriptTree.Proofs.Grammar.Forward
import ScriptTree.Proofs.Grammar.Progress

/-!
# Steps that move forward

A step that starts in the text ends in the text and does not go back, whether
it succeeds or fails.  That a loop goes on is told by the value of a round, so
for some values of a step it is known that it has read something.
-/

namespace ScriptTree

namespace Grammar

variable {settings : Settings} {Value Other : Type}

/-- A state that stands in the text. -/
structure State.Stands (settings : Settings) (state : State) : Prop where
  valid : state.Valid settings
  on : Place.On settings.source state.place

theorem State.Stands.moved {place : Place} (on : Place.On settings.source place) (state : State)
    (patternAllowed : Bool) : (state.moveTo place patternAllowed).Stands settings where
  valid _ looked := nomatch looked
  on := on

/-- Looking ahead in the text either finds the next token or fails where it
stands. -/
theorem State.Stands.faces {state : State} (stands : state.Stands settings) :
    (∃ token, Faces settings state token) ∨
      ∃ fault, state.point.next settings.dialect = .error fault ∧ state.peeked = none := by
  cases scanned : state.point.next settings.dialect with
  | ok token => exact .inl ⟨token, stands.valid, scanned⟩
  | error fault =>
      refine .inr ⟨fault, rfl, ?_⟩
      cases looked : state.peeked with
      | none => rfl
      | some token =>
          have found := stands.valid token looked
          rw [scanned] at found
          cases found

theorem peek_stops {state : State} {fault : SyntaxError}
    (scanned : state.point.next settings.dialect = .error fault) (unseen : state.peeked = none) :
    peek settings state = .error fault state := by
  have same : Token.scan settings.dialect state.place state.patternAllowed = .error fault := scanned
  unfold peek
  rw [unseen]
  simp only [same]

theorem peek_seen {state : State} {token : Token} (seen : state.peeked = some token) :
    peek settings state = .ok token state := by
  unfold peek
  rw [seen]

theorem peek_scans {state : State} {token : Token}
    (scanned : state.point.next settings.dialect = .ok token) (unseen : state.peeked = none) :
    peek settings state = .ok token (state.look token) := by
  have same : Token.scan settings.dialect state.place state.patternAllowed = .ok token := scanned
  unfold peek
  rw [unseen]
  simp only [same]
  rfl

theorem bind_stops {step : Parse Value} {next : Value → Parse Other} {state after : State}
    {fault : SyntaxError} (run : step settings state = .error fault after) :
    (step >>= next) settings state = .error fault after := by
  change Parse.bind step next settings state = _
  rw [Parse.bind, run]

/-- The recursive calls of a descent read trees of the grammar, and do not go
back where they fail. -/
structure Descent.Moves (settings : Settings) (descent : Descent) : Prop where
  sound : descent.Sound settings (Derives settings)
  fails : ∀ {goal : Goal} {state last : State} {fault : SyntaxError}, state.Stands settings →
    descent.read goal settings state = .error fault last →
    state.place.offset ≤ last.place.offset

section Moves

/-- A step ends in the text and does not go back, given that its recursive
calls do not.  Some of its values tell that something was read. -/
structure Moves (settings : Settings) (gains : Value → Prop) (step : Descent → Parse Value) :
    Prop where
  ok : ∀ {descent : Descent} {state last : State} {value : Value}, descent.Moves settings →
    state.Stands settings → step descent settings state = .ok value last →
    last.Stands settings ∧ state.place.offset ≤ last.place.offset ∧
      (gains value → state.place.offset < last.place.offset)
  error : ∀ {descent : Descent} {state last : State} {fault : SyntaxError},
    descent.Moves settings → state.Stands settings →
    step descent settings state = .error fault last → state.place.offset ≤ last.place.offset

/-- No value tells anything. -/
abbrev Moves.Somewhere (settings : Settings) (step : Descent → Parse Value) : Prop :=
  Moves settings (fun _ => False) step

namespace Moves

variable {gains : Value → Prop} {step : Descent → Parse Value}

theorem weaken {stronger : Value → Prop} (moves : Moves settings stronger step)
    (implies : ∀ value, gains value → stronger value) : Moves settings gains step where
  ok reads stands run := by
    obtain ⟨lastStands, le, lt⟩ := moves.ok reads stands run
    exact ⟨lastStands, le, fun gained => lt (implies _ gained)⟩
  error := moves.error

theorem pure {value : Value} (silent : ¬gains value) :
    Moves settings gains (fun _ => Pure.pure value) where
  ok _ stands run := by
    cases run
    exact ⟨stands, le_rfl, fun gained => absurd gained silent⟩
  error _ _ run := nomatch run

theorem fail {fault : SyntaxError} : Moves settings gains (fun _ => Parse.fail fault) where
  ok _ _ run := nomatch run
  error _ _ run := by
    cases run
    exact le_rfl

/-- One step after another reads something if either of them does. -/
theorem bind {firstGains : Other → Prop} {nextGains : Other → Value → Prop}
    {first : Descent → Parse Other} {next : Other → Descent → Parse Value}
    (firstMoves : Moves settings firstGains first)
    (nextMoves : ∀ value, Moves settings (nextGains value) (next value))
    (covers : ∀ value result, gains result → firstGains value ∨ nextGains value result) :
    Moves settings gains (fun descent => first descent >>= fun value => next value descent) where
  ok reads stands run := by
    obtain ⟨found, middle, firstRun, nextRun⟩ := bind_ok run
    obtain ⟨middleStands, firstLe, firstLt⟩ := firstMoves.ok reads stands firstRun
    obtain ⟨lastStands, nextLe, nextLt⟩ := (nextMoves found).ok reads middleStands nextRun
    refine ⟨lastStands, firstLe.trans nextLe, fun gained => ?_⟩
    rcases covers found _ gained with early | late
    · exact lt_of_lt_of_le (firstLt early) nextLe
    · exact lt_of_le_of_lt firstLe (nextLt late)
  error reads stands run := by
    rcases bind_error run with firstRun | ⟨found, middle, firstRun, nextRun⟩
    · exact firstMoves.error reads stands firstRun
    · obtain ⟨middleStands, firstLe, -⟩ := firstMoves.ok reads stands firstRun
      exact firstLe.trans ((nextMoves found).error reads middleStands nextRun)

/-- The second of two steps tells what the whole does. -/
theorem later {first : Descent → Parse Other} {next : Other → Descent → Parse Value}
    (firstMoves : Somewhere settings first)
    (nextMoves : ∀ value, Moves settings gains (next value)) :
    Moves settings gains (fun descent => first descent >>= fun value => next value descent) :=
  firstMoves.bind nextMoves fun _ _ => .inr

/-- The first of two steps reads something in any case. -/
theorem early {first : Descent → Parse Other} {next : Other → Descent → Parse Value}
    (firstMoves : Moves settings (fun _ => True) first)
    (nextMoves : ∀ value, Somewhere settings (next value)) :
    Moves settings gains (fun descent => first descent >>= fun value => next value descent) :=
  firstMoves.bind nextMoves fun _ _ _ => .inl trivial

/-- The first of two steps may find something to read. -/
theorem found {first : Descent → Parse (Option Other)}
    {next : Option Other → Descent → Parse Value} (firstMoves : Moves settings (·.isSome) first)
    (someMoves : ∀ value, Somewhere settings (next (some value)))
    (noneMoves : Moves settings gains (next none)) :
    Moves settings gains (fun descent => first descent >>= fun value => next value descent) := by
  have nextMoves (found : Option Other) :
      Moves settings (fun result => found = none ∧ gains result) (next found) := by
    cases found with
    | some value => exact (someMoves value).weaken (by simp)
    | none => exact noneMoves.weaken (by simp)
  refine firstMoves.bind nextMoves fun found result gained => ?_
  cases found with
  | some value => exact .inl rfl
  | none => exact .inr ⟨rfl, gained⟩

theorem ite {test : Prop} [Decidable test] {yes no : Descent → Parse Value}
    (yesMoves : Moves settings gains yes) (noMoves : Moves settings gains no) :
    Moves settings gains (fun descent => if test then yes descent else no descent) := by
  by_cases holds : test
  · simpa only [if_pos holds] using yesMoves
  · simpa only [if_neg holds] using noMoves

theorem peek : Somewhere settings (fun _ => Grammar.peek) where
  ok {_ state last _} _ stands run := by
    obtain ⟨-, point, valid, -⟩ := peek_ok stands.valid run
    have place : last.place = state.place := congrArg Point.place point
    exact ⟨⟨valid, by rw [place]; exact stands.on⟩, by rw [place], False.elim⟩
  error _ _ run := by
    rw [peek_error run]

theorem advance : Moves settings (fun token => token.isEnd = false) (fun _ => Grammar.advance) where
  ok {_ state last token} _ stands run := by
    obtain ⟨found, middle, looked, moved⟩ := bind_ok run
    cases moved
    obtain ⟨scanned, -, -, -⟩ := peek_ok stands.valid looked
    obtain ⟨on, gap, covers, further⟩ := Point.on_after stands.on scanned
    exact ⟨.moved on _ _, gap.trans covers, fun notEnd => lt_of_le_of_lt gap (further notEnd)⟩
  error _ stands run := by
    rcases bind_error run with looked | ⟨found, middle, looked, moved⟩
    · rw [peek_error looked]
    · cases moved

theorem accept (sign : Punctuator) : Moves settings (·.isSome) (fun _ => accept? sign) where
  ok {_ state last value} _ stands run := by
    obtain ⟨token, faces⟩ | ⟨fault, scanned, unseen⟩ := stands.faces
    · obtain ⟨on, gap, covers, further⟩ := Point.on_after stands.on faces.next
      cases is : token.isPunctuator sign with
      | true =>
          rw [accept_some faces is] at run
          cases run
          have moved := lt_of_le_of_lt gap (further (isEnd_of_punctuator is))
          exact ⟨.moved on _ _, moved.le, fun _ => moved⟩
      | false =>
          rw [accept_none faces is] at run
          cases run
          exact ⟨⟨faces.look.valid, stands.on⟩, le_rfl, by simp⟩
    · unfold accept? nextIs at run
      rw [bind_stops (bind_stops (peek_stops scanned unseen))] at run
      cases run
  error {_ state last fault} _ stands run := by
    obtain ⟨token, faces⟩ | ⟨found, scanned, unseen⟩ := stands.faces
    · cases is : token.isPunctuator sign with
      | true =>
          rw [accept_some faces is] at run
          cases run
      | false =>
          rw [accept_none faces is] at run
          cases run
    · unfold accept? nextIs at run
      rw [bind_stops (bind_stops (peek_stops scanned unseen))] at run
      cases run
      exact le_rfl

theorem read (sized : settings.size = Text.size settings.source) (goal : Goal) :
    Moves settings (fun _ => True) (·.read goal) where
  ok reads stands run := by
    obtain ⟨valid, -, tree, derives, -⟩ := reads.sound.reads stands.valid run
    obtain ⟨on, passes⟩ := derives.forward sized stands.on
    have moved := passes.lt stands.on
    exact ⟨⟨valid, on⟩, moved.le, fun _ => moved⟩
  error reads stands run := reads.fails stands run

/-- A step that follows a phrase reads something where the phrase does. -/
theorem along {before : List SyntaxTree} {phrase : Value → Phrase} {view : Value → List SyntaxTree}
    (sized : settings.size = Text.size settings.source)
    (rule : Implements settings (Derives settings) anywhere before phrase view step)
    (moves : Somewhere settings step) (advances : ∀ value, gains value → (phrase value).Advances) :
    Moves settings gains step where
  ok reads stands run := by
    obtain ⟨lastStands, le, -⟩ := moves.ok reads stands run
    refine ⟨lastStands, le, fun gained => ?_⟩
    have along := rule.reads reads.sound stands.valid trivial run
    obtain ⟨-, -, passes⟩ := Phrase.reads_forward sized (·.forward sized) along.reads stands.on
    exact (passes (advances _ gained)).lt stands.on
  error := moves.error

end Moves

end Moves

end Grammar

end ScriptTree
