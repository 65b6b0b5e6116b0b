import ScriptTree.Proofs.ScanError
import ScriptTree.Proofs.Termination

/-!
# Errors are located

Only tokens of the text are blamed, by the production that has looked at them
or by a later one.  So every error covers a piece of the text, whatever was
looked ahead at or tried before it was met.
-/

namespace ScriptTree

/-- Of two places in a text, the later one is reached from the other. -/
theorem Place.On.reaches {source : Text} {place later : Place} (on : Place.On source place)
    (laterOn : Place.On source later) (le : place.offset ≤ later.offset) :
    ∃ text, place.Reaches text later := by
  obtain ⟨before, rest, offset⟩ := on
  obtain ⟨more, laterRest, laterOffset⟩ := laterOn
  change source = before ++ place.rest at rest
  change source = more ++ later.rest at laterRest
  change place.offset = 0 + Text.size before at offset
  change later.offset = 0 + Text.size more at laterOffset
  rcases List.append_eq_append_iff.mp (rest.symm.trans laterRest) with
    ⟨text, rfl, behind⟩ | ⟨text, rfl, behind⟩
  · rw [Text.size_append] at laterOffset
    exact ⟨text, behind, by omega⟩
  · rw [Text.size_append] at offset
    have nothing : text = [] := by
      by_contra nonempty
      have := Text.size_pos nonempty
      omega
    subst nothing
    exact ⟨[], behind.symm, by simpa using laterOffset.trans offset.symm⟩

namespace Grammar

variable {settings : Settings} {Value Other : Type}

/-- The tokens of a text may be blamed, and no error may come from anywhere
else. -/
abbrev Terms.within (source : Text) : Terms :=
  ⟨True, False, Token.In source⟩

/-- An error is located, unless the reader has given up. -/
def Settings.Explains (settings : Settings) (fault : SyntaxError) : Prop :=
  fault = stalled ∨ fault.Located settings.limit settings.source

/-- The errors of the recursive calls of a descent are located. -/
structure Descent.Locates (settings : Settings) (descent : Descent) : Prop
    extends descent.Moves settings where
  located : ∀ {goal : Goal} {state last : State} {fault : SyntaxError}, state.Stands settings →
    descent.read goal settings state = .error fault last → settings.Explains fault

/-- A step moves in the text and its errors are located there, given that those
of its recursive calls are. -/
structure Locates (settings : Settings) (step : Descent → Parse Value) : Prop where
  moves : Moves.Somewhere settings step
  located : ∀ {descent : Descent} {state last : State} {fault : SyntaxError},
    descent.Locates settings → state.Stands settings →
    step descent settings state = .error fault last → settings.Explains fault

namespace Locates

variable {step : Descent → Parse Value}

theorem pure (value : Value) : Locates settings fun _ => Pure.pure value :=
  ⟨.pure id, fun _ _ run => nomatch run⟩

theorem bind {first : Descent → Parse Other} {next : Other → Descent → Parse Value}
    (firstLocates : Locates settings first) (nextLocates : ∀ value, Locates settings (next value)) :
    Locates settings fun descent => first descent >>= fun value => next value descent where
  moves := .later firstLocates.moves fun value => (nextLocates value).moves
  located reads stands run := by
    rcases bind_error run with firstRun | ⟨found, middle, firstRun, nextRun⟩
    · exact firstLocates.located reads stands firstRun
    · obtain ⟨middleStands, -⟩ := firstLocates.moves.ok reads.toMoves stands firstRun
      exact (nextLocates found).located reads middleStands nextRun

theorem failAt {token : Token} (inside : token.In settings.source) (expected : Expectation) :
    Locates settings fun _ => (Grammar.failAt token expected : Parse Value) where
  moves := .fail
  located _ _ run := by
    cases run
    exact .inr (inside.unexpected_located expected)

theorem scan_explained {state : State} {fault : SyntaxError} (stands : state.Stands settings)
    (scanned : state.point.next settings.dialect = .error fault) : settings.Explains fault :=
  .inr (Token.scan_located stands.on scanned)

theorem peek : Locates settings fun _ => Grammar.peek where
  moves := .peek
  located {_ state _ _} _ stands run := by
    rcases stands.faces with ⟨token, faces⟩ | ⟨fault, scanned, unseen⟩
    · rw [peek_run faces] at run
      cases run
    · rw [peek_stops scanned unseen] at run
      cases run
      exact scan_explained stands scanned

/-- A token that comes next is a token of the text. -/
theorem look {next : Token → Descent → Parse Value}
    (each : ∀ token : Token, token.In settings.source → Locates settings (next token)) :
    Locates settings fun descent => Grammar.peek >>= fun token => next token descent := by
  have found {state middle : State} {token : Token} (stands : state.Stands settings)
      (run : Grammar.peek settings state = .ok token middle) :
      token.In settings.source ∧ middle.Stands settings ∧ middle.place = state.place := by
    obtain ⟨scanned, point, valid, -⟩ := peek_ok stands.valid run
    have place : middle.place = state.place := congrArg Point.place point
    exact ⟨⟨_, _, _, stands.on, scanned⟩, ⟨valid, place ▸ stands.on⟩, place⟩
  refine ⟨⟨fun reads stands run => ?_, fun reads stands run => ?_⟩, fun reads stands run => ?_⟩
  · obtain ⟨token, middle, looked, nextRun⟩ := bind_ok run
    obtain ⟨inside, middleStands, same⟩ := found stands looked
    exact same ▸ (each token inside).moves.ok reads middleStands nextRun
  · rcases bind_error run with looked | ⟨token, middle, looked, nextRun⟩
    · rw [peek_error looked]
    · obtain ⟨inside, middleStands, same⟩ := found stands looked
      exact same ▸ (each token inside).moves.error reads middleStands nextRun
  · rcases bind_error run with looked | ⟨token, middle, looked, nextRun⟩
    · exact peek.located reads stands looked
    · obtain ⟨inside, middleStands, -⟩ := found stands looked
      exact (each token inside).located reads middleStands nextRun

theorem peekSecond : Locates settings fun _ => Grammar.peekSecond where
  moves := .peekSecond
  located {_ state _ _} reads stands run := by
    rcases stands.faces with ⟨token, faces⟩ | ⟨fault, scanned, unseen⟩
    · obtain ⟨onToken, -⟩ := Point.on_after stands.on faces.next
      cases next : (Point.after token).next settings.dialect with
      | ok second =>
          rw [peekSecond_run faces next] at run
          cases run
      | error fault =>
          rw [peekSecond_scans faces, next] at run
          cases run
          exact .inr (Token.scan_located onToken next)
    · unfold Grammar.peekSecond at run
      rw [bind_stops (peek_stops scanned unseen)] at run
      cases run
      exact scan_explained stands scanned

theorem advance : Locates settings fun _ => Grammar.advance where
  moves := Moves.advance.weaken fun _ => False.elim
  located reads stands run := by
    rcases bind_error run with looked | ⟨token, middle, looked, moved⟩
    · exact peek.located reads stands looked
    · cases moved

theorem piece (sized : settings.size = Text.size settings.source) :
    Locates settings fun _ => Grammar.piece where
  moves := (Moves.piece sized).weaken fun _ => False.elim
  located _ _ run := by
    unfold Grammar.piece at run
    split at run <;> cases run

theorem read (sized : settings.size = Text.size settings.source) (goal : Goal) :
    Locates settings fun descent => descent.read goal where
  moves := (Moves.read sized goal).weaken fun _ => False.elim
  located reads stands run := reads.located stands run

theorem around (shift : Shift) (locates : Locates settings step) :
    Locates settings fun descent => shift.around (step descent) where
  moves := locates.moves.around shift
  located {descent state last fault} reads stands run := by
    rw [shift.around_eq] at run
    cases inner : step descent settings (shift.enter state) with
    | ok value after =>
        rw [inner] at run
        cases run
    | error found after =>
        rw [inner] at run
        cases run
        exact locates.located reads (shift.stands_enter stands) inner

theorem nested (locates : Locates settings step) :
    Locates settings fun descent => Parse.nested (step descent) where
  moves := locates.moves.nested
  located {descent state last fault} reads stands run := by
    have deeper (run : (step descent settings { state with depth := state.depth + 1 }).mapState
        (fun after => { after with depth := after.depth - 1 }) = .error fault last) :
        settings.Explains fault := by
      cases inner : step descent settings { state with depth := state.depth + 1 } with
      | ok value after =>
          rw [inner] at run
          cases run
      | error found after =>
          rw [inner] at run
          cases run
          have inside : State.Stands settings { state with depth := state.depth + 1 } :=
            ⟨stands.valid, stands.on⟩
          exact locates.located reads inside inner
    unfold Parse.nested at run
    dsimp only at run
    split at run
    · exact deeper run
    · rename_i bound limited
      split at run
      · cases run
        exact .inr (.of_reaches stands.on (.refl _) rfl ⟨limited, rfl⟩)
      · exact deeper run

theorem iterate {Progress : Type} {round : Progress → Descent → Parse (Round Progress Value)}
    (each : ∀ progress, Locates settings (round progress)) (start : Progress) :
    Locates settings fun descent =>
      Grammar.iterate (fun progress => round progress descent) descent.rounds start := by
  have along (rounds : Nat) (start : Progress) : Locates settings fun descent =>
      Grammar.iterate (fun progress => round progress descent) rounds start := by
    induction rounds generalizing start with
    | zero =>
        refine ⟨.fail, fun _ _ run => ?_⟩
        cases run
        exact .inl rfl
    | succ rounds ih =>
        simp only [iterate_succ]
        refine .bind (each start) fun result => ?_
        cases result with
        | done value => exact .pure value
        | again progress => exact ih progress
  exact ⟨.iterate (fun progress => (each progress).moves) start,
    fun reads => (along _ start).located reads⟩

theorem attempt (locates : Locates settings step) :
    Locates settings fun descent => Parse.attempt (step descent) where
  moves := locates.moves.attempt
  located {descent state last fault} reads stands run := by
    unfold Parse.attempt at run
    cases inner : step descent settings state with
    | ok found after =>
        rw [inner] at run
        cases run
    | error found after =>
        rw [inner] at run
        dsimp only at run
        split at run
        · cases run
          exact locates.located reads stands inner
        · cases run

/-- A template that does not end is covered from its opening backtick on. -/
theorem template (sized : settings.size = Text.size settings.source)
    (opens : Locates settings fun _ => expect .backtick)
    (hole : ∀ opening trees span, Locates settings fun descent =>
      afterPiece descent opening trees (some (.holeOpen, span))) :
    Locates settings Grammar.template := by
  have whole : Assembled (.lax False) Grammar.template := .template
  refine ⟨whole.moves sized, fun {descent state last fault} reads stands run => ?_⟩
  rw [template_pieces] at run
  rcases bind_error run with opensRun | ⟨opening, middle, opensRun, restRun⟩
  · exact opens.located reads stands opensRun
  obtain ⟨middleStands, -⟩ := opens.moves.ok reads.toMoves stands opensRun
  obtain ⟨first, onFirst, starts, early⟩ : ∃ first, Place.On settings.source first ∧
      opening.span.start = first.offset ∧ first.offset ≤ middle.place.offset := by
    rcases stands.faces with ⟨token, faces⟩ | ⟨fault, scanned, unseen⟩
    · obtain ⟨skipped, toStart, -⟩ := Trivia.skip_reaches (Token.scan_scanned faces.next).skipped
      obtain ⟨-, -, covers, -⟩ := Point.on_after stands.on faces.next
      cases is : token.isPunctuator .backtick with
      | true =>
          rw [expect_run faces is] at opensRun
          cases opensRun
          exact ⟨token.start, stands.on.after toStart, rfl, covers⟩
      | false =>
          unfold expect at opensRun
          rw [bind_run (peek_run faces), is] at opensRun
          cases opensRun
    · unfold expect at opensRun
      rw [bind_stops (peek_stops scanned unseen)] at opensRun
      cases opensRun
  let round (trees : Array SyntaxTree) (descent : Descent) :
      Parse (Round (Array SyntaxTree) (Array SyntaxTree)) :=
    Grammar.piece >>= afterPiece descent opening trees
  have moves (trees : Array SyntaxTree) : Moves.Somewhere settings (round trees) :=
    (Assembled.bind .piece fun found =>
      .afterPiece trivial opening trees found : Assembled (.lax False) (round trees)).moves sized
  have stops (trees : Array SyntaxTree) {state last : State} {fault : SyntaxError}
      (stands : state.Stands settings) (behind : first.offset ≤ state.place.offset)
      (run : round trees descent settings state = .error fault last) : settings.Explains fault := by
    rcases bind_error run with pieceRun | ⟨found, after, pieceRun, afterRun⟩
    · exact (piece sized).located reads stands pieceRun
    obtain ⟨afterStands, le, -⟩ := (piece sized).moves.ok reads.toMoves stands pieceRun
    unfold afterPiece at afterRun
    split at afterRun
    · cases afterRun
    · exact (hole opening trees _).located reads afterStands afterRun
    · cases afterRun
    · cases afterRun
      obtain ⟨text, reaches⟩ := onFirst.reaches afterStands.on (behind.trans le)
      exact .inr (.of_reaches onFirst reaches (by rw [starts]) trivial)
  rcases bind_error restRun with loopRun | ⟨trees, after, -, built⟩
  · -- A round that goes on ends behind the backtick, where the next one starts.
    have along (rounds : Nat) : ∀ (trees : Array SyntaxTree) (state : State),
        state.Stands settings → first.offset ≤ state.place.offset →
        Grammar.iterate (fun trees => round trees descent) rounds trees settings state =
          .error fault last → settings.Explains fault := by
      induction rounds with
      | zero =>
          intro trees state _ _ run
          cases run
          exact .inl rfl
      | succ rounds ih =>
          intro trees state stands behind run
          rw [iterate_succ] at run
          rcases bind_error run with roundRun | ⟨result, after, roundRun, laterRun⟩
          · exact stops trees stands behind roundRun
          · obtain ⟨afterStands, le, -⟩ := (moves trees).ok reads.toMoves stands roundRun
            cases result with
            | done value => cases laterRun
            | again trees => exact ih trees after afterStands (behind.trans le) laterRun
    exact along descent.rounds _ middle middleStands early loopRun
  · cases built

theorem arrow (async : Locates settings fun _ => startsAsyncHead)
    (may : ∀ isAsync, Locates settings fun _ => mayStartArrow isAsync)
    (head : ∀ isAsync, Locates settings fun descent => arrowHead descent isAsync)
    (rest : ∀ modifier inputs, Locates settings fun descent => arrowRest descent modifier inputs) :
    Locates settings arrow? := by
  refine .bind .peek fun token => .bind async fun isAsync => .bind (may isAsync) fun starts => ?_
  cases starts with
  | false => exact .pure none
  | true =>
      have remembered : Locates settings fun _ => wasRejected token.start.offset :=
        ⟨.wasRejected _, fun _ _ run => nomatch run⟩
      have rejects : Locates settings fun _ => reject token.start.offset :=
        ⟨.reject _, fun _ _ run => nomatch run⟩
      refine .bind remembered fun known => ?_
      cases known with
      | true => exact .pure none
      | false =>
          refine .bind (head isAsync).attempt fun found => ?_
          cases found with
          | some head => exact .bind (rest head.1 head.2) fun tree => .pure _
          | none => exact .bind rejects fun _ => .pure none

end Locates

/-- Whatever is assembled from blaming tokens of the text has located errors. -/
theorem Assembled.locates (sized : settings.size = Text.size settings.source)
    {step : Descent → Parse Value} (assembled : Assembled (.within settings.source) step) :
    Locates settings step := by
  induction assembled with
  | pure value => exact .pure value
  | bind _ _ firstIh nextIh => exact .bind firstIh nextIh
  | fail never => exact False.elim never
  | failAt known expected => exact .failAt known expected
  | look _ ih => exact .look ih
  | peekSecond => exact .peekSecond
  | advance => exact .advance
  | piece => exact .piece sized
  | settings _ _ ih =>
      exact ⟨⟨fun reads stands run => (ih settings).moves.ok reads stands run,
        fun reads stands run => (ih settings).moves.error reads stands run⟩,
        fun reads stands run => (ih settings).located reads stands run⟩
  | state _ _ ih =>
      exact ⟨⟨fun reads stands run => (ih _).moves.ok reads stands run,
        fun reads stands run => (ih _).moves.error reads stands run⟩,
        fun reads stands run => (ih _).located reads stands run⟩
  | read goal => exact .read sized goal
  | around shift _ ih => exact ih.around shift
  | nested _ ih => exact ih.nested
  | loop _ _ start ih => exact .iterate ih start
  | chunked _ _ _ opens hole => exact .template sized opens hole
  | arrow _ _ _ _ _ async may head rest => exact .arrow async may head rest

/-! ## Whole texts -/

theorem read_locates (sized : settings.size = Text.size settings.source) (rounds steps : Nat) :
    (Descent.mk rounds (read steps)).Locates settings where
  toMoves := read_moves sized rounds steps
  located := by
    induction steps generalizing rounds with
    | zero =>
        intro goal state last fault _ run
        cases run
        exact .inl rfl
    | succ steps ih =>
        intro goal state last fault stands run
        have assembled : Assembled (.within settings.source) fun descent => produce descent goal :=
          produce_assembled goal fun _ => trivial
        exact (assembled.locates sized).located ⟨read_moves sized steps steps, ih steps⟩ stands run

theorem parseWith_located (sized : settings.size = Text.size settings.source)
    {fault : SyntaxError} (run : parseWith settings = .error fault) :
    fault.Located settings.limit settings.source := by
  have finished := parseWith_endures sized run
  unfold parseWith at run
  dsimp only at run
  split at run
  · cases run
  · rename_i found
    cases run
    have assembled : Assembled (.within settings.source) script := script_assembled
    rcases (assembled.locates sized).located (read_locates sized _ _) State.initial_stands found
      with rfl | located
    · exact absurd rfl finished
    · exact located

end Grammar

/-- Every error of reading covers a piece of the text from one character
boundary to another.  What it says about that piece is so: the token or the
number found there is quoted in full, a character that starts no token is all
that is covered, the end of the text is reported at the end, and a text is
nested too deeply for the limit that was set. -/
theorem parse_locates (options : Options) (source : Text) (fault : SyntaxError)
    (failed : Grammar.parse options source = .error fault) :
    fault.span.start ≤ fault.span.stop ∧ fault.span.stop ≤ Text.size source ∧
      (∃ text, fault.span.text? source = some text) ∧
      fault.Located options.bounds.limit source := by
  have located : fault.Located options.bounds.limit source := Grammar.parseWith_located rfl failed
  obtain ⟨ordered, inside, text⟩ := located.span_text
  exact ⟨ordered, inside, text, located⟩

/-- A string that is broken off in the hole of a template, behind a character
of two bytes. -/
theorem parse_locates_string :
    ∃ fault, Grammar.parse ⟨.script, .standard⟩ "é=\x60$\x7b'a".toList = .error fault ∧
      fault.span.stop ≤ Text.size "é=\x60$\x7b'a".toList ∧
      fault.Located (some 4096) "é=\x60$\x7b'a".toList := by
  have fails : (Grammar.parse ⟨.script, .standard⟩ "é=\x60$\x7b'a".toList).isOk = false := by
    decide +kernel
  cases run : Grammar.parse ⟨.script, .standard⟩ "é=\x60$\x7b'a".toList with
  | ok tree =>
      rw [run] at fails
      cases fails
  | error fault =>
      obtain ⟨-, inside, -, located⟩ := parse_locates _ _ fault run
      exact ⟨fault, rfl, inside, located⟩

end ScriptTree
