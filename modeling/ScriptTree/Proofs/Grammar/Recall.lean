import ScriptTree.Proofs.Grammar.Retry

/-!
# Recalling rejected heads

An assignment tries a head, and reads the same text in another way if the head
is rejected.  Since both readings pass the same verdicts, the whole is foretold
by them, together with the verdict on the head itself.
-/

namespace ScriptTree

namespace Grammar

variable {settings : Settings} {descent : Descent} {point : Point} {scope : Scope}
  {verdicts more most : Set Verdict} {start : Nat} {Value Other : Type}

/-! ## Trying a head -/

/-- An arrow function whose head is tried at an offset, unless it was rejected
there. -/
def tryArrow (descent : Descent) (isAsync : Bool) (offset : Nat) : Parse (Option SyntaxTree) := do
  if ← wasRejected offset then
    return none
  match ← Parse.attempt (arrowHead descent isAsync) with
  | some (modifier, inputs) => return some (← arrowRest descent modifier inputs)
  | none =>
      reject offset
      return none

/-- The kind and the offset of the head that may start here. -/
def candidate : Parse (Option (Bool × Nat)) := do
  let token ← peek
  let isAsync ← startsAsyncHead
  if ← mayStartArrow isAsync then
    return some (isAsync, token.start.offset)
  else
    return none

/-- Tries the head that may start here. -/
def tryCandidate (descent : Descent) : Option (Bool × Nat) → Parse (Option SyntaxTree)
  | some (isAsync, offset) => tryArrow descent isAsync offset
  | none => pure none

theorem arrow_tries : arrow? descent = candidate >>= tryCandidate descent := by
  funext settings state
  simp only [arrow?, candidate, bind, Parse.bind]
  cases peek settings state with
  | error fault after => rfl
  | ok token after =>
      dsimp only
      cases startsAsyncHead settings after with
      | error fault after => rfl
      | ok isAsync after =>
          dsimp only
          cases mayStartArrow isAsync settings after with
          | error fault after => rfl
          | ok starts after => cases starts <;> rfl

/-- What an assignment comes to without an arrow function. -/
def orElse (descent : Descent) : Option SyntaxTree → Parse SyntaxTree
  | some function => pure function
  | none => conditional descent >>= assignmentAfter descent

theorem assignment_tries : assignment descent = Parse.nested (arrow? descent >>= orElse descent) :=
  rfl

section

variable {state : State} {token second : Token}

theorem peekSecond_stops {fault : SyntaxError} (faces : Faces settings state token)
    (stops : (Point.after token).next settings.dialect = .error fault) :
    peekSecond settings state = .error fault (state.look token) := by
  have scanned : Token.scan settings.dialect token.stop token.kind.allowsPatternAfter =
    .error fault := stops
  unfold peekSecond
  rw [bind_run (peek_run faces), bind_run settings_run, scanned]
  rfl

/-- Whether a token behind the modifier of an asynchronous head goes on with
it. -/
def continuesHead (settings : Settings) (second : Token) : Bool :=
  (second.isIdentifier || second.isPunctuator .leftParen) && continuesAt settings second

theorem startsAsyncHead_word (faces : Faces settings state token)
    (isWord : token.isWord .asyncWord = true)
    (next : (Point.after token).next settings.dialect = .ok second) :
    startsAsyncHead settings state = .ok (continuesHead settings second) (state.look token) := by
  unfold startsAsyncHead continuesHead
  rw [bind_run (nextIsWord_run faces _), isWord, if_pos rfl,
    bind_run (peekSecond_run faces.look next)]
  cases second.isIdentifier || second.isPunctuator .leftParen <;> rfl

theorem startsAsyncHead_stops {fault : SyntaxError} (faces : Faces settings state token)
    (isWord : token.isWord .asyncWord = true)
    (stops : (Point.after token).next settings.dialect = .error fault) :
    startsAsyncHead settings state = .error fault (state.look token) := by
  unfold startsAsyncHead
  rw [bind_run (nextIsWord_run faces _), isWord, if_pos rfl]
  exact bind_stops (peekSecond_stops faces.look stops)

theorem startsAsyncHead_other (faces : Faces settings state token)
    (notWord : token.isWord .asyncWord = false) :
    startsAsyncHead settings state = .ok false (state.look token) := by
  unfold startsAsyncHead
  rw [bind_run (nextIsWord_run faces _), notWord]
  rfl

theorem mayStartArrow_signed (faces : Faces settings state token) {isAsync : Bool}
    (starts : (isAsync || token.isPunctuator .leftParen) = true) :
    mayStartArrow isAsync settings state = .ok true (state.look token) := by
  unfold mayStartArrow
  rw [bind_run (peek_run faces), starts]
  rfl

theorem mayStartArrow_named (faces : Faces settings state token)
    (isName : token.isIdentifier = true)
    (next : (Point.after token).next settings.dialect = .ok second) :
    mayStartArrow false settings state = .ok (second.isPunctuator .arrow) (state.look token) := by
  unfold mayStartArrow
  rw [bind_run (peek_run faces), isPunctuator_of_identifier isName, isName]
  simp only [Bool.or_self, Bool.false_eq_true, if_false, if_true]
  rw [bind_run (peekSecond_run faces.look next)]
  rfl

theorem mayStartArrow_stops {fault : SyntaxError} (faces : Faces settings state token)
    (isName : token.isIdentifier = true)
    (stops : (Point.after token).next settings.dialect = .error fault) :
    mayStartArrow false settings state = .error fault (state.look token) := by
  unfold mayStartArrow
  rw [bind_run (peek_run faces), isPunctuator_of_identifier isName, isName]
  exact bind_stops (peekSecond_stops faces.look stops)

theorem mayStartArrow_other (faces : Faces settings state token)
    (notName : token.isIdentifier = false) (notOpening : token.isPunctuator .leftParen = false) :
    mayStartArrow false settings state = .ok false (state.look token) := by
  unfold mayStartArrow
  rw [bind_run (peek_run faces), notOpening, notName]
  rfl

end

theorem isEnd_of_name {token : Token} (isName : token.isIdentifier = true) :
    token.isEnd = false := by
  rw [Token.isEnd, kind_of_identifier isName]
  rfl

theorem name_of_async {token : Token} (isWord : token.isWord .asyncWord = true) :
    token.isIdentifier = true ∧ prefixKind? token.kind = none ∧
      token.isWord .awaitWord = false := by
  obtain ⟨isName, text⟩ := (Bool.and_eq_true _ _).mp isWord
  rw [beq_iff_eq] at text
  refine ⟨isName, ?_, ?_⟩
  · rw [kind_of_identifier isName]
    rfl
  · rw [Token.isWord, isName, text]
    decide

/-- What comes next may be the start of a head. -/
inductive Candidate (settings : Settings) (point : Point) : Bool → Token → Prop where
  | group {opening : Token} (next : point.next settings.dialect = .ok opening)
      (opens : opening.isPunctuator .leftParen = true) : Candidate settings point false opening
  | named {name arrow : Token} (next : point.next settings.dialect = .ok name)
      (isName : name.isIdentifier = true)
      (follows : (Point.after name).next settings.dialect = .ok arrow)
      (isArrow : arrow.isPunctuator .arrow = true) : Candidate settings point false name
  | async {word second : Token} (next : point.next settings.dialect = .ok word)
      (isWord : word.isWord .asyncWord = true)
      (follows : (Point.after word).next settings.dialect = .ok second)
      (continues : (second.isIdentifier || second.isPunctuator .leftParen) = true) :
      Candidate settings point true word

theorem Candidate.scanned {isAsync : Bool} {token : Token}
    (candidate : Candidate settings point isAsync token) :
    point.next settings.dialect = .ok token ∧ token.isEnd = false := by
  cases candidate with
  | group next opens => exact ⟨next, isEnd_of_punctuator opens⟩
  | named next isName => exact ⟨next, isEnd_of_name isName⟩
  | async next isWord => exact ⟨next, isEnd_of_name (name_of_async isWord).1⟩

/-- It is foretold that no head is tried, or which one. -/
def Decided (settings : Settings) (point : Point) (scope : Scope) : Prop :=
  Foretold settings point.place.offset candidate point scope ∅ (.ok none point) ∨
    ∃ isAsync token, Candidate settings point isAsync token ∧
      Foretold settings point.place.offset candidate point scope ∅
        (.ok (some (isAsync, token.start.offset)) point)

section

variable {token second : Token} {isAsync starts : Bool} {fault : SyntaxError}

/-- The two questions about the next token decide whether a head is tried. -/
theorem candidate_settles (on : Place.On settings.source point.place)
    (next : point.next settings.dialect = .ok token)
    (async : ∀ {recalls : Bool} {state : State},
      Faces (settings.recalling recalls) state token →
        startsAsyncHead (settings.recalling recalls) state = .ok isAsync (state.look token))
    (may : ∀ {recalls : Bool} {state : State},
      Faces (settings.recalling recalls) state token →
        mayStartArrow isAsync (settings.recalling recalls) state =
          .ok starts (state.look token)) :
    Foretold settings point.place.offset candidate point scope ∅
      (.ok (if starts = true then some (isAsync, token.start.offset) else none) point) := by
  refine Foretold.jump (.pure on) fun recalls state stands => ?_
  refine ⟨state.look token, stands.look next, rfl, ?_⟩
  have faces := stands.faces next recalls
  unfold candidate
  rw [bind_run (peek_run faces), bind_run (async faces.look), State.look_look,
    bind_run (may faces.look), State.look_look]
  cases starts <;> rfl

/-- Where the second of two tokens cannot be scanned, no head is tried. -/
theorem candidate_stops (next : point.next settings.dialect = .ok token)
    (isName : token.isIdentifier = true)
    (stops : (Point.after token).next settings.dialect = .error fault) :
    Foretold settings start candidate point scope ∅ (.error fault) := by
  refine .stops fault fun recalls state stands => ⟨state.look token, stands.scope, rfl, ?_⟩
  have faces := (stands.faces next recalls).look
  have stops : (Point.after token).next (settings.recalling recalls).dialect = .error fault := stops
  unfold candidate
  rw [bind_run (peek_run (stands.faces next recalls))]
  cases isWord : token.isWord .asyncWord with
  | true => exact bind_stops (startsAsyncHead_stops faces isWord stops)
  | false =>
      rw [bind_run (startsAsyncHead_other faces isWord), State.look_look]
      exact bind_stops (mayStartArrow_stops faces isName stops)

/-- A token that is no name starts a head if it is a parenthesis. -/
theorem candidate_sign (on : Place.On settings.source point.place)
    (next : point.next settings.dialect = .ok token) (notName : token.isIdentifier = false) :
    Decided settings point scope := by
  have notWord : token.isWord .asyncWord = false := by
    rw [Token.isWord, notName]
    rfl
  cases opens : token.isPunctuator .leftParen with
  | true =>
      have starts : (false || token.isPunctuator .leftParen) = true := by rw [opens]; rfl
      exact .inr ⟨false, token, .group next opens, candidate_settles on next
        (fun faces => startsAsyncHead_other faces notWord)
        fun faces => mayStartArrow_signed faces starts⟩
  | false =>
      exact .inl (candidate_settles on next (fun faces => startsAsyncHead_other faces notWord)
        fun faces => mayStartArrow_other faces notName opens)

/-- A name that is no modifier starts a head if an arrow follows. -/
theorem candidate_name (on : Place.On settings.source point.place)
    (next : point.next settings.dialect = .ok token) (isName : token.isIdentifier = true)
    (follows : (Point.after token).next settings.dialect = .ok second)
    (plain : ∀ {recalls : Bool} {state : State},
      Faces (settings.recalling recalls) state token →
        startsAsyncHead (settings.recalling recalls) state = .ok false (state.look token)) :
    Decided settings point scope := by
  have settles : Foretold settings point.place.offset candidate point scope ∅ _ :=
    candidate_settles on next plain fun faces => mayStartArrow_named faces isName follows
  cases isArrow : second.isPunctuator .arrow with
  | true =>
      rw [isArrow] at settles
      exact .inr ⟨false, token, .named next isName follows isArrow, settles⟩
  | false =>
      rw [isArrow] at settles
      exact .inl settles

/-- Whether a head is tried depends on nothing but the tokens that come
next. -/
theorem candidate_foretold (scope : Scope) (on : Place.On settings.source point.place) :
    (∃ fault, Foretold settings point.place.offset candidate point scope ∅ (.error fault)) ∨
      Decided settings point scope := by
  cases next : point.next settings.dialect with
  | error fault =>
      refine .inl ⟨fault, .stops fault fun recalls state stands => ⟨state, stands.scope, rfl, ?_⟩⟩
      exact bind_stops (stands.peek_stops next recalls)
  | ok token =>
      cases isName : token.isIdentifier with
      | false => exact .inr (candidate_sign on next isName)
      | true =>
          cases follows : (Point.after token).next settings.dialect with
          | error fault => exact .inl ⟨fault, candidate_stops next isName follows⟩
          | ok second =>
              cases isWord : token.isWord .asyncWord with
              | false =>
                  exact .inr (candidate_name on next isName follows fun faces =>
                    startsAsyncHead_other faces isWord)
              | true =>
                  have async {recalls : Bool} {state : State}
                      (faces : Faces (settings.recalling recalls) state token) :
                      startsAsyncHead (settings.recalling recalls) state =
                        .ok (continuesHead settings second) (state.look token) :=
                    startsAsyncHead_word faces isWord follows
                  cases goesOn : continuesHead settings second with
                  | false =>
                      rw [goesOn] at async
                      exact .inr (candidate_name on next isName follows async)
                  | true =>
                      rw [goesOn] at async
                      have isHead := (Bool.and_eq_true _ _ ▸ goesOn).1
                      exact .inr (.inr ⟨true, token, .async next isWord follows isHead,
                        candidate_settles on next async fun faces =>
                          mayStartArrow_signed faces rfl⟩)

end

/-! ## Verdicts on a head and on what follows it -/

/-- A verdict before all others does not contradict them. -/
theorem consistent_verdict {offset middle : Nat} (accepted : Bool)
    (consistent : verdicts.InjOn Verdict.offset)
    (late : ∀ verdict ∈ verdicts, middle ≤ verdict.offset) (before : offset < middle) :
    ({⟨offset, accepted⟩} ∪ verdicts : Set Verdict).InjOn Verdict.offset :=
  consistent_union (Set.injOn_singleton _ _) consistent
    (fun _ passed => (Set.mem_singleton_iff.mp passed) ▸ before) late

/-- A step that runs like another one, but for a verdict before all others. -/
theorem Foretold.ahead {step other : Parse Value} {result : Result Value} {offset middle : Nat}
    {accepted : Bool} (foretold : Foretold settings middle step point scope verdicts result)
    (late : start ≤ offset) (before : offset < middle)
    (runs : Runs settings other point scope ({⟨offset, accepted⟩} ∪ verdicts) result) :
    Foretold settings start other point scope ({⟨offset, accepted⟩} ∪ verdicts) result where
  consistent := consistent_verdict accepted foretold.consistent foretold.late before
  late := by
    rintro verdict (passed | passed)
    · exact (Set.mem_singleton_iff.mp passed) ▸ late
    · exact (late.trans before.le).trans (foretold.late verdict passed)
  early same := by
    obtain ⟨on, le, early⟩ := foretold.early same
    refine ⟨on, (late.trans before.le).trans le, ?_⟩
    rintro verdict (passed | passed)
    · exact (Set.mem_singleton_iff.mp passed) ▸ lt_of_lt_of_le before le
    · exact early verdict passed
  runs := runs

def arrowBody (descent : Descent) (isAsync : Bool) : Parse SyntaxTree := do
  let head ← arrowHead descent isAsync
  arrowRest descent head.1 head.2

section

variable {isAsync : Bool} {offset middle : Nat} {state : State}

theorem tryArrow_known
    (known : (settings.recallsHeads && state.rejectedHeads.contains offset) = true) :
    (tryArrow descent isAsync offset >>= orElse descent) settings state =
      (conditional descent >>= assignmentAfter descent) settings state := by
  have run : tryArrow descent isAsync offset settings state = .ok none state := by
    have found : wasRejected offset settings state = .ok true state :=
      congrArg (Outcome.ok · state) known
    unfold tryArrow
    rw [bind_run found]
    rfl
  exact bind_run run

theorem tryArrow_rejected {fault : SyntaxError} {after : State}
    (unknown : (settings.recallsHeads && state.rejectedHeads.contains offset) = false)
    (run : arrowHead descent isAsync settings state = .error fault after)
    (ordinary : fault.Ordinary) :
    (tryArrow descent isAsync offset >>= orElse descent) settings state =
      (conditional descent >>= assignmentAfter descent) settings
        { after.rewindTo state with rejectedHeads := offset :: after.rejectedHeads } := by
  have tried : Parse.attempt (arrowHead descent isAsync) settings state =
      .ok none (after.rewindTo state) := by
    unfold Parse.attempt
    rw [run]
    simp [ordinary]
  have found : wasRejected offset settings state = .ok false state :=
    congrArg (Outcome.ok · state) unknown
  have rejects : tryArrow descent isAsync offset settings state =
      .ok none { after.rewindTo state with rejectedHeads := offset :: after.rejectedHeads } := by
    unfold tryArrow
    rw [bind_run found]
    simp only [Bool.false_eq_true, if_false]
    rw [bind_run tried]
    rfl
  exact bind_run rejects

/-- A head that is not rejected is followed by the rest of the function, and
an error in it that is final ends the reading. -/
theorem tryArrow_accepted
    (unknown : (settings.recallsHeads && state.rejectedHeads.contains offset) = false)
    (final : ∀ fault after, arrowHead descent isAsync settings state = .error fault after →
      Parse.isFinal fault = true) :
    (tryArrow descent isAsync offset >>= orElse descent) settings state =
      arrowBody descent isAsync settings state := by
  have found : wasRejected offset settings state = .ok false state :=
    congrArg (Outcome.ok · state) unknown
  cases run : arrowHead descent isAsync settings state with
  | error fault after =>
      have tried : Parse.attempt (arrowHead descent isAsync) settings state =
          .error fault after := by
        unfold Parse.attempt
        rw [run]
        simp [final fault after run]
      have stops : tryArrow descent isAsync offset settings state = .error fault after := by
        unfold tryArrow
        rw [bind_run found]
        exact bind_stops tried
      exact (bind_stops stops).trans (bind_stops run).symm
  | ok head after =>
      have tried : Parse.attempt (arrowHead descent isAsync) settings state =
          .ok (some head) after := by
        unfold Parse.attempt
        rw [run]
      have goesOn : tryArrow descent isAsync offset settings state =
          (arrowRest descent head.1 head.2 >>= fun function => pure (some function)) settings
            after := by
        unfold tryArrow
        rw [bind_run found]
        exact bind_run tried
      rw [bind_through goesOn]
      unfold arrowBody
      rw [bind_run run]
      change Parse.bind _ _ settings after = _
      unfold Parse.bind
      cases arrowRest descent head.1 head.2 settings after <;> rfl

end

section

variable {isAsync : Bool} {offset middle : Nat}

theorem contains_false {heads : List Nat} {recalls : Bool} {all : Set Verdict}
    (accepted : ⟨offset, true⟩ ∈ all) (clear : recalls = true → Clear all heads) :
    (recalls && heads.contains offset) = false := by
  cases recalls with
  | false => rfl
  | true =>
      have notIn : offset ∉ heads := fun known => clear rfl offset known accepted
      simpa using notIn

/-- Where a head is not rejected, the verdict on it is followed by those of the
head and of the body. -/
theorem tryArrow_foretells_body {result : Result (Option SyntaxTree × SyntaxTree)}
    (head : Foretold settings middle (arrowHead descent isAsync) point scope verdicts result)
    (final : ∀ fault, result = .error fault → Parse.isFinal fault = true)
    (rest : ∀ modifier inputs, Steady settings Set.univ middle (arrowRest descent modifier inputs))
    (late : point.place.offset ≤ offset) (before : offset < middle) :
    Foretells settings point.place.offset ∅ Set.univ
      (tryArrow descent isAsync offset >>= orElse descent) point scope := by
  obtain ⟨all, outcome, least, -, body⟩ : Foretells settings middle verdicts Set.univ
      (arrowBody descent isAsync) point scope :=
    (head.foretells le_rfl (Set.subset_univ _)).bind fun head => rest head.1 head.2
  have runs : Runs settings (tryArrow descent isAsync offset >>= orElse descent) point scope
      ({⟨offset, true⟩} ∪ all) outcome := by
    intro recalls state stands clear
    have unknown : ((settings.recalling recalls).recallsHeads &&
        state.rejectedHeads.contains offset) = false := contains_false (.inl rfl) clear
    have headShows :=
      (head.runs.mono (least.trans Set.subset_union_right)) recalls state stands clear
    rw [tryArrow_accepted unknown fun fault after run => ?_]
    · exact (body.runs.mono Set.subset_union_right) recalls state stands clear
    · rw [run] at headShows
      cases headShows with
      | error => exact final fault rfl
  exact (body.ahead late before runs).foretells (Set.empty_subset _) (Set.subset_univ _)

/-- Where a head is rejected, the verdict on it is followed by those of what is
read instead, and these cover those of the head. -/
theorem tryArrow_foretells_otherwise {fault : SyntaxError}
    (head : Foretold settings middle (arrowHead descent isAsync) point scope verdicts
      (.error fault))
    (ordinary : fault.Ordinary)
    (otherwise : Foretells settings middle verdicts Set.univ
      (conditional descent >>= assignmentAfter descent) point scope)
    (late : point.place.offset ≤ offset) (before : offset < middle) :
    Foretells settings point.place.offset ∅ Set.univ
      (tryArrow descent isAsync offset >>= orElse descent) point scope := by
  obtain ⟨all, outcome, least, -, other⟩ := otherwise
  have runs : Runs settings (tryArrow descent isAsync offset >>= orElse descent) point scope
      ({⟨offset, false⟩} ∪ all) outcome := by
    intro recalls state stands clear
    have consistent := consistent_verdict false other.consistent other.late before
    have otherRuns : Runs settings (conditional descent >>= assignmentAfter descent) point scope
        ({⟨offset, false⟩} ∪ all) outcome := other.runs.mono Set.subset_union_right
    cases known : (settings.recalling recalls).recallsHeads &&
      state.rejectedHeads.contains offset with
    | true =>
        rw [tryArrow_known known]
        exact otherRuns recalls state stands clear
    | false =>
        have headShows :=
          (head.runs.mono (least.trans Set.subset_union_right)) recalls state stands clear
        generalize run : arrowHead descent isAsync (settings.recalling recalls) state = found
          at headShows
        cases headShows with
        | @error _ after kept learned =>
            rw [tryArrow_rejected known run ordinary]
            have learns : Learned ({⟨offset, false⟩} ∪ all) state.rejectedHeads
                (offset :: after.rejectedHeads) := by
              intro other isKnown
              rcases List.mem_cons.mp isKnown with rfl | isKnown
              · exact .inr (.inl rfl)
              · exact learned other isKnown
            have again : State.At settings point scope
                { after.rewindTo state with rejectedHeads := offset :: after.rejectedHeads } :=
              ⟨stands.valid, stands.point, kept⟩
            have otherShows := otherRuns recalls _ again fun recalled =>
              (clear recalled).learned consistent learns
            exact otherShows.behind learns
  exact (other.ahead late before runs).foretells (Set.empty_subset _) (Set.subset_univ _)

end

/-! ## Assignments -/

section

variable (unbounded : settings.limit = none) (sized : settings.size = Text.size settings.source)

include unbounded sized

/-- A head whose verdicts are covered by what is read if it fails. -/
theorem tryArrow_covered {isAsync : Bool} {offset middle : Nat}
    {result : Result (Option SyntaxTree × SyntaxTree)}
    (reads : ∀ goal, Steady settings Set.univ start (descent.read goal))
    (head : Foretold settings middle (arrowHead descent isAsync) point scope verdicts result)
    (otherwise : ∀ fault, result = .error fault → Foretells settings middle verdicts Set.univ
      (conditional descent >>= assignmentAfter descent) point scope)
    (late : point.place.offset ≤ offset) (before : offset < middle) (behind : start ≤ middle) :
    Foretells settings point.place.offset ∅ Set.univ
      (tryArrow descent isAsync offset >>= orElse descent) point scope := by
  have rest (modifier : Option SyntaxTree) (inputs : SyntaxTree) :
      Steady settings Set.univ middle (arrowRest descent modifier inputs) :=
    ((Assembled.arrowRest modifier inputs).steady unbounded sized reads).later behind
  have accepted (final : ∀ fault, result = .error fault → Parse.isFinal fault = true) :=
    tryArrow_foretells_body head final rest late before
  cases result with
  | ok pair last => exact accepted nofun
  | error fault =>
      cases ordinary : Parse.isFinal fault with
      | true => exact accepted fun other same => by cases same; exact ordinary
      | false =>
          exact tryArrow_foretells_otherwise head ordinary (otherwise fault rfl) late before

variable (settled : descent.Settled settings)

include settled

variable {token second : Token} {isAsync : Bool}

/-- A parenthesis opens parameters or a group. -/
theorem tryArrow_group (on : Place.On settings.source point.place)
    (next : point.next settings.dialect = .ok token) (opens : token.isPunctuator .leftParen = true)
    (reads : ∀ goal, Steady settings Set.univ token.stop.offset (descent.read goal)) :
    Foretells settings point.place.offset ∅ Set.univ
      (tryArrow descent false token.start.offset >>= orElse descent) point scope := by
  obtain ⟨-, gap, -, further⟩ := Point.on_after on next
  have kind := kind_of_punctuator opens
  have notPrefix : prefixKind? token.kind = none := by
    rw [kind]
    rfl
  have notAwait := isWord_of_punctuator kind .awaitWord
  obtain ⟨verdicts, result, defaults, head⟩ : ∃ verdicts result,
      Defaults settings descent (scope.withNoIn false) (.after token) verdicts ∧
        Foretold settings token.stop.offset (arrowHead descent false) point scope verdicts result :=
    headInputs_defaults unbounded sized settled (reads .assignment) none on next opens le_rfl
  have group := group_covered unbounded sized settled reads on next opens le_rfl defaults
  have otherwise := operand_covered unbounded sized reads next notPrefix notAwait le_rfl group
  exact tryArrow_covered unbounded sized reads head (fun _ _ => otherwise) gap
    (further (isEnd_of_punctuator opens)) le_rfl

omit settled in
/-- A name in front of an arrow is a head in any case. -/
theorem tryArrow_name (on : Place.On settings.source point.place)
    (next : point.next settings.dialect = .ok token) (isName : token.isIdentifier = true)
    (follows : (Point.after token).next settings.dialect = .ok second)
    (isArrow : second.isPunctuator .arrow = true)
    (reads : ∀ goal, Steady settings Set.univ token.stop.offset (descent.read goal)) :
    Foretells settings point.place.offset ∅ Set.univ
      (tryArrow descent false token.start.offset >>= orElse descent) point scope := by
  obtain ⟨onName, gap, -, further⟩ := Point.on_after on next
  have onAfter : Place.On settings.source (Point.after token).place := onName
  let input : SyntaxTree := .leaf (.rule .variableDefinition) token.span
  have accepts : Foretold settings token.stop.offset
      (pure (none, input) : Parse (Option SyntaxTree × SyntaxTree)) (.after token) scope ∅
      (.ok (none, input) (.after token)) := .pure onAfter
  have head : Foretold settings token.stop.offset (arrowHead descent false) point scope ∅
      (.ok (none, input) (.after token)) := by
    refine accepts.jump fun recalls state stands => ?_
    refine ⟨(state.pass token).look second, (stands.pass token).look follows, rfl, ?_⟩
    rw [arrowHead_plain, headInputs_named (stands.faces next recalls) isName]
    unfold arrowEnd
    rw [bind_run (peek_run ((stands.pass token).faces follows recalls)), isArrow]
    rfl
  exact tryArrow_covered unbounded sized reads head nofun gap (further (isEnd_of_name isName))
    le_rfl

/-- A parenthesis behind a word opens parameters or the arguments of a call. -/
theorem tryArrow_call (on : Place.On settings.source point.place)
    (next : point.next settings.dialect = .ok token) (isWord : token.isWord .asyncWord = true)
    (follows : (Point.after token).next settings.dialect = .ok second)
    (opens : second.isPunctuator .leftParen = true)
    (reads : ∀ goal, Steady settings Set.univ token.stop.offset (descent.read goal)) :
    Foretells settings point.place.offset ∅ Set.univ
      (tryArrow descent true token.start.offset >>= orElse descent) point scope := by
  obtain ⟨onWord, gap, -, further⟩ := Point.on_after on next
  have onAfter : Place.On settings.source (Point.after token).place := onWord
  obtain ⟨-, space, covers, -⟩ := Point.on_after onAfter follows
  have behind : token.stop.offset ≤ second.stop.offset := space.trans covers
  obtain ⟨isName, notPrefix, notAwait⟩ := name_of_async isWord
  let modifier : SyntaxTree := .leaf (.fixed (.contextual .asyncWord)) token.span
  obtain ⟨verdicts, result, defaults, inputs⟩ : ∃ verdicts result,
      Defaults settings descent (scope.withNoIn false) (.after second) verdicts ∧
        Foretold settings second.stop.offset (headInputs descent (some modifier)) (.after token)
          scope verdicts result :=
    headInputs_defaults unbounded sized settled (reads .assignment) (some modifier) onAfter follows
      opens behind
  have head : Foretold settings second.stop.offset (arrowHead descent true) point scope verdicts
      result := inputs.jump fun recalls state stands =>
    ⟨state.pass token, stands.pass token, rfl, arrowHead_async (stands.faces next recalls) isWord⟩
  have call :=
    call_covered unbounded sized settled reads on next isWord follows opens behind defaults
  have otherwise := operand_covered unbounded sized reads next notPrefix notAwait behind call
  exact tryArrow_covered unbounded sized reads head (fun _ _ => otherwise) gap
    (lt_of_lt_of_le (further (isEnd_of_name isName)) behind) behind

omit settled in
/-- A name behind a word is a parameter, or the word is an operand. -/
theorem tryArrow_word (on : Place.On settings.source point.place)
    (next : point.next settings.dialect = .ok token) (isWord : token.isWord .asyncWord = true)
    (follows : (Point.after token).next settings.dialect = .ok second)
    (named : second.isIdentifier = true)
    (reads : ∀ goal, Steady settings Set.univ token.stop.offset (descent.read goal)) :
    Foretells settings point.place.offset ∅ Set.univ
      (tryArrow descent true token.start.offset >>= orElse descent) point scope := by
  obtain ⟨onWord, gap, -, further⟩ := Point.on_after on next
  have onAfter : Place.On settings.source (Point.after token).place := onWord
  obtain ⟨onSecond, space, covers, -⟩ := Point.on_after onAfter follows
  have behind : token.stop.offset ≤ second.stop.offset := space.trans covers
  obtain ⟨isName, notPrefix, notAwait⟩ := name_of_async isWord
  have notFunction := isKeyword_of_identifier named .functionWord
  let modifier : SyntaxTree := .leaf (.fixed (.contextual .asyncWord)) token.span
  let input : SyntaxTree := .leaf (.rule .variableDefinition) second.span
  have onLast : Place.On settings.source (Point.after second).place := onSecond
  obtain ⟨result, ends⟩ :=
    (Assembled.arrowEnd (some modifier) input).silent unbounded sized scope onLast
  have head : Foretold settings token.stop.offset (arrowHead descent true) point scope ∅
      result := by
    refine (ends.weaken behind).jump fun recalls state stands => ?_
    refine ⟨(state.pass token).pass second, (stands.pass token).pass second, rfl, ?_⟩
    rw [arrowHead_async (stands.faces next recalls) isWord]
    exact headInputs_named ((stands.pass token).faces follows recalls) named _
  have word : Foretells settings token.stop.offset ∅ Set.univ (leftHandSide descent) point scope :=
    word_covered unbounded sized reads on next isWord follows notFunction le_rfl
  have otherwise := operand_covered unbounded sized reads next notPrefix notAwait le_rfl word
  exact tryArrow_covered unbounded sized reads head (fun _ _ => otherwise) gap
    (further (isEnd_of_name isName)) le_rfl

/-- Whatever head may start here, trying it can be foretold. -/
theorem tryArrow_foretells (candidate : Candidate settings point isAsync token)
    (on : Place.On settings.source point.place)
    (reads : ∀ goal, Steady settings Set.univ token.stop.offset (descent.read goal)) :
    Foretells settings point.place.offset ∅ Set.univ
      (tryArrow descent isAsync token.start.offset >>= orElse descent) point scope := by
  cases candidate with
  | group next opens => exact tryArrow_group unbounded sized settled on next opens reads
  | named next isName follows isArrow =>
      exact tryArrow_name unbounded sized on next isName follows isArrow reads
  | async next isWord follows continues =>
      rcases (Bool.or_eq_true _ _).mp continues with named | opens
      · exact tryArrow_word unbounded sized on next isWord follows named reads
      · exact tryArrow_call unbounded sized settled on next isWord follows opens reads

omit sized settled in
/-- An assignment is a candidate and what is made of it. -/
theorem assignment_candidate {given : Set Verdict}
    (foretells : Foretells settings start given most
      (candidate >>= fun found => tryCandidate descent found >>= orElse descent) point scope) :
    Foretells settings start given most (assignment descent) point scope := by
  rw [assignment_tries, arrow_tries]
  refine .nested unbounded (foretells.jump fun recalls state stands => ?_)
  exact ⟨state, stands, rfl, bind_through rfl⟩

/-- An assignment can be foretold if whatever is read behind its first token
can, and if it reads nothing else. -/
theorem assignment_foretells {other : Descent} (on : Place.On settings.source point.place)
    (reads : ∀ token, point.next settings.dialect = .ok token →
      point.place.offset < token.stop.offset →
      ∀ goal, Steady settings Set.univ token.stop.offset (descent.read goal))
    (otherReads : ∀ goal, Steady settings Set.univ point.place.offset (other.read goal))
    (same : ∀ (recalls : Bool) (state : State), state.At settings point scope →
      assignment descent (settings.recalling recalls) state =
        assignment other (settings.recalling recalls) state) :
    Foretells settings point.place.offset ∅ Set.univ (assignment descent) point scope := by
  let next (descent : Descent) (found : Option (Bool × Nat)) : Parse SyntaxTree :=
    tryCandidate descent found >>= orElse descent
  rcases candidate_foretold scope on with ⟨fault, fails⟩ | nothing | ⟨isAsync, token, isHead, found⟩
  · refine assignment_candidate unbounded ?_
    exact fails.bind_error.foretells (Set.empty_subset _) (Set.subset_univ _)
  · have plain :
        Assembled (.lax False) fun descent => conditional descent >>= assignmentAfter descent :=
      .bind .conditional .assignmentAfter
    have without : Foretells settings point.place.offset ∅ Set.univ (next other none) point scope :=
      plain.steady unbounded sized otherReads point scope on le_rfl
    have both := nothing.foretells_bind without (Set.empty_subset _)
    rw [Set.empty_union] at both
    exact (assignment_candidate unbounded both).jump fun recalls state stands =>
      ⟨state, stands, rfl, same recalls state stands⟩
  · obtain ⟨scanned, notEnd⟩ := isHead.scanned
    obtain ⟨-, gap, -, further⟩ := Point.on_after on scanned
    have passes := lt_of_le_of_lt gap (further notEnd)
    have tried : Foretells settings point.place.offset ∅ Set.univ
        (next descent (some (isAsync, token.start.offset))) point scope :=
      tryArrow_foretells unbounded sized settled isHead on (reads token scanned passes)
    have both := found.foretells_bind tried (Set.empty_subset _)
    rw [Set.empty_union] at both
    exact assignment_candidate unbounded both

end

/-! ## Whole texts -/

/-- The effort of a goal depends on where it is asked for. -/
theorem effort_recalling {state : State} (stands : state.At settings point scope) (goal : Goal)
    (recalls : Bool) :
    effort (settings.recalling recalls) goal state.place.offset =
      effort settings goal point.place.offset := by
  rw [← stands.point]
  rfl

/-- In a window every call can be foretold if those within the window can;
the others fail at once. -/
theorem window_steady {bound : Nat}
    (reads : ∀ {target : Point} {inside : Scope} (goal : Goal),
      Place.On settings.source target.place → effort settings goal target.place.offset < bound →
        Foretells settings target.place.offset ∅ most (descent.read goal) target inside)
    (goal : Goal) : Steady settings most 0 ((descent.window 0 bound).read goal) := by
  intro target inside on _
  by_cases less : effort settings goal target.place.offset < bound
  · refine (reads goal on less).jump fun recalls state stands => ?_
    refine ⟨state, stands, rfl, Descent.window_read (Nat.zero_le _) ?_⟩
    rwa [effort_recalling stands]
  · let outside : SyntaxError := ⟨.unterminatedTemplate, .empty 0⟩
    refine (Steady.fail outside target inside on le_rfl).jump fun recalls state stands => ?_
    refine ⟨state, stands, rfl, if_neg fun both => less ?_⟩
    rw [← effort_recalling stands goal recalls]
    exact both.2

section

variable (unbounded : settings.limit = none) (sized : settings.size = Text.size settings.source)

include unbounded sized

/-- Every goal can be foretold.  A goal asks for less than it takes itself, so
the induction is on the effort. -/
theorem read_foretells (settled : descent.Settled settings)
    (moves : ∀ recalls, descent.Moves (settings.recalling recalls)) (goal : Goal)
    (on : Place.On settings.source point.place) :
    Foretells settings point.place.offset ∅ Set.univ (descent.read goal) point scope := by
  generalize small : effort settings goal point.place.offset = bound
  induction bound using Nat.strong_induction_on generalizing goal point scope with
  | _ bound ih =>
      have reads (called : Goal) :
          Steady settings Set.univ 0 ((descent.window 0 bound).read called) :=
        window_steady (fun called onTarget less => ih _ less called onTarget rfl) called
      have produced (recalls : Bool) (state : State) (stands : state.At settings point scope) :
          produce (descent.window 0 bound) goal (settings.recalling recalls) state =
            produce descent goal (settings.recalling recalls) state := by
        have within : effort (settings.recalling recalls) goal state.place.offset ≤ bound := by
          rw [effort_recalling stands, small]
        exact (moves recalls).produce_window goal sized (stands.stands on recalls)
          (Nat.zero_le _) within
      suffices produces : Foretells settings point.place.offset ∅ Set.univ
          (produce descent goal) point scope from produces.jump fun recalls state stands =>
            ⟨state, stands, rfl, settled.calls goal recalls state (stands.stands on recalls)⟩
      by_cases isAssignment : goal = .assignment
      · -- Behind the first token anything asks for less, so the window is not needed there.
        subst isAssignment
        refine assignment_foretells unbounded sized settled on ?_
          (fun called => (reads called).later (Nat.zero_le _))
          fun recalls state stands => (produced recalls state stands).symm
        intro token next passes called target inside onTarget late
        refine ih _ ?_ called onTarget rfl
        obtain ⟨onToken, -, -, -⟩ := Point.on_after on next
        have within : token.stop.offset ≤ settings.size := sized ▸ onToken.offset_le_size
        have rank := called.rank_le
        rw [← small]
        unfold effort
        change _ < 2 * (settings.size - point.place.offset) + 0
        omega
      · have assembled : Assembled (.lax False) fun descent => produce descent goal :=
          produce_assembled goal fun same => isAssignment same
        have windowed := assembled.steady unbounded sized reads point scope on (Nat.zero_le _)
        exact windowed.jump fun recalls state stands =>
          ⟨state, stands, rfl, (produced recalls state stands).symm⟩

end

end Grammar

end ScriptTree
