import ScriptTree.Proofs.Grammar.Recall

/-!
# Where steps arrive

Outside of functions and loop heads, and with no bound on nesting, what a step
comes to is decided by the tokens at the point where it starts.  A step that
arrives does so from every state at its point, so steps are put together by
their points and values alone.  A head that is refused leaves nothing behind
but its rejection.
-/

namespace ScriptTree

namespace Grammar

def Scope.top : Scope :=
  ⟨false, false, false⟩

section

variable {Value : Type}

/-- From every state at a point, a step yields a value and ends at another
point. -/
def Arrives (settings : Settings) (step : Parse Value) (point : Point) (value : Value)
    (last : Point) : Prop :=
  ∀ state : State, state.At settings point .top →
    ∃ after : State, after.At settings last .top ∧ step settings state = .ok value after

/-- From every state at a point, a step fails in a way that only ends
speculation. -/
def Balks (settings : Settings) (step : Parse Value) (point : Point) : Prop :=
  ∀ state : State, state.At settings point .top →
    ∃ fault after, after.scope = .top ∧ Parse.isFinal fault = false ∧
      step settings state = .error fault after

end

theorem State.At.facing {settings : Settings} {point : Point} {scope : Scope} {state : State}
    {token : Token} (stands : state.At settings point scope)
    (next : point.next settings.dialect = .ok token) : Faces settings state token := by
  obtain ⟨valid, rfl, -⟩ := stands
  exact ⟨valid, next⟩

/-! ## Steps that arrive -/

namespace Arrives

theorem settings {settings : Settings} {point : Point} :
    Arrives settings Parse.settings point settings point :=
  fun state stands => ⟨state, stands, rfl⟩

variable {settings : Settings} {point middle last : Point} {token : Token}
  {Value Other : Type} {step : Parse Value} {value : Value} {found : Other}

theorem pure (value : Value) : Arrives settings (Pure.pure value) point value point :=
  fun state stands => ⟨state, stands, rfl⟩

theorem bind {first : Parse Other} {next : Other → Parse Value}
    (arrives : Arrives settings first point found middle)
    (later : Arrives settings (next found) middle value last) :
    Arrives settings (first >>= next) point value last := by
  intro state stands
  obtain ⟨between, standsBetween, run⟩ := arrives state stands
  obtain ⟨after, standsAfter, runNext⟩ := later between standsBetween
  exact ⟨after, standsAfter, (bind_run run).trans runNext⟩

/-- A step that looks at the state is known from every state at its point. -/
theorem state {next : State → Parse Value}
    (leads : ∀ state : State, state.scope = .top →
      Arrives settings (next state) point value last) :
    Arrives settings (Parse.state >>= next) point value last :=
  fun state stands => leads state stands.scope state stands

theorem nested (unbounded : settings.limit = none)
    (arrives : Arrives settings step point value last) :
    Arrives settings (Parse.nested step) point value last := by
  intro state stands
  obtain ⟨after, standsAfter, run⟩ := arrives _ (stands.deepen (state.depth + 1))
  exact ⟨_, standsAfter.deepen _, nested_run unbounded run rfl⟩

theorem withIn (arrives : Arrives settings step point value last) :
    Arrives settings (Parse.withIn step) point value last := by
  intro state stands
  obtain ⟨after, standsAfter, run⟩ := arrives _ ((Shift.noIn false).at_enter stands)
  refine ⟨_, (Shift.noIn false).at_leave stands.scope standsAfter, ?_⟩
  exact ((Shift.noIn false).around_eq step settings state).trans (by rw [run]; rfl)

section

variable (next : point.next settings.dialect = .ok token)

include next

theorem peek : Arrives settings Grammar.peek point token point :=
  fun state stands => ⟨state.look token, stands.look next, peek_run (stands.facing next)⟩

theorem leaf (kind : Kind) :
    Arrives settings (Grammar.leaf kind) point (.leaf kind token.span) (.after token) :=
  fun state stands => ⟨state.pass token, stands.pass token, leaf_run (stands.facing next) kind⟩

theorem nextIs (sign : Punctuator) :
    Arrives settings (Grammar.nextIs sign) point (token.isPunctuator sign) point :=
  .bind (.peek next) (.pure _)

theorem nextIsKeyword (word : Keyword) :
    Arrives settings (Grammar.nextIsKeyword word) point (token.isKeyword word) point :=
  .bind (.peek next) (.pure _)

theorem accept_none {sign : Punctuator} (other : token.isPunctuator sign = false) :
    Arrives settings (accept? sign) point none point :=
  fun state stands =>
    ⟨state.look token, stands.look next, Grammar.accept_none (stands.facing next) other⟩

theorem accept_some {sign : Punctuator} (is : token.isPunctuator sign = true) :
    Arrives settings (accept? sign) point
      (some (.leaf (.fixed (.punctuator sign)) token.span)) (.after token) :=
  fun state stands =>
    ⟨state.pass token, stands.pass token, Grammar.accept_some (stands.facing next) is⟩

theorem expect {sign : Punctuator} (is : token.isPunctuator sign = true) :
    Arrives settings (Grammar.expect sign) point
      (.leaf (.fixed (.punctuator sign)) token.span) (.after token) :=
  fun state stands => ⟨state.pass token, stands.pass token, expect_run (stands.facing next) is⟩

end

section

variable {Progress : Type} {round : Progress → Parse (Round Progress Value)}
  {progress later : Progress} {rounds : Nat}

theorem iterate_done (some : 0 < rounds)
    (arrives : Arrives settings (round progress) point (.done value) last) :
    Arrives settings (iterate round rounds progress) point value last := by
  intro state stands
  obtain ⟨after, standsAfter, run⟩ := arrives state stands
  exact ⟨after, standsAfter, Grammar.iterate_done some run⟩

theorem iterate_again
    (arrives : Arrives settings (round progress) point (.again later) middle)
    (rest : Arrives settings (iterate round rounds later) middle value last) :
    Arrives settings (iterate round (rounds + 1) progress) point value last := by
  intro state stands
  obtain ⟨between, standsBetween, run⟩ := arrives state stands
  obtain ⟨after, standsAfter, runRest⟩ := rest between standsBetween
  exact ⟨after, standsAfter, (Grammar.iterate_again run).trans runRest⟩

end

end Arrives

/-! ## Steps that balk -/

namespace Balks

variable {settings : Settings} {point middle : Point} {token : Token} {Value Other : Type}
  {step : Parse Value} {found : Other}

theorem failAt (token : Token) (expected : Expectation) :
    Balks settings (Grammar.failAt token expected : Parse Value) point := by
  refine fun state stands => ⟨_, state, stands.scope, ?_, rfl⟩
  unfold unexpected
  split <;> rfl

/-- A step balks at once. -/
theorem first {first : Parse Other} {next : Other → Parse Value}
    (balks : Balks settings first point) : Balks settings (first >>= next) point := by
  intro state stands
  obtain ⟨fault, after, kept, ordinary, run⟩ := balks state stands
  exact ⟨fault, after, kept, ordinary, bind_stops run⟩

/-- A step balks behind another one. -/
theorem behind {first : Parse Other} {next : Other → Parse Value}
    (arrives : Arrives settings first point found middle)
    (balks : Balks settings (next found) middle) : Balks settings (first >>= next) point := by
  intro state stands
  obtain ⟨between, standsBetween, run⟩ := arrives state stands
  obtain ⟨fault, after, kept, ordinary, runNext⟩ := balks between standsBetween
  exact ⟨fault, after, kept, ordinary, (bind_run run).trans runNext⟩

theorem withIn (balks : Balks settings step point) : Balks settings (Parse.withIn step) point := by
  intro state stands
  obtain ⟨fault, after, kept, ordinary, run⟩ := balks _ ((Shift.noIn false).at_enter stands)
  have inside : after.scope = (Shift.noIn false).scope state.scope := by
    rw [kept, stands.scope]
    rfl
  refine ⟨fault, _, ((Shift.noIn false).scope_leave inside).trans stands.scope, ordinary, ?_⟩
  exact ((Shift.noIn false).around_eq step settings state).trans (by rw [run]; rfl)

/-- The first round of a loop balks. -/
theorem iterate {Progress : Type} {round : Progress → Parse (Round Progress Value)}
    {progress : Progress} {rounds : Nat} (some : 0 < rounds)
    (balks : Balks settings (round progress) point) :
    Balks settings (iterate round rounds progress) point := by
  obtain ⟨fewer, rfl⟩ : ∃ fewer, rounds = fewer + 1 := ⟨rounds - 1, by omega⟩
  rw [iterate_succ]
  exact balks.first

end Balks

/-! ## No arrow function -/

section

variable {settings : Settings} {descent : Descent} {point : Point}
  {token second third fourth : Token}

/-- A head that balks is rejected, if it was not before. -/
theorem Arrives.arrow_refused (next : point.next settings.dialect = .ok token)
    (opens : token.isPunctuator .leftParen = true)
    (balks : Balks settings (arrowHead descent false) point) :
    Arrives settings (arrow? descent) point none point := by
  intro state stands
  have faces := stands.facing next
  have notWord : token.isWord .asyncWord = false :=
    isWord_of_punctuator (kind_of_punctuator opens) _
  have candidates : candidate settings state =
      .ok (some (false, token.start.offset)) (state.look token) := by
    unfold candidate
    rw [bind_run (peek_run faces), bind_run (startsAsyncHead_other faces.look notWord),
      bind_run (mayStartArrow_signed faces.look.look (by rw [opens]; rfl))]
    rfl
  have known : wasRejected token.start.offset settings (state.look token) =
      .ok (settings.recallsHeads && state.rejectedHeads.contains token.start.offset)
        (state.look token) := rfl
  obtain ⟨fault, after, kept, ordinary, run⟩ := balks _ (stands.look next)
  rw [arrow_tries, bind_run candidates]
  change ∃ last : State, _ ∧ tryArrow descent false token.start.offset settings _ = _
  unfold tryArrow
  rw [bind_run known]
  cases settings.recallsHeads && state.rejectedHeads.contains token.start.offset with
  | true => exact ⟨state.look token, stands.look next, rfl⟩
  | false =>
      have attempted : Parse.attempt (arrowHead descent false) settings (state.look token) =
          .ok none (after.rewindTo (state.look token)) := by
        unfold Parse.attempt
        rw [run]
        simp [ordinary]
      simp only [Bool.false_eq_true, if_false]
      rw [bind_run attempted]
      let rewound := after.rewindTo (state.look token)
      exact ⟨{ rewound with rejectedHeads := token.start.offset :: rewound.rejectedHeads },
        ⟨(stands.look next).valid, (stands.look next).point, kept⟩, rfl⟩

/-- What starts with neither a name nor a parenthesis is no arrow function. -/
theorem Arrives.arrow_other (next : point.next settings.dialect = .ok token)
    (notName : token.isIdentifier = false) (notOpening : token.isPunctuator .leftParen = false) :
    Arrives settings (arrow? descent) point none point := by
  intro state stands
  have faces := stands.facing next
  have notWord : token.isWord .asyncWord = false := by
    rw [Token.isWord, notName]
    rfl
  refine ⟨state.look token, stands.look next, ?_⟩
  unfold arrow?
  rw [bind_run (peek_run faces), bind_run (startsAsyncHead_other faces.look notWord),
    bind_run (mayStartArrow_other faces.look.look notName notOpening)]
  rfl

/-- A head needs a name, a closing parenthesis or dots behind its opening
parenthesis. -/
theorem Balks.head_nameless (rounds : 0 < descent.rounds)
    (next : point.next settings.dialect = .ok token) (opens : token.isPunctuator .leftParen = true)
    (follows : (Point.after token).next settings.dialect = .ok second)
    (notName : second.isIdentifier = false) (notClosing : second.isPunctuator .rightParen = false)
    (notDots : second.isPunctuator .ellipsis = false) :
    Balks settings (arrowHead descent false) point := by
  have entry (trees : Array SyntaxTree) :
      Balks settings (parameter descent trees) (.after token) := by
    unfold parameter
    refine .behind (.nextIs follows _) ?_
    rw [notClosing]
    refine .behind (.accept_none follows notDots) (.first ?_)
    unfold expectName
    refine .behind (.peek follows) ?_
    rw [notName]
    exact .failAt _ _
  rw [arrowHead_plain]
  unfold headInputs
  refine .behind (.peek next) ?_
  rw [isIdentifier_of_punctuator (kind_of_punctuator opens)]
  exact .first (.withIn (.behind (.expect next opens) (.first (.iterate rounds (entry _)))))

/-- A name in parentheses is no head unless an arrow follows. -/
theorem Balks.head_named (rounds : 0 < descent.rounds)
    (next : point.next settings.dialect = .ok token) (opens : token.isPunctuator .leftParen = true)
    (follows : (Point.after token).next settings.dialect = .ok second)
    (isName : second.isIdentifier = true)
    (closes : (Point.after second).next settings.dialect = .ok third)
    (isClosing : third.isPunctuator .rightParen = true)
    (behind : (Point.after third).next settings.dialect = .ok fourth)
    (notArrow : fourth.isPunctuator .arrow = false) :
    Balks settings (arrowHead descent false) point := by
  have notSign {sign : Punctuator} (other : sign ≠ .rightParen) :
      third.isPunctuator sign = false := by
    rw [Token.isPunctuator, kind_of_punctuator isClosing]
    simpa using other.symm
  have entry (trees : Array SyntaxTree) :
      Arrives settings (parameter descent trees) (.after token)
        (.done (trees.push (.leaf (.rule .variableDefinition) second.span))) (.after second) := by
    intro state stands
    have rest : Arrives settings (parameterAfter descent
        (trees.push (.leaf (.rule .variableDefinition) second.span))) (.after second)
        (.done (trees.push (.leaf (.rule .variableDefinition) second.span))) (.after second) := by
      unfold parameterAfter
      refine .bind (.nextIs closes _) ?_
      rw [notSign (by decide)]
      exact .bind (.accept_none closes (notSign (by decide))) (.pure _)
    obtain ⟨after, standsAfter, run⟩ := rest _ (stands.pass second)
    exact ⟨after, standsAfter, (parameter_run (stands.facing follows) isName trees).trans run⟩
  have inputs : Arrives settings (parameters descent) point
      (build .paramList [.leaf (.fixed (.punctuator .leftParen)) token.span,
        .leaf (.rule .variableDefinition) second.span,
        .leaf (.fixed (.punctuator .rightParen)) third.span]) (.after third) :=
    .withIn (.bind (.expect next opens) (.bind (.iterate_done rounds (entry _))
      (.bind (.expect closes isClosing) (.pure _))))
  rw [arrowHead_plain]
  unfold headInputs
  refine .behind (.peek next) ?_
  rw [isIdentifier_of_punctuator (kind_of_punctuator opens)]
  refine .behind inputs ?_
  unfold arrowEnd
  refine .behind (.peek behind) ?_
  rw [notArrow]
  exact .failAt _ _

end

end Grammar

end ScriptTree
