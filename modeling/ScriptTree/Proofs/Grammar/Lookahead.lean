import ScriptTree.Proofs.Grammar.Implements

/-!
# Steps that look ahead or consume a token

A valid state looks at the token that stands at its point, so what a step
learns about the next token is a fact about the point.
-/

namespace ScriptTree

namespace Grammar

variable (settings : Settings) (category : Category)

/-- The next token passes a test. -/
def Sees (point : Point) (test : Token → Bool) : Prop :=
  ∃ token, point.next settings.dialect = .ok token ∧ test token = true

variable {settings category}

theorem peek_ok {state last : State} {token : Token} (valid : state.Valid settings)
    (run : peek settings state = .ok token last) :
    state.point.next settings.dialect = .ok token ∧ last.point = state.point ∧
      last.Valid settings ∧ Kept state last := by
  unfold peek at run
  cases looked : state.peeked with
  | some found =>
      simp only [looked, Outcome.ok.injEq] at run
      obtain ⟨rfl, rfl⟩ := run
      exact ⟨valid _ looked, rfl, valid, .refl _⟩
  | none =>
      simp only [looked] at run
      cases scanned : Token.scan settings.dialect state.place state.patternAllowed with
      | error fault => simp [scanned] at run
      | ok found =>
          simp only [scanned, Outcome.ok.injEq] at run
          obtain ⟨rfl, rfl⟩ := run
          refine ⟨scanned, rfl, ?_, ⟨rfl, rfl, fun _ member => member⟩⟩
          intro other same
          cases same
          exact scanned

theorem peek_error {state last : State} {fault : SyntaxError}
    (run : peek settings state = .error fault last) : last = state := by
  unfold peek at run
  split at run
  · cases run
  · split at run
    · cases run
    · cases run
      rfl

namespace Implements

variable {Value Other : Type} {pre : Scope → Point → Prop} {before : List SyntaxTree}
  {phrase : Value → Phrase} {view : Value → List SyntaxTree}

/-- Looking at the next token. -/
theorem looks :
    Implements settings category pre before
      (fun token => .given fun settings _ point _ => point.next settings.dialect = .ok token)
      (fun _ => before) (fun _ => Grammar.peek) where
  reads := by
    intro descent state last token sound valid holds run
    obtain ⟨next, point, lastValid, kept⟩ := peek_ok valid run
    exact ⟨lastValid, kept, next, point, rfl⟩
  fails := by
    intro descent state last fault sound valid holds run
    obtain rfl := peek_error run
    exact .refl _
  asks _ _ _ _ _ := rfl

/-- Going on after a look at the next token. -/
theorem peek_then [Nonempty Value] {next : Token → Descent → Parse Value}
    (rule : ∀ token, Implements settings category
      (fun scope point => pre scope point ∧ point.next settings.dialect = .ok token)
      before phrase view (next token)) :
    Implements settings category pre before phrase view
      (fun descent => Grammar.peek >>= fun token => next token descent) := by
  refine looks.followed (fun _ => phrase) ?_ ?_ rule
  · rintro token scope point last holds ⟨found, rfl, -⟩
    exact ⟨holds, found⟩
  · intro token value
    constructor
    · rintro scope point trees last later ⟨middle, between, ⟨-, rfl, rfl⟩, reads⟩
      exact reads
    · rintro scope point trees goal inside target
        (called | ⟨middle, between, ⟨-, rfl, rfl⟩, called⟩)
      · cases called
      · exact called

/-- Going on in a way that depends on the kind of the next token. -/
theorem peek_byKind [Nonempty Value] {family : TokenKind → Value → Phrase}
    {next : Token → Descent → Parse Value}
    (rule : ∀ token, Implements settings category
      (fun scope point => pre scope point ∧ point.next settings.dialect = .ok token)
      before (family token.kind) view (next token)) :
    Implements settings category pre before
      (fun value => .byKind fun kind => family kind value) view
      (fun descent => Grammar.peek >>= fun token => next token descent) := by
  refine looks.followed (fun token => family token.kind) ?_ ?_ rule
  · rintro token scope point last holds ⟨found, rfl, -⟩
    exact ⟨holds, found⟩
  · intro token value
    constructor
    · rintro scope point trees last later ⟨middle, between, ⟨found, rfl, rfl⟩, reads⟩
      exact ⟨token, found, reads⟩
    · rintro scope point trees goal inside target
        (called | ⟨middle, between, ⟨found, rfl, rfl⟩, called⟩)
      · cases called
      · exact ⟨token, found, called⟩

/-- A decision that depends on a test of the next token. -/
theorem test [Nonempty Value] {probe : Parse Bool} {test : Token → Bool}
    {yes no : Descent → Parse Value}
    (asTest : probe = (Grammar.peek >>= fun token => Pure.pure (test token)))
    (yesRule : Implements settings category
      (fun scope point => pre scope point ∧ Sees settings point test) before phrase view yes)
    (noRule : Implements settings category
      (fun scope point => pre scope point ∧ Sees settings point fun token => !test token)
      before phrase view no) :
    Implements settings category pre before phrase view
      (fun descent => probe >>= fun decision =>
        if decision = true then yes descent else no descent) := by
  have same : (fun descent => probe >>= fun decision =>
      if decision = true then yes descent else no descent) =
      fun descent => Grammar.peek >>= fun token =>
        if test token = true then yes descent else no descent := by
    funext descent
    rw [asTest, bind_assoc]
    simp only [pure_bind]
  rw [same]
  refine peek_then fun token => ite (fun passes => ?_) fun fails => ?_
  · exact yesRule.under fun _ _ holds => ⟨holds.1, token, holds.2, passes⟩
  · exact noRule.under fun _ _ holds => ⟨holds.1, token, holds.2, by simp [fails]⟩

/-- A choice between two phrases that depends on a test of the next token. -/
theorem test_ite [Nonempty Value] {probe : Parse Bool} {decide : Token → Bool}
    {yes no : Descent → Parse Value} {yesPhrase noPhrase : Value → Phrase}
    (asTest : probe = (Grammar.peek >>= fun token => Pure.pure (decide token)))
    (yesRule : Implements settings category
      (fun scope point => pre scope point ∧ Sees settings point decide) before yesPhrase view yes)
    (noRule : Implements settings category
      (fun scope point => pre scope point ∧ Sees settings point fun token => !decide token)
      before noPhrase view no) :
    Implements settings category pre before
      (fun value => .either (yesPhrase value) (noPhrase value)) view
      (fun descent => probe >>= fun decision =>
        if decision = true then yes descent else no descent) :=
  test asTest yesRule.inl noRule.inr

section Part

variable {Part : Type} {yes no : Descent → Parse Part} {next : Part → Descent → Parse Value}
  {yesPhrase noPhrase : Phrase} {partView : Part → List SyntaxTree} {decide : Token → Bool}

/-- Going on after a part that is read in one of two ways, depending on a test
of the next token. -/
theorem test_part [Nonempty Value] [Nonempty Part] {probe : Parse Bool}
    (asTest : probe = (Grammar.peek >>= fun token => Pure.pure (decide token)))
    (yesRule : Implements settings category
      (fun scope point => pre scope point ∧ Sees settings point decide) before
      (fun _ => yesPhrase) partView yes)
    (noRule : Implements settings category
      (fun scope point => pre scope point ∧ Sees settings point fun token => !decide token) before
      (fun _ => noPhrase) partView no)
    (nextRule : ∀ part, Implements settings category anywhere (partView part) phrase view
      (next part)) :
    Implements settings category pre before
      (fun value => .seq (.either yesPhrase noPhrase) (phrase value)) view
      (fun descent => probe >>= fun decision =>
        if decision = true then yes descent >>= fun part => next part descent
        else no descent >>= fun part => next part descent) := by
  have partRule := andThen (test_ite asTest yesRule noRule) nextRule
  simp only [bind_assoc, ite_bind] at partRule
  exact partRule

/-- Going on after a part that is read in one of two ways, depending on the
next token. -/
theorem peek_part [Nonempty Value] [Nonempty Part]
    (yesRule : Implements settings category
      (fun scope point => pre scope point ∧ Sees settings point decide) before
      (fun _ => yesPhrase) partView yes)
    (noRule : Implements settings category
      (fun scope point => pre scope point ∧ Sees settings point fun token => !decide token) before
      (fun _ => noPhrase) partView no)
    (nextRule : ∀ part, Implements settings category anywhere (partView part) phrase view
      (next part)) :
    Implements settings category pre before
      (fun value => .seq (.either yesPhrase noPhrase) (phrase value)) view
      (fun descent => Grammar.peek >>= fun token =>
        if decide token = true then yes descent >>= fun part => next part descent
        else no descent >>= fun part => next part descent) := by
  have partRule := test_part rfl yesRule noRule nextRule
  simp only [bind_assoc, pure_bind] at partRule
  exact partRule

end Part

/-- A test of the next token that decides nothing. -/
theorem test_ignored [Nonempty Value] {probe : Parse Bool} {test : Token → Bool}
    {step : Descent → Parse Value}
    (asTest : probe = (Grammar.peek >>= fun token => Pure.pure (test token)))
    (rule : Implements settings category anywhere before phrase view step) :
    Implements settings category pre before phrase view
      (fun descent => probe >>= fun _ => step descent) := by
  rw [asTest]
  simp only [bind_assoc, pure_bind]
  exact peek_then fun _ => rule.always

/-- Consuming the next token as a leaf with a label that suits it. -/
theorem takes {kind : Kind}
    (known : ∀ scope point, pre scope point → Sees settings point kind.admits) :
    Implements settings category pre before (fun _ => .take kind) (fun tree => before ++ [tree])
      (fun _ => Grammar.leaf kind) where
  reads := by
    intro descent state last tree sound valid holds run
    obtain ⟨seen, next, suits⟩ := known _ _ holds
    cases looked : Grammar.peek settings state with
    | error fault after =>
        change Parse.bind (Parse.bind Grammar.peek _) _ settings state = _ at run
        simp [Parse.bind, looked] at run
    | ok token after =>
        obtain ⟨found, point, -, kept⟩ := peek_ok valid looked
        obtain rfl : seen = token := Except.ok.inj (next.symm.trans found)
        change Parse.bind (Parse.bind Grammar.peek _) _ settings state = _ at run
        simp only [Parse.bind, looked] at run
        cases run
        refine ⟨?_, ⟨kept.scope, kept.depth, kept.heads⟩, seen, next, suits, rfl, rfl⟩
        intro other same
        cases same
  fails := by
    intro descent state last fault sound valid holds run
    cases looked : Grammar.peek settings state with
    | error found after =>
        change Parse.bind (Parse.bind Grammar.peek _) _ settings state = _ at run
        simp only [Parse.bind, looked] at run
        cases run
        obtain rfl := peek_error looked
        exact .refl _
    | ok token after =>
        change Parse.bind (Parse.bind Grammar.peek _) _ settings state = _ at run
        simp only [Parse.bind, looked] at run
        cases run
  asks _ _ _ _ _ := rfl

/-- Consuming the next token if it suits a label, and failing otherwise. -/
theorem expected {kind : Kind} {test : Token → Bool} {fault : Token → SyntaxError}
    (suits : ∀ token, test token = true → kind.admits token = true) :
    Implements settings category pre before (fun _ => .take kind) (fun tree => before ++ [tree])
      (fun _ => Grammar.peek >>= fun token =>
        if test token = true then Grammar.leaf kind else Parse.fail (fault token)) := by
  refine peek_then fun token => ite (fun passes => ?_) fun _ => fail
  exact takes fun _ _ holds => ⟨token, holds.2, suits token passes⟩

theorem takes_sign {sign : Punctuator} :
    Implements settings category pre before (fun _ => .sign sign) (fun tree => before ++ [tree])
      (fun _ => Grammar.expect sign) :=
  expected fun _ passes => passes

theorem takes_contextual {word : ContextualWord} :
    Implements settings category pre before (fun _ => .contextual word)
      (fun tree => before ++ [tree]) (fun _ => Grammar.expectWord word) :=
  expected fun _ passes => passes

theorem admits_keyword {word : Keyword} {token : Token} (is : token.isKeyword word = true) :
    (Kind.fixed (.keyword word)).admits token = true := by
  cases word with
  | extendsWord => simp [Kind.admits, isExtends, is]
  | _ => exact is

theorem takes_word {word : Keyword} :
    Implements settings category pre before (fun _ => .word word) (fun tree => before ++ [tree])
      (fun _ => Grammar.expectKeyword word) :=
  expected fun _ passes => admits_keyword passes

theorem takes_definition :
    Implements settings category pre before (fun _ => .named .variableDefinition)
      (fun tree => before ++ [tree]) (fun _ => Grammar.expectName .variableDefinition) :=
  expected fun _ passes => passes

/-- Going on after a punctuator that may be missing. -/
theorem accept_then [Nonempty Value] {sign : Punctuator}
    {next : Option SyntaxTree → Descent → Parse Value} {presentPhrase absentPhrase : Value → Phrase}
    (present : ∀ tree, Implements settings category anywhere (before ++ [tree]) presentPhrase view
      (next (some tree)))
    (absent : Implements settings category
      (fun scope point => pre scope point ∧ Sees settings point fun token =>
        !token.isPunctuator sign) before absentPhrase view (next none)) :
    Implements settings category pre before
      (fun value => .either (.seq (.sign sign) (presentPhrase value)) (absentPhrase value)) view
      (fun descent => Grammar.accept? sign >>= fun found => next found descent) := by
  have same : (fun descent => Grammar.accept? sign >>= fun found => next found descent) =
      fun descent => Grammar.nextIs sign >>= fun decision =>
        if decision = true then
          (Grammar.spelled (.punctuator sign) >>= fun tree => next (some tree) descent)
        else
          next none descent := by
    funext descent
    unfold Grammar.accept?
    rw [bind_assoc]
    congr 1
    funext decision
    cases decision <;> simp
  rw [same]
  exact test_ite rfl ((takes fun _ _ holds => holds.2).andThen present) absent

/-- Going on after a part that is read in one of two ways, depending on a
punctuator in front of it. -/
theorem accept_part [Nonempty Value] {sign : Punctuator}
    {next : Option SyntaxTree → Descent → Parse Value}
    {present : SyntaxTree → Descent → Parse SyntaxTree} {absent : Descent → Parse SyntaxTree}
    {rest : SyntaxTree → Descent → Parse Value} {presentPhrase absentPhrase : Phrase}
    (presentRule : ∀ tree, Implements settings category anywhere [tree] (fun _ => presentPhrase)
      (fun part => [part]) (present tree))
    (absentRule : Produces settings category absentPhrase absent)
    (isPresent : ∀ tree descent, next (some tree) descent =
      (present tree descent >>= fun part => rest part descent))
    (isAbsent : ∀ descent, next none descent =
      (absent descent >>= fun part => rest part descent))
    (restRule : ∀ part, Implements settings category anywhere (before ++ [part]) phrase view
      (rest part)) :
    Implements settings category pre before
      (fun value =>
        .seq (.sub (.either (.seq (.sign sign) presentPhrase) absentPhrase)) (phrase value)) view
      (fun descent => Grammar.accept? sign >>= fun found => next found descent) := by
  have partRule : Produces settings category
      (.either (.seq (.sign sign) presentPhrase) absentPhrase)
      (fun descent => Grammar.accept? sign >>= fun found =>
        found.elim (absent descent) fun tree => present tree descent) :=
    accept_then presentRule absentRule.always
  have same : (fun descent => Grammar.accept? sign >>= fun found => next found descent) =
      fun descent => (Grammar.accept? sign >>= fun found =>
        found.elim (absent descent) fun tree => present tree descent) >>=
          fun part => rest part descent := by
    funext descent
    rw [bind_assoc]
    congr 1
    funext found
    cases found with
    | some tree => exact isPresent tree descent
    | none => exact isAbsent descent
  rw [same]
  exact (sub partRule).andThen restRule

/-- A phrase that was chosen by the kind of a token that is known to come
next. -/
theorem ofKind [Nonempty Value] {family : TokenKind → Value → Phrase} {token : Token}
    {step : Descent → Parse Value}
    (known : ∀ scope point, pre scope point → point.next settings.dialect = .ok token)
    (rule : Implements settings category pre before (family token.kind) view step) :
    Implements settings category pre before
      (fun value => .byKind fun kind => family kind value) view step where
  reads := by
    intro descent state last value sound valid holds run
    have along := rule.reads sound valid holds run
    exact ⟨along.valid, along.kept, token, known _ _ holds, along.reads⟩
  fails := rule.fails
  asks := by
    intro descent other state sound valid holds rounds agree
    apply rule.asks sound valid holds rounds
    intro goal inner value innerValid called
    exact agree goal inner value innerValid ⟨token, known _ _ holds, called⟩

/-- Going on after a look at the token behind the next one. -/
theorem second_then [Nonempty Value] {next : Token → Descent → Parse Value}
    (rule : ∀ second, Implements settings category
      (fun scope point => pre scope point ∧ ∃ first, point.next settings.dialect = .ok first ∧
        (Point.after first).next settings.dialect = .ok second) before phrase view (next second)) :
    Implements settings category pre before phrase view
      (fun descent => Grammar.peekSecond >>= fun second => next second descent) := by
  have same : (fun descent => Grammar.peekSecond >>= fun second => next second descent) =
      fun descent => Grammar.peek >>= fun first => fun settings state =>
        Parse.bind (ofScan ((Point.after first).next settings.dialect))
          (fun second => next second descent) settings state := by
    funext descent
    unfold Grammar.peekSecond
    rw [bind_assoc]
    rfl
  rw [same]
  refine peek_then fun first => ?_
  cases scanned : (Point.after first).next settings.dialect with
  | error fault =>
      constructor
      · intro descent state last value sound valid holds run
        simp [Parse.bind, ofScan, scanned] at run
      · intro descent state last found sound valid holds run
        simp only [Parse.bind, ofScan, scanned, Outcome.error.injEq] at run
        obtain ⟨-, rfl⟩ := run
        exact .refl _
      · intro descent other state sound valid holds rounds agree
        simp [Parse.bind, ofScan, scanned]
  | ok second =>
      have goOn := rule second
      constructor
      · intro descent state last value sound valid holds run
        simp only [Parse.bind, ofScan, scanned] at run
        exact goOn.reads sound valid ⟨holds.1, first, holds.2, scanned⟩ run
      · intro descent state last fault sound valid holds run
        simp only [Parse.bind, ofScan, scanned] at run
        exact goOn.fails sound valid ⟨holds.1, first, holds.2, scanned⟩ run
      · intro descent other state sound valid holds rounds agree
        simp only [Parse.bind, ofScan, scanned]
        exact goOn.asks sound valid ⟨holds.1, first, holds.2, scanned⟩ rounds agree

/-- What is known about the token behind the next one holds of the next token
once the first is consumed. -/
theorem second_is_next {kind : Kind} {scope : Scope} {point last : Point} {second : Token}
    {trees : List SyntaxTree}
    (known : ∃ first, point.next settings.dialect = .ok first ∧
      (Point.after first).next settings.dialect = .ok second)
    (taken : (Phrase.take kind).Reads settings category scope point before last trees) :
    last.next settings.dialect = .ok second := by
  obtain ⟨token, found, -, rfl, -⟩ := taken
  obtain ⟨first, isFirst, isSecond⟩ := known
  obtain rfl : token = first := Except.ok.inj (found.symm.trans isFirst)
  exact isSecond

/-- Going on with the settings in force. -/
theorem settings_then {next : Settings → Descent → Parse Value}
    (rule : Implements settings category pre before phrase view (next settings)) :
    Implements settings category pre before phrase view
      (fun descent => Parse.settings >>= fun settings => next settings descent) :=
  ⟨rule.reads, rule.fails, rule.asks⟩

/-- Going on with the current state, whose scope and point are those in
force. -/
theorem state_then {next : State → Descent → Parse Value}
    (rule : ∀ current : State, Implements settings category
      (fun scope point => pre scope point ∧ current.scope = scope ∧ current.point = point)
      before phrase view (next current)) :
    Implements settings category pre before phrase view
      (fun descent => Parse.state >>= fun current => next current descent) where
  reads {_ state _ _} sound valid holds run :=
    (rule state).reads sound valid ⟨holds, rfl, rfl⟩ run
  fails {_ state _ _} sound valid holds run :=
    (rule state).fails sound valid ⟨holds, rfl, rfl⟩ run
  asks {_ _ state} sound valid holds rounds agree :=
    (rule state).asks sound valid ⟨holds, rfl, rfl⟩ rounds agree

end Implements

end Grammar

end ScriptTree
