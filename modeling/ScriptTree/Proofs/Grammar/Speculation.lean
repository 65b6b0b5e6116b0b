import ScriptTree.Proofs.Grammar.Verdict

/-!
# Heads and what is read instead

Where a head is rejected, the same text is read a second time, as a group or
as the arguments of a call.  The parameters of the head and the expressions of
the list have their defaults in common: up to the place where one of the two
readings ends, both ask for the same assignments at the same points.
-/

namespace ScriptTree

namespace Grammar

variable {settings : Settings} {descent : Descent} {point : Point} {scope : Scope}
  {verdicts more most : Set Verdict} {start : Nat} {Value Other : Type}

/-! ## Silent steps -/

/-- Steps without recursive calls can be foretold in any case. -/
theorem Assembled.alone (unbounded : settings.limit = none)
    (sized : settings.size = Text.size settings.source) {step : Parse Value}
    (assembled : Assembled (.lax False) fun _ => step) : Steady settings most start step := by
  let mute : Descent := ⟨0, fun _ => Parse.fail stalled⟩
  have reads (goal : Goal) : Steady settings most start (mute.read goal) := .fail stalled
  exact assembled.steady unbounded sized reads

/-- Steps without recursive calls try no heads. -/
theorem Assembled.silent (unbounded : settings.limit = none)
    (sized : settings.size = Text.size settings.source) {step : Parse Value}
    (assembled : Assembled (.lax False) fun _ => step) (scope : Scope)
    (on : Place.On settings.source point.place) :
    ∃ result, Foretold settings point.place.offset step point scope ∅ result := by
  have steady : Steady settings ∅ 0 step := assembled.alone unbounded sized
  obtain ⟨verdicts, result, -, none, foretold⟩ := steady point scope on (Nat.zero_le _)
  rw [Set.subset_empty_iff.mp none] at foretold
  exact ⟨result, foretold⟩

/-- What follows a step without recursive calls adds no verdicts to it. -/
theorem Foretold.silence (unbounded : settings.limit = none)
    (sized : settings.size = Text.size settings.source) {first : Parse Other}
    {next : Other → Parse Value} {result : Result Other}
    (foretold : Foretold settings start first point scope verdicts result)
    (assembled : ∀ value, Assembled (.lax False) fun _ => next value) :
    ∃ result, Foretold settings start (first >>= next) point scope verdicts result := by
  cases result with
  | error fault => exact ⟨_, foretold.bind_error⟩
  | ok value last =>
      obtain ⟨on, -, -⟩ := foretold.early rfl
      obtain ⟨result, silent⟩ := (assembled value).silent unbounded sized scope on
      have both := foretold.bind silent
      rw [Set.union_empty] at both
      exact ⟨result, both⟩

/-! ## Descents that call the productions themselves -/

/-- The calls of a descent are the productions, wherever they are made in the
text, and its loops may take as many rounds as there is text. -/
structure Descent.Settled (settings : Settings) (descent : Descent) : Prop where
  calls : ∀ (goal : Goal) (recalls : Bool) (state : State),
    state.Stands (settings.recalling recalls) →
    descent.read goal (settings.recalling recalls) state =
      produce descent goal (settings.recalling recalls) state
  rounds : settings.size + 1 < descent.rounds

/-- The reader of a text settles with as many steps as it takes. -/
theorem read_settled (sized : settings.size = Text.size settings.source) :
    Descent.Settled settings ⟨stepsFor settings.size, read (stepsFor settings.size)⟩ where
  calls goal recalls state stands := by
    have same : (settings.recalling recalls).size = Text.size (settings.recalling recalls).source :=
      sized
    refine (read_succ same goal stands ?_).symm
    have rank := goal.rank_le
    change 2 * (settings.size - state.place.offset) + goal.rank + 2 ≤ stepsFor settings.size
    unfold stepsFor
    omega
  rounds := by
    change settings.size + 1 < stepsFor settings.size
    unfold stepsFor
    omega

/-! ## Kinds of tokens -/

section

variable {name token : Token} {sign : Punctuator}

theorem kind_of_punctuator (is : token.isPunctuator sign = true) :
    token.kind = .punctuator sign := by
  simpa [Token.isPunctuator] using is

theorem isKeyword_of_punctuator (kind : token.kind = .punctuator sign) (word : Keyword) :
    token.isKeyword word = false := by
  rw [Token.isKeyword, kind]
  rfl

theorem isIdentifier_of_punctuator (kind : token.kind = .punctuator sign) :
    token.isIdentifier = false := by
  rw [Token.isIdentifier, kind]
  rfl

theorem isWord_of_punctuator (kind : token.kind = .punctuator sign) (word : ContextualWord) :
    token.isWord word = false := by
  rw [Token.isWord, isIdentifier_of_punctuator kind]
  rfl

theorem kind_of_identifier (isName : name.isIdentifier = true) : name.kind = .identifier := by
  simpa [Token.isIdentifier] using isName

theorem isPunctuator_of_identifier (isName : name.isIdentifier = true) (sign : Punctuator) :
    name.isPunctuator sign = false := by
  rw [Token.isPunctuator, kind_of_identifier isName]
  rfl

theorem isKeyword_of_identifier (isName : name.isIdentifier = true) (word : Keyword) :
    name.isKeyword word = false := by
  rw [Token.isKeyword, kind_of_identifier isName]
  rfl

end

/-! ## Defaults -/

/-- The defaults at the start of a list of names, as far as both readings of
the list go on, with the verdicts passed within them. -/
inductive Defaults (settings : Settings) (descent : Descent) (scope : Scope) :
    Point → Set Verdict → Prop where
  | stop {point : Point} : Defaults settings descent scope point ∅
  | plain {point : Point} {name comma : Token} {verdicts : Set Verdict}
      (next : point.next settings.dialect = .ok name) (bare : Bare settings name comma)
      (separates : comma.isPunctuator .comma = true)
      (rest : Defaults settings descent scope (.after comma) verdicts) :
      Defaults settings descent scope point verdicts
  /-- Behind the value of the last default the list of names ends. -/
  | last {point : Point} {name equals : Token} {verdicts : Set Verdict}
      {result : Result SyntaxTree} (next : point.next settings.dialect = .ok name)
      (bare : Bare settings name equals) (assigns : equals.isPunctuator .equals = true)
      (value : Foretold settings equals.stop.offset (descent.read .assignment) (.after equals) scope
        verdicts result) :
      Defaults settings descent scope point verdicts
  | value {point behind : Point} {name equals comma : Token} {verdicts more : Set Verdict}
      {tree : SyntaxTree} (next : point.next settings.dialect = .ok name)
      (bare : Bare settings name equals) (assigns : equals.isPunctuator .equals = true)
      (value : Foretold settings equals.stop.offset (descent.read .assignment) (.after equals) scope
        verdicts (.ok tree behind))
      (follows : behind.next settings.dialect = .ok comma)
      (separates : comma.isPunctuator .comma = true)
      (rest : Defaults settings descent scope (.after comma) more) :
      Defaults settings descent scope point (verdicts ∪ more)

theorem Bare.recalling {name other : Token} (bare : Bare settings name other) (recalls : Bool) :
    Bare (settings.recalling recalls) name other :=
  ⟨bare.isName, bare.follows, bare.leaves⟩

/-- A name in front of a sign that does not belong to it. -/
theorem Bare.ofSign {name other : Token} {sign : Punctuator} (isName : name.isIdentifier = true)
    (follows : (Point.after name).next settings.dialect = .ok other)
    (is : other.isPunctuator sign = true) (leaves : leavesName (.punctuator sign) = true) :
    Bare settings name other :=
  ⟨kind_of_identifier isName, follows, kind_of_punctuator is ▸ leaves⟩

theorem Bare.on {name other : Token} (bare : Bare settings name other)
    (next : point.next settings.dialect = .ok name) (on : Place.On settings.source point.place) :
    Place.On settings.source other.stop ∧ point.place.offset ≤ name.stop.offset ∧
      name.stop.offset ≤ other.stop.offset := by
  obtain ⟨onName, gap, covers, -⟩ := Point.on_after on next
  obtain ⟨onOther, space, more, -⟩ := Point.on_after onName bare.follows
  exact ⟨onOther, gap.trans covers, space.trans more⟩

/-- The verdicts within defaults do not contradict each other. -/
theorem Defaults.sound (defaults : Defaults settings descent scope point verdicts)
    (on : Place.On settings.source point.place) :
    verdicts.InjOn Verdict.offset ∧ ∀ verdict ∈ verdicts, point.place.offset ≤ verdict.offset := by
  induction defaults with
  | stop => exact ⟨Set.injOn_empty _, fun _ passed => passed.elim⟩
  | plain next bare separates rest ih =>
      obtain ⟨onComma, toName, toComma⟩ := bare.on next on
      obtain ⟨consistent, late⟩ := ih onComma
      exact ⟨consistent, fun verdict passed => (toName.trans toComma).trans (late verdict passed)⟩
  | last next bare assigns value =>
      obtain ⟨-, toName, toEquals⟩ := bare.on next on
      exact ⟨value.consistent, fun verdict passed =>
        (toName.trans toEquals).trans (value.late verdict passed)⟩
  | @value point behind name equals comma verdicts more tree next bare assigns value follows _ _
      ih =>
      obtain ⟨-, toName, toEquals⟩ := bare.on next on
      obtain ⟨onBehind, toBehind, early⟩ := value.early rfl
      obtain ⟨onComma, toComma, covers, -⟩ := Point.on_after onBehind follows
      obtain ⟨consistent, late⟩ := ih onComma
      have behindComma (verdict : Verdict) (passed : verdict ∈ more) :
          behind.place.offset ≤ verdict.offset :=
        (toComma.trans covers).trans (late verdict passed)
      refine ⟨consistent_union value.consistent consistent early behindComma, ?_⟩
      rintro verdict (passed | passed)
      · exact (toName.trans toEquals).trans (value.late verdict passed)
      · exact ((toName.trans toEquals).trans toBehind).trans (behindComma verdict passed)

/-! ## Rounds of a list -/

/-- A round of a loop is foretold to be the last one. -/
def Closes {Progress : Type} (settings : Settings) (start : Nat)
    (round : Parse (Round Progress Value)) (point : Point) (scope : Scope)
    (verdicts : Set Verdict) : Prop :=
  ∃ result, (∀ progress last, result ≠ .ok (.again progress) last) ∧
    Foretold settings start round point scope verdicts result

section

variable {Progress : Type} {round : Parse (Round Progress Value)}

theorem Foretold.closes {step : Parse Other} {result : Result Other}
    (foretold : Foretold settings start step point scope verdicts result) (finish : Other → Value) :
    Closes settings start (step >>= fun value => Pure.pure (.done (finish value)) :
      Parse (Round Progress Value)) point scope verdicts := by
  cases result with
  | error fault => exact ⟨.error fault, by simp, foretold.bind_error⟩
  | ok value last =>
      obtain ⟨on, -, -⟩ := foretold.early rfl
      let next (value : Other) : Parse (Round Progress Value) := Pure.pure (.done (finish value))
      have returns : Foretold settings last.place.offset (next value) last scope ∅
          (.ok (.done (finish value)) last) := .pure on
      have both := foretold.bind returns
      rw [Set.union_empty] at both
      exact ⟨_, by simp, both⟩

namespace Closes

theorem error {fault : SyntaxError}
    (foretold : Foretold settings start round point scope verdicts (.error fault)) :
    Closes settings start round point scope verdicts :=
  ⟨_, by simp, foretold⟩

theorem weaken {earlier : Nat} (closes : Closes settings start round point scope verdicts)
    (le : earlier ≤ start) : Closes settings earlier round point scope verdicts := by
  obtain ⟨result, last, foretold⟩ := closes
  exact ⟨result, last, foretold.weaken le⟩

theorem jump {other : Parse (Round Progress Value)} {middle : Point}
    (closes : Closes settings start other middle scope verdicts)
    (same : ∀ (recalls : Bool) (state : State), state.At settings point scope →
      ∃ after : State, after.At settings middle scope ∧
        after.rejectedHeads = state.rejectedHeads ∧
        round (settings.recalling recalls) state = other (settings.recalling recalls) after) :
    Closes settings start round point scope verdicts := by
  obtain ⟨result, last, foretold⟩ := closes
  exact ⟨result, last, foretold.jump same⟩

theorem after {first : Parse Other} {next : Other → Parse (Round Progress Value)} {value : Other}
    {middle : Point}
    (foretold : Foretold settings start first point scope verdicts (.ok value middle))
    (closes : Closes settings middle.place.offset (next value) middle scope ∅) :
    Closes settings start (first >>= next) point scope verdicts := by
  obtain ⟨result, last, nextForetold⟩ := closes
  have both := foretold.bind nextForetold
  rw [Set.union_empty] at both
  exact ⟨result, last, both⟩

/-- The verdicts of the last round are those of the loop. -/
theorem iterate {round : Progress → Parse (Round Progress Value)} {first : Progress}
    (closes : Closes settings start (round first) point scope verdicts) (rounds : Nat) :
    ∃ result, Foretold settings start (Grammar.iterate round (rounds + 1) first) point scope
      verdicts result := by
  obtain ⟨result, ends, foretold⟩ := closes
  rw [iterate_succ]
  cases result with
  | error fault => exact ⟨_, foretold.bind_error⟩
  | ok value last =>
      cases value with
      | again progress => exact absurd rfl (ends progress last)
      | done value =>
          obtain ⟨on, -, -⟩ := foretold.early rfl
          have returns : Foretold settings last.place.offset
              (Round.resume (Grammar.iterate round rounds) (.done value)) last scope ∅
              (.ok value last) := .pure on
          have both := foretold.bind returns
          rw [Set.union_empty] at both
          exact ⟨_, both⟩

end Closes

end

/-- Behind an entry of a list a comma leads on, or the list ends. -/
theorem Foretold.commaEnd {step : Parse Other} {value : Other} {behind : Point}
    (foretold : Foretold settings start step point scope verdicts (.ok value behind))
    (trees : Other → Array SyntaxTree) :
    (∃ comma entries, behind.next settings.dialect = .ok comma ∧
      comma.isPunctuator .comma = true ∧ behind.place.offset < comma.stop.offset ∧
      Foretold settings start (step >>= fun value => Grammar.commaEnd (trees value)) point scope
        verdicts (.ok (.again entries) (.after comma))) ∨
      Closes settings start (step >>= fun value => Grammar.commaEnd (trees value)) point scope
        verdicts := by
  obtain ⟨on, -, -⟩ := foretold.early rfl
  cases next : behind.next settings.dialect with
  | error fault =>
      refine .inr (.after foretold (.error (.stops fault fun recalls state stands => ?_)))
      refine ⟨state, stands.scope, rfl, ?_⟩
      unfold Grammar.commaEnd accept? nextIs
      rw [bind_stops (bind_stops (bind_stops (stands.peek_stops next recalls)))]
  | ok token =>
      cases separates : token.isPunctuator .comma with
      | true =>
          obtain ⟨onToken, gap, -, further⟩ := Point.on_after on next
          have passes := lt_of_le_of_lt gap (further (isEnd_of_punctuator separates))
          let entries := (trees value).push (.leaf (.fixed (.punctuator .comma)) token.span)
          let goesOn (value : Other) := Grammar.commaEnd (trees value)
          have ends : Foretold settings behind.place.offset (goesOn value) behind scope ∅
              (.ok (.again entries) (.after token)) := by
            refine .silent (fun recalls state stands _ => ?_) fun same => ?_
            · change Result.Shows _ _ _ _ _ (Grammar.commaEnd (trees value) _ _)
              unfold Grammar.commaEnd
              rw [bind_run (accept_some (stands.faces next recalls) separates)]
              exact .ok (stands.pass token) (.refl _ _)
            · cases same
              exact ⟨onToken, passes.le⟩
          have both := foretold.bind ends
          rw [Set.union_empty] at both
          exact .inl ⟨token, entries, rfl, separates, passes, both⟩
      | false =>
          have returns : Foretold settings behind.place.offset (Pure.pure (trees value)) behind
              scope ∅ (.ok (trees value) behind) := .pure on
          refine .inr (.after foretold ((returns.closes id).jump fun recalls state stands => ?_))
          refine ⟨state.look token, stands.look next, rfl, ?_⟩
          unfold Grammar.commaEnd
          rw [bind_run (accept_none (stands.faces next recalls) separates)]
          rfl

/-! ## Reading a list as parameters -/

def parameterAfter (descent : Descent) (trees : Array SyntaxTree) :
    Parse (Round (Array SyntaxTree) (Array SyntaxTree)) := do
  if ← nextIs .equals then
    let sign ← named .equals
    let value ← descent.read .assignment
    commaEnd ((trees.push sign).push value)
  else
    commaEnd trees

theorem parameter_run {state : State} {name : Token} (faces : Faces settings state name)
    (isName : name.isIdentifier = true) (trees : Array SyntaxTree) :
    parameter descent trees settings state =
      parameterAfter descent (trees.push (.leaf (.rule .variableDefinition) name.span)) settings
        (state.pass name) := by
  have named : expectName .variableDefinition settings (state.look name) =
      .ok (.leaf (.rule .variableDefinition) name.span) (state.pass name) := by
    unfold expectName
    rw [bind_run (peek_run faces.look), isName]
    exact leaf_run faces.look.look _
  unfold parameter
  rw [bind_run (nextIs_run faces _), isPunctuator_of_identifier isName]
  simp only [Bool.false_eq_true, if_false]
  rw [bind_run (accept_none faces.look (isPunctuator_of_identifier isName _))]
  simp only [State.look_look]
  rw [bind_run named]
  rfl

def headInputs (descent : Descent) (modifier : Option SyntaxTree) :
    Parse (Option SyntaxTree × SyntaxTree) := do
  if (← peek).isIdentifier then
    let input ← named .variableDefinition
    arrowEnd modifier input
  else
    let inputs ← parameters descent
    arrowEnd modifier inputs

section

variable {state : State} {word token : Token}

theorem arrowHead_plain : arrowHead descent false = headInputs descent none :=
  rfl

theorem expectWord_run (faces : Faces settings state word) {spelling : ContextualWord}
    (is : word.isWord spelling = true) :
    expectWord spelling settings state =
      .ok (.leaf (.fixed (.contextual spelling)) word.span) (state.pass word) := by
  unfold expectWord
  rw [bind_run (peek_run faces), is]
  exact leaf_run faces.look _

theorem arrowHead_async (faces : Faces settings state word) (is : word.isWord .asyncWord = true) :
    arrowHead descent true settings state =
      headInputs descent (some (.leaf (.fixed (.contextual .asyncWord)) word.span)) settings
        (state.pass word) := by
  have modifier : (some <$> expectWord .asyncWord : Parse _) settings state =
      .ok (some (.leaf (.fixed (.contextual .asyncWord)) word.span)) (state.pass word) :=
    bind_run (expectWord_run faces is)
  unfold arrowHead
  exact bind_run modifier

theorem headInputs_opens (faces : Faces settings state token)
    (opens : token.isPunctuator .leftParen = true) (modifier : Option SyntaxTree) :
    headInputs descent modifier settings state =
      (parameters descent >>= arrowEnd modifier) settings (state.look token) := by
  unfold headInputs
  rw [bind_run (peek_run faces), isIdentifier_of_punctuator (kind_of_punctuator opens)]
  rfl

theorem headInputs_named (faces : Faces settings state token)
    (isName : token.isIdentifier = true) (modifier : Option SyntaxTree) :
    headInputs descent modifier settings state =
      arrowEnd modifier (.leaf (.rule .variableDefinition) token.span) settings
        (state.pass token) := by
  unfold headInputs
  rw [bind_run (peek_run faces), isName]
  exact bind_run (leaf_run faces.look _)

end

section

variable (unbounded : settings.limit = none) (sized : settings.size = Text.size settings.source)

include unbounded sized

/-- Where no name comes next, no more parameters with defaults are read. -/
theorem parameter_nameless (trees : Array SyntaxTree) (on : Place.On settings.source point.place)
    (nameless : ∀ name, point.next settings.dialect = .ok name → name.isIdentifier = false) :
    Closes settings point.place.offset (parameter descent trees) point scope ∅ := by
  cases next : point.next settings.dialect with
  | error fault =>
      refine .error (.stops fault fun recalls state stands => ⟨state, stands.scope, rfl, ?_⟩)
      unfold parameter nextIs
      rw [bind_stops (bind_stops (stands.peek_stops next recalls))]
  | ok token =>
      obtain ⟨onToken, gap, covers, -⟩ := Point.on_after on next
      cases closes : token.isPunctuator .rightParen with
      | true =>
          have returns : Foretold settings point.place.offset (pure trees) point scope ∅
              (.ok trees point) := .pure on
          refine (returns.closes id).jump fun recalls state stands => ?_
          refine ⟨state.look token, stands.look next, rfl, ?_⟩
          unfold parameter
          rw [bind_run (nextIs_run (stands.faces next recalls) _), closes]
          rfl
      | false =>
          cases dots : token.isPunctuator .ellipsis with
          | true =>
              have assembled : Assembled (.lax False) fun _ => expectName .variableDefinition :=
                .expectName _
              have onLast : Place.On settings.source (Point.after token).place := onToken
              obtain ⟨result, name⟩ := assembled.silent unbounded sized scope onLast
              have toLast : point.place.offset ≤ (Point.after token).place.offset :=
                gap.trans covers
              let entries := trees.push (.leaf (.fixed (.punctuator .ellipsis)) token.span)
              refine ((name.closes entries.push).weaken toLast).jump fun recalls state stands => ?_
              refine ⟨state.pass token, stands.pass token, rfl, ?_⟩
              have faces := stands.faces next recalls
              unfold parameter
              rw [bind_run (nextIs_run faces _), closes]
              simp only [Bool.false_eq_true, if_false]
              rw [bind_run (accept_some faces.look dots)]
              rfl
          | false =>
              refine .error (.stops (unexpected token .identifier) fun recalls state stands => ?_)
              refine ⟨state.look token, stands.scope, rfl, ?_⟩
              have faces := stands.faces next recalls
              have stops : expectName .variableDefinition (settings.recalling recalls)
                  ((state.look token).look token) = .error (unexpected token .identifier)
                    (state.look token) := by
                unfold expectName
                rw [bind_run (peek_run faces.look.look), nameless token next]
                rfl
              unfold parameter
              rw [bind_run (nextIs_run faces _), closes]
              simp only [Bool.false_eq_true, if_false]
              rw [bind_run (accept_none faces.look dots), State.look_look]
              exact bind_stops stops

/-- What a round of parameters does along the defaults: it ends them, or goes on
behind a comma. -/
inductive ParameterRound (settings : Settings) (descent : Descent) (trees : Array SyntaxTree)
    (point : Point) (scope : Scope) : Prop where
  | ends {verdicts : Set Verdict} (defaults : Defaults settings descent scope point verdicts)
      (closes : Closes settings point.place.offset (parameter descent trees) point scope verdicts)
  | goesOn {verdicts : Set Verdict} {comma : Token} {entries : Array SyntaxTree}
      (further : point.place.offset < comma.stop.offset)
      (defaults : ∀ {more : Set Verdict}, Defaults settings descent scope (.after comma) more →
        Defaults settings descent scope point (verdicts ∪ more))
      (round : Foretold settings point.place.offset (parameter descent trees) point scope verdicts
        (.ok (.again entries) (.after comma)))

omit unbounded sized in
/-- A name without a default. -/
theorem parameter_plain {name other : Token} (trees : Array SyntaxTree)
    (on : Place.On settings.source point.place) (next : point.next settings.dialect = .ok name)
    (isName : name.isIdentifier = true)
    (follows : (Point.after name).next settings.dialect = .ok other)
    (plain : other.isPunctuator .equals = false) :
    ParameterRound settings descent trees point scope := by
  obtain ⟨onName, gap, covers, -⟩ := Point.on_after on next
  have toName : point.place.offset ≤ name.stop.offset := gap.trans covers
  have onAfter : Place.On settings.source (Point.after name).place := onName
  let entries := trees.push (.leaf (.rule .variableDefinition) name.span)
  have goesOn (recalls : Bool) (state : State) (stands : state.At settings point scope) :
      ∃ after : State, after.At settings (.after name) scope ∧
        after.rejectedHeads = state.rejectedHeads ∧
        parameter descent trees (settings.recalling recalls) state =
          (pure entries >>= commaEnd) (settings.recalling recalls) after := by
    refine ⟨(state.pass name).look other, (stands.pass name).look follows, rfl, ?_⟩
    rw [parameter_run (stands.faces next recalls) isName]
    unfold parameterAfter
    rw [bind_run (nextIs_run ((stands.pass name).faces follows recalls) _), plain]
    rfl
  have returns : Foretold settings (Point.after name).place.offset (pure entries)
      (.after name) scope ∅ (.ok entries (.after name)) := .pure onAfter
  rcases returns.commaEnd id with ⟨comma, later, found, separates, passes, foretold⟩ | ends
  · have bare : Bare settings name comma := .ofSign isName found separates rfl
    refine .goesOn (lt_of_le_of_lt toName passes) (fun rest => ?_)
      ((foretold.weaken toName).jump goesOn)
    rw [Set.empty_union]
    exact .plain next bare separates rest
  · exact .ends .stop ((ends.weaken toName).jump goesOn)

omit unbounded sized in
/-- A name with a default. -/
theorem parameter_assigned {name equals : Token}
    (reads : Steady settings Set.univ start (descent.read .assignment))
    (trees : Array SyntaxTree) (on : Place.On settings.source point.place)
    (late : start ≤ point.place.offset) (next : point.next settings.dialect = .ok name)
    (isName : name.isIdentifier = true)
    (follows : (Point.after name).next settings.dialect = .ok equals)
    (assigns : equals.isPunctuator .equals = true) :
    ParameterRound settings descent trees point scope := by
  obtain ⟨-, gap, covers, -⟩ := Point.on_after on next
  have bare : Bare settings name equals := .ofSign isName follows assigns rfl
  obtain ⟨onEquals, -, toEquals⟩ := bare.on next on
  have onValue : Place.On settings.source (Point.after equals).place := onEquals
  have toValue : point.place.offset ≤ (Point.after equals).place.offset :=
    (gap.trans covers).trans toEquals
  let entries := (trees.push (.leaf (.rule .variableDefinition) name.span)).push
    (.leaf (.rule .equals) equals.span)
  have goesOn (recalls : Bool) (state : State) (stands : state.At settings point scope) :
      ∃ after : State, after.At settings (.after equals) scope ∧
        after.rejectedHeads = state.rejectedHeads ∧
        parameter descent trees (settings.recalling recalls) state =
          (descent.read .assignment >>= fun value => commaEnd (entries.push value))
            (settings.recalling recalls) after := by
    refine ⟨(state.pass name).pass equals, (stands.pass name).pass equals, rfl, ?_⟩
    have faces := (stands.pass name).faces follows recalls
    rw [parameter_run (stands.faces next recalls) isName]
    unfold parameterAfter
    rw [bind_run (nextIs_run faces _), assigns]
    simp only [if_true]
    exact bind_run (leaf_run faces.look _)
  obtain ⟨verdicts, result, -, -, value⟩ := reads (.after equals) scope onValue (late.trans toValue)
  cases result with
  | error fault =>
      exact .ends (.last next bare assigns value)
        ((Closes.error (value.weaken toValue).bind_error).jump goesOn)
  | ok tree behind =>
      obtain ⟨-, toBehind, -⟩ := value.early rfl
      rcases value.commaEnd entries.push with
        ⟨comma, later, found, separates, passes, foretold⟩ | ends
      · exact .goesOn (lt_of_le_of_lt (toValue.trans toBehind) passes)
          (.value next bare assigns value found separates)
          ((foretold.weaken toValue).jump goesOn)
      · exact .ends (.last next bare assigns value) ((ends.weaken toValue).jump goesOn)

/-- Every round reads a parameter along the defaults. -/
theorem parameter_round (reads : Steady settings Set.univ start (descent.read .assignment))
    (trees : Array SyntaxTree) (on : Place.On settings.source point.place)
    (late : start ≤ point.place.offset) :
    ParameterRound settings descent trees point scope := by
  by_cases named : ∃ name, point.next settings.dialect = .ok name ∧ name.isIdentifier = true
  case neg =>
    refine .ends .stop (parameter_nameless unbounded sized trees on fun name next => ?_)
    by_contra isName
    exact named ⟨name, next, by simpa using isName⟩
  obtain ⟨name, next, isName⟩ := named
  cases follows : (Point.after name).next settings.dialect with
  | error fault =>
      refine .ends .stop (.error (.stops fault fun recalls state stands => ?_))
      refine ⟨state.pass name, stands.scope, rfl, ?_⟩
      rw [parameter_run (stands.faces next recalls) isName]
      unfold parameterAfter nextIs
      exact bind_stops (bind_stops ((stands.pass name).peek_stops follows recalls))
  | ok other =>
      cases assigns : other.isPunctuator .equals with
      | false => exact parameter_plain trees on next isName follows assigns
      | true => exact parameter_assigned reads trees on late next isName follows assigns

/-- Parameters are read along their defaults. -/
theorem parameter_defaults (reads : Steady settings Set.univ start (descent.read .assignment))
    (rounds : Nat) (trees : Array SyntaxTree) (on : Place.On settings.source point.place)
    (late : start ≤ point.place.offset) (left : settings.size - point.place.offset < rounds) :
    ∃ verdicts result, Defaults settings descent scope point verdicts ∧
      Foretold settings point.place.offset (iterate (parameter descent) rounds trees) point scope
        verdicts result := by
  induction rounds generalizing point trees with
  | zero => omega
  | succ rounds ih =>
      have first : ParameterRound settings descent trees point scope :=
        parameter_round unbounded sized reads trees on late
      cases first with
      | ends defaults closes =>
          obtain ⟨result, foretold⟩ := closes.iterate rounds
          exact ⟨_, result, defaults, foretold⟩
      | @goesOn verdicts comma entries further defaults round =>
          obtain ⟨onComma, le, -⟩ := round.early rfl
          have inside : comma.stop.offset ≤ settings.size := sized ▸ onComma.offset_le_size
          have less : settings.size - (Point.after comma).place.offset < rounds := by
            change settings.size - comma.stop.offset < rounds
            omega
          obtain ⟨more, result, rest, foretold⟩ := ih entries onComma (late.trans le) less
          rw [iterate_succ]
          exact ⟨verdicts ∪ more, result, defaults rest, round.bind foretold⟩

/-- The parameters of a function between their parentheses. -/
theorem parameters_defaults (settled : descent.Settled settings)
    (reads : Steady settings Set.univ start (descent.read .assignment)) {opening : Token}
    (on : Place.On settings.source point.place) (next : point.next settings.dialect = .ok opening)
    (opens : opening.isPunctuator .leftParen = true) (late : start ≤ opening.stop.offset) :
    ∃ verdicts result, Defaults settings descent (scope.withNoIn false) (.after opening) verdicts ∧
      Foretold settings opening.stop.offset (parameters descent) point scope verdicts result := by
  obtain ⟨onOpening, -, -, -⟩ := Point.on_after on next
  have onAfter : Place.On settings.source (Point.after opening).place := onOpening
  let first : SyntaxTree := .leaf (.fixed (.punctuator .leftParen)) opening.span
  have rounds := settled.rounds
  have left : settings.size - (Point.after opening).place.offset < descent.rounds := by
    omega
  obtain ⟨verdicts, result, defaults, foretold⟩ : ∃ verdicts result,
      Defaults settings descent (scope.withNoIn false) (.after opening) verdicts ∧
        Foretold settings opening.stop.offset
          (iterate (parameter descent) descent.rounds #[first]) (.after opening)
          (scope.withNoIn false) verdicts result :=
    parameter_defaults unbounded sized reads descent.rounds #[first] onAfter late left
  let closing (trees : Array SyntaxTree) : Parse SyntaxTree := do
    let closing ← expect .rightParen
    return build .paramList (trees.push closing).toList
  have closed (trees : Array SyntaxTree) : Assembled (.lax False) fun _ => closing trees :=
    .bind (.expect _) fun _ => .pure _
  obtain ⟨result, foretold⟩ := foretold.silence unbounded sized closed
  refine ⟨verdicts, result, defaults, .around (.noIn false) (foretold.jump ?_)⟩
  intro recalls state stands
  refine ⟨state.pass opening, stands.pass opening, rfl, ?_⟩
  exact bind_run (expect_run (stands.faces next recalls) opens)

/-- The head of an arrow function with parentheses. -/
theorem headInputs_defaults (settled : descent.Settled settings)
    (reads : Steady settings Set.univ start (descent.read .assignment))
    (modifier : Option SyntaxTree) {opening : Token}
    (on : Place.On settings.source point.place) (next : point.next settings.dialect = .ok opening)
    (opens : opening.isPunctuator .leftParen = true) (late : start ≤ opening.stop.offset) :
    ∃ verdicts result, Defaults settings descent (scope.withNoIn false) (.after opening) verdicts ∧
      Foretold settings opening.stop.offset (headInputs descent modifier) point scope verdicts
        result := by
  obtain ⟨verdicts, result, defaults, foretold⟩ :=
    parameters_defaults unbounded sized settled reads on next opens late
  obtain ⟨result, foretold⟩ := foretold.silence unbounded sized (.arrowEnd modifier)
  refine ⟨verdicts, result, defaults, foretold.jump fun recalls state stands => ?_⟩
  refine ⟨state.look opening, stands.look next, rfl, ?_⟩
  exact headInputs_opens (stands.faces next recalls) opens modifier

end

end Grammar

end ScriptTree
