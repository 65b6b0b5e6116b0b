import ScriptTree.Proofs.Grammar.Speculation

/-!
# Reading a rejected head again

The list of a rejected head is read again as a group or as the arguments of a
call.  Every entry is an assignment then, and the assignment that starts with
the name of a parameter asks for the default of that parameter.
-/

namespace ScriptTree

namespace Grammar

variable {settings : Settings} {descent : Descent} {point : Point} {scope : Scope}
  {verdicts more most : Set Verdict} {start : Nat} {Value Other : Type}

/-! ## Names that start an entry -/

section

variable {state : State} {name other : Token} {sign : Punctuator}

/-- Whether a sign belongs to the list that an entry is part of. -/
def separatesEntries : Punctuator → Bool
  | .comma | .equals => true
  | _ => false

theorem unary_stops (faces : Faces settings state other) (kind : other.kind = .punctuator sign)
    (separates : separatesEntries sign = true) :
    unary descent settings state = .error (unexpected other .expression) (state.look other) := by
  have notPrefix : prefixKind? (.punctuator sign) = none := by
    cases sign <;> first | rfl | cases separates
  have stops : primary descent settings (state.look other) =
      .error (unexpected other .expression) (state.look other) := by
    unfold primary
    rw [bind_run (peek_run faces.look), kind]
    cases sign <;> first | rfl | cases separates
  have operand : leftHandSide descent settings (state.look other) =
      .error (unexpected other .expression) (state.look other) := by
    unfold leftHandSide
    rw [bind_run (nextIsKeyword_run faces.look _), isKeyword_of_punctuator kind]
    exact bind_stops stops
  unfold unary
  rw [bind_run (peek_run faces), kind, notPrefix]
  simp only
  rw [bind_run state_run, isWord_of_punctuator kind, Bool.and_false]
  exact bind_stops operand

/-- A name is read as an operand in front of a sign of the list. -/
theorem Bare.conditional_run (bare : Bare settings name other) (faces : Faces settings state name)
    (kind : other.kind = .punctuator sign) (separates : separatesEntries sign = true)
    (rounds : 0 < descent.rounds) (plain : (state.inAsync && name.isWord .awaitWord) = false) :
    conditional descent settings state =
      .ok (.leaf (.rule .variableName) name.span) ((state.pass name).look other) := by
  have behind : Faces settings ((state.pass name).look other) other := .look (.pass bare.follows)
  have notOperator (noIn : Bool) : BinaryOperator.ofToken? other.kind noIn = none := by
    rw [kind]
    cases sign <;> first | rfl | cases separates
  have notQuestion : other.isPunctuator .question = false := by
    rw [Token.isPunctuator, kind]
    cases sign <;> first | rfl | cases separates
  have operand : binary descent BinaryOperator.lowest settings state =
      .ok (.leaf (.rule .variableName) name.span) ((state.pass name).look other) := by
    unfold binary
    rw [bind_run (bare.unary_run faces rounds plain)]
    refine iterate_done rounds (binaryStep_done behind fun operator found => ?_)
    rw [notOperator] at found
    cases found
  have run := Grammar.conditional_run operand behind notQuestion
  exact run

end

/-! ## Entries as assignments -/

/-- A call of a settled descent is foretold like the production. -/
theorem Descent.Settled.foretold (settled : descent.Settled settings) {goal : Goal}
    {result : Result SyntaxTree} (on : Place.On settings.source point.place)
    (foretold : Foretold settings start (produce descent goal) point scope verdicts result) :
    Foretold settings start (descent.read goal) point scope verdicts result :=
  foretold.jump fun recalls state stands =>
    ⟨state, stands, rfl, settled.calls goal recalls state (stands.stands on recalls)⟩

section

variable {name other : Token} {sign : Punctuator} {result : Result SyntaxTree}

theorem isPunctuator_of_kind {token : Token} {sign wanted : Punctuator}
    (kind : token.kind = .punctuator sign) (different : sign ≠ wanted) :
    token.isPunctuator wanted = false := by
  rw [Token.isPunctuator, kind, beq_eq_false_iff_ne]
  simpa using different

/-- No arrow function starts with a name in front of a sign of the list. -/
theorem Bare.entry (unbounded : settings.limit = none) (bare : Bare settings name other)
    (next : point.next settings.dialect = .ok name) (kind : other.kind = .punctuator sign)
    (separates : separatesEntries sign = true)
    (foretold : Foretold settings start (conditional descent >>= assignmentAfter descent) point
      scope verdicts result) :
    Foretold settings start (assignment descent) point scope verdicts result := by
  refine .nested unbounded (foretold.jump fun recalls state stands => ?_)
  refine ⟨state.look name, stands.look next, rfl, ?_⟩
  have notArrow : other.isPunctuator .arrow = false := by
    refine isPunctuator_of_kind kind ?_
    rintro rfl
    cases separates
  exact bind_run ((bare.recalling recalls).arrow_none (stands.faces next recalls) notArrow
    (isIdentifier_of_punctuator kind))

/-- Where the name is an operator, the entry fails before its default. -/
theorem Bare.entry_stops (unbounded : settings.limit = none) (settled : descent.Settled settings)
    (bare : Bare settings name other) (on : Place.On settings.source point.place)
    (next : point.next settings.dialect = .ok name) (kind : other.kind = .punctuator sign)
    (separates : separatesEntries sign = true)
    (awaits : (scope.inAsync && name.isWord .awaitWord) = true) :
    Foretold settings start (assignment descent) point scope ∅
      (.error (unexpected other .expression)) := by
  obtain ⟨onName, -, -, -⟩ := Point.on_after on next
  have onAfter : Place.On settings.source (Point.after name).place := onName
  have fails : Foretold settings start (unary descent) (.after name) scope ∅
      (.error (unexpected other .expression)) := .stops _ fun recalls state stands =>
    ⟨state.look other, stands.scope, rfl,
      unary_stops (stands.faces bare.follows recalls) kind separates⟩
  have called : Foretold settings start (Parse.nested (descent.read .unary)) (.after name) scope ∅
      (.error (unexpected other .expression)) :=
    .nested unbounded (settled.foretold onAfter fails)
  let keyword : SyntaxTree := .leaf (.fixed (.contextual .awaitWord)) name.span
  let awaited (operand : SyntaxTree) : Parse SyntaxTree :=
    pure (build .awaitExpression [keyword, operand])
  have operator : Foretold settings start (unary descent) point scope ∅
      (.error (unexpected other .expression)) := by
    have rest : Foretold settings start (Parse.nested (descent.read .unary) >>= awaited)
        (.after name) scope ∅ (.error (unexpected other .expression)) := called.bind_error
    refine rest.jump fun recalls state stands => ⟨state.pass name, stands.pass name, rfl, ?_⟩
    have faces := stands.faces next recalls
    obtain ⟨inAsync, isWord⟩ : scope.inAsync = true ∧ name.isWord .awaitWord = true := by
      simpa using awaits
    have insideAsync : state.inAsync = true := by
      rw [← inAsync, ← stands.scope]
      rfl
    unfold unary
    rw [bind_run (peek_run faces), bare.isName]
    simp only [prefixKind?]
    rw [bind_run state_run]
    change (if (state.inAsync && name.isWord .awaitWord) = true then _ else _ : Parse SyntaxTree)
      (settings.recalling recalls) (state.look name) = _
    rw [insideAsync, isWord]
    exact bind_run (expectWord_run faces.look isWord)
  have operands : Foretold settings start (binary descent BinaryOperator.lowest) point scope ∅
      (.error (unexpected other .expression)) := operator.bind_error
  have choice : Foretold settings start (conditional descent) point scope ∅
      (.error (unexpected other .expression)) := operands.bind_error
  exact bare.entry unbounded next kind separates choice.bind_error

/-- Where the name is none, it is the target of the entry. -/
theorem Bare.entry_target (unbounded : settings.limit = none) (settled : descent.Settled settings)
    (bare : Bare settings name other) (next : point.next settings.dialect = .ok name)
    (kind : other.kind = .punctuator sign) (separates : separatesEntries sign = true)
    (plain : (scope.inAsync && name.isWord .awaitWord) = false)
    (foretold : Foretold settings start
      (assignmentAfter descent (.leaf (.rule .variableName) name.span)) (.after name) scope verdicts
      result) :
    Foretold settings start (assignment descent) point scope verdicts result := by
  refine bare.entry unbounded next kind separates (foretold.jump fun recalls state stands => ?_)
  refine ⟨(state.pass name).look other, (stands.pass name).look bare.follows, rfl, ?_⟩
  have plainHere : (state.inAsync && name.isWord .awaitWord) = false := by
    rw [← plain, ← stands.scope]
    rfl
  have rounds : 0 < descent.rounds := Nat.zero_lt_of_lt settled.rounds
  exact bind_run ((bare.recalling recalls).conditional_run (stands.faces next recalls) kind
    separates rounds plainHere)

/-- A name in front of a comma is an entry of its own. -/
theorem Bare.entry_plain (unbounded : settings.limit = none) (settled : descent.Settled settings)
    (bare : Bare settings name other) (on : Place.On settings.source point.place)
    (next : point.next settings.dialect = .ok name) (kind : other.kind = .punctuator .comma)
    (plain : (scope.inAsync && name.isWord .awaitWord) = false) :
    Foretold settings point.place.offset (assignment descent) point scope ∅
      (.ok (.leaf (.rule .variableName) name.span) (.after name)) := by
  obtain ⟨onName, gap, covers, -⟩ := Point.on_after on next
  have onAfter : Place.On settings.source (Point.after name).place := onName
  have toAfter : point.place.offset ≤ (Point.after name).place.offset := gap.trans covers
  let target : SyntaxTree := .leaf (.rule .variableName) name.span
  have returns : Foretold settings (Point.after name).place.offset (pure target) (.after name)
      scope ∅ (.ok target (.after name)) := .pure onAfter
  refine bare.entry_target unbounded settled next kind rfl plain ((returns.weaken toAfter).jump ?_)
  intro recalls state stands
  refine ⟨state.look other, stands.look bare.follows, rfl, ?_⟩
  unfold assignmentAfter
  rw [bind_run (peek_run (stands.faces bare.follows recalls)), kind]
  rfl

/-- A name with a default is an assignment of that default, if it can be one. -/
theorem Bare.entry_default (unbounded : settings.limit = none) (settled : descent.Settled settings)
    (bare : Bare settings name other) (on : Place.On settings.source point.place)
    (next : point.next settings.dialect = .ok name) (kind : other.kind = .punctuator .equals)
    (plain : (scope.inAsync && name.isWord .awaitWord) = false)
    (value : Foretold settings other.stop.offset (descent.read .assignment) (.after other) scope
      verdicts result) :
    ∃ other, Foretold settings point.place.offset (assignment descent) point scope verdicts other ∧
      ∀ {entry last}, other = .ok entry last → ∃ tree, result = .ok tree last := by
  obtain ⟨onOther, toName, toOther⟩ := bare.on next on
  have toAfter : point.place.offset ≤ other.stop.offset := toName.trans toOther
  let target : SyntaxTree := .leaf (.rule .variableName) name.span
  let sign : SyntaxTree := .leaf (.rule .equals) other.span
  let assigns (operator value : SyntaxTree) : Parse SyntaxTree :=
    pure (build .assignmentExpression [target, operator, value])
  have enters {recalls : Bool} {state : State} (stands : state.At settings (.after name) scope) :
      assignmentAfter descent target (settings.recalling recalls) state =
        (if isAssignable settings.source target = true then
          named .equals >>= fun operator => descent.read .assignment >>= assigns operator
        else failAt other .assignableTarget : Parse SyntaxTree) (settings.recalling recalls)
          (state.look other) := by
    unfold assignmentAfter
    rw [bind_run (peek_run (stands.faces bare.follows recalls)), kind]
    rfl
  cases can : isAssignable settings.source target with
  | false =>
      have stops : Foretold settings point.place.offset (assignmentAfter descent target)
          (.after name) scope ∅ (.error (unexpected other .assignableTarget)) := by
        refine .stops _ fun recalls state stands => ⟨state.look other, stands.scope, rfl, ?_⟩
        rw [enters stands, can]
        rfl
      have fails := stops.covering (Set.empty_subset _) value.consistent fun verdict passed =>
        toAfter.trans (value.late verdict passed)
      exact ⟨_, bare.entry_target unbounded settled next kind rfl plain fails, nofun⟩
  | true =>
      have jumps {result : Result SyntaxTree} (foretold : Foretold settings other.stop.offset
          (descent.read .assignment >>= assigns sign) (.after other) scope verdicts result) :
          Foretold settings point.place.offset (assignment descent) point scope verdicts
            result := by
        refine bare.entry_target unbounded settled next kind rfl plain
          ((foretold.weaken toAfter).jump fun recalls state stands => ?_)
        refine ⟨state.pass other, stands.pass other, rfl, ?_⟩
        rw [enters stands, can]
        exact bind_run (leaf_run (stands.faces bare.follows recalls).look _)
      cases result with
      | error fault => exact ⟨_, jumps value.bind_error, nofun⟩
      | ok tree last =>
          obtain ⟨onLast, -, -⟩ := value.early rfl
          have returns : Foretold settings last.place.offset (assigns sign tree) last scope ∅
              (.ok (build .assignmentExpression [target, sign, tree]) last) := .pure onLast
          have both := value.bind returns
          rw [Set.union_empty] at both
          refine ⟨_, jumps both, fun same => ?_⟩
          cases same
          exact ⟨tree, rfl⟩

end

/-! ## Lists of entries -/

/-- What is done with the trees of a list one after another.  Behind a comma in
front of a name the next entry is read, for a number of times. -/
def Lists (settings : Settings) (descent : Descent) (start : Nat) :
    Nat → (SyntaxTree → Parse Value) → Prop
  | 0, _ => True
  | count + 1, handle => ∀ tree, Steady settings Set.univ start (handle tree) ∧
      ∀ comma : Token, comma.isPunctuator .comma = true →
        ∃ later, Lists settings descent start count later ∧
          ∀ {point : Point} {scope : Scope} {name : Token},
            point.next settings.dialect = .ok comma →
            (Point.after comma).next settings.dialect = .ok name → name.isIdentifier = true →
            ∀ (recalls : Bool) (state : State), state.At settings point scope →
              ∃ after : State, after.At settings (.after comma) scope ∧
                after.rejectedHeads = state.rejectedHeads ∧
                handle tree (settings.recalling recalls) state =
                  (descent.read .assignment >>= later) (settings.recalling recalls) after

/-- Where there are defaults, a name comes next. -/
theorem Defaults.named (defaults : Defaults settings descent scope point verdicts) :
    verdicts = ∅ ∨ ∃ name, point.next settings.dialect = .ok name ∧ name.isIdentifier = true := by
  have isName {name other : Token} (bare : Bare settings name other) :
      name.isIdentifier = true := by
    rw [Token.isIdentifier, bare.isName]
    rfl
  cases defaults with
  | stop => exact .inl rfl
  | plain next bare => exact .inr ⟨_, next, isName bare⟩
  | last next bare => exact .inr ⟨_, next, isName bare⟩
  | value next bare => exact .inr ⟨_, next, isName bare⟩

/-- An entry that ends in front of a comma is followed by the defaults behind
that comma. -/
theorem Lists.goesOn (sized : settings.size = Text.size settings.source) {count : Nat}
    {handle : SyntaxTree → Parse Value} {tree : SyntaxTree} {behind : Point} {comma : Token}
    (lists : Lists settings descent start (count + 1) handle)
    (entry : Foretold settings point.place.offset (descent.read .assignment) point scope verdicts
      (.ok tree behind))
    (late : start ≤ point.place.offset) (left : settings.size - point.place.offset < count + 1)
    (next : behind.next settings.dialect = .ok comma)
    (separates : comma.isPunctuator .comma = true)
    (rest : Defaults settings descent scope (.after comma) more)
    (covers : ∀ {later : SyntaxTree → Parse Value}, Lists settings descent start count later →
      Place.On settings.source comma.stop → start ≤ comma.stop.offset →
      settings.size - comma.stop.offset < count →
      Foretells settings comma.stop.offset more Set.univ (descent.read .assignment >>= later)
        (.after comma) scope) :
    Foretells settings point.place.offset (verdicts ∪ more) Set.univ
      (descent.read .assignment >>= handle) point scope := by
  obtain ⟨on, le, -⟩ := entry.early rfl
  obtain ⟨steady, leads⟩ := lists tree
  obtain ⟨later, laterLists, jumps⟩ := leads comma separates
  rcases rest.named with rfl | ⟨name, follows, isName⟩
  · have generic := steady behind scope on (late.trans le)
    exact entry.foretells_bind generic (Set.subset_univ _)
  · obtain ⟨onComma, gap, -, further⟩ := Point.on_after on next
    have passes := lt_of_le_of_lt gap (further (isEnd_of_punctuator separates))
    have inside : comma.stop.offset ≤ settings.size := sized ▸ onComma.offset_le_size
    have covered := covers laterLists onComma (by omega) (by omega)
    have behindComma := covered.jump (jumps next follows isName)
    exact entry.foretells_bind (behindComma.weaken passes.le) (Set.subset_univ _)

/-- A list is read along the defaults that it has as parameters. -/
theorem Defaults.covered (unbounded : settings.limit = none)
    (sized : settings.size = Text.size settings.source) (settled : descent.Settled settings)
    (reads : Steady settings Set.univ start (descent.read .assignment))
    (defaults : Defaults settings descent scope point verdicts) {count : Nat}
    {handle : SyntaxTree → Parse Value} (lists : Lists settings descent start count handle)
    (on : Place.On settings.source point.place) (late : start ≤ point.place.offset)
    (left : settings.size - point.place.offset < count) :
    Foretells settings point.place.offset verdicts Set.univ (descent.read .assignment >>= handle)
      point scope := by
  -- Where the first name is an operator, the list ends with an error at once.
  have stops {point : Point} {verdicts : Set Verdict} {name other : Token} {sign : Punctuator}
      {handle : SyntaxTree → Parse Value}
      (defaults : Defaults settings descent scope point verdicts)
      (on : Place.On settings.source point.place) (bare : Bare settings name other)
      (next : point.next settings.dialect = .ok name) (is : other.isPunctuator sign = true)
      (separates : separatesEntries sign = true)
      (awaits : (scope.inAsync && name.isWord .awaitWord) = true) :
      Foretells settings point.place.offset verdicts Set.univ (descent.read .assignment >>= handle)
        point scope := by
    obtain ⟨consistent, behind⟩ := defaults.sound on
    have fails : Foretold settings point.place.offset (assignment descent) point scope ∅ _ :=
      bare.entry_stops unbounded settled on next (kind_of_punctuator is) separates awaits
    have covers := fails.covering (Set.empty_subset _) consistent behind
    exact (settled.foretold on covers).bind_error.foretells le_rfl (Set.subset_univ _)
  induction defaults generalizing count handle with
  | stop =>
      obtain ⟨count, rfl⟩ : ∃ fewer, count = fewer + 1 := ⟨count - 1, by omega⟩
      exact (reads _ scope on late).bind fun tree => (lists tree).1.later late
  | @plain point name comma verdicts next bare separates rest ih =>
      obtain ⟨count, rfl⟩ : ∃ fewer, count = fewer + 1 := ⟨count - 1, by omega⟩
      cases plain : scope.inAsync && name.isWord .awaitWord with
      | true => exact stops (.plain next bare separates rest) on bare next separates rfl plain
      | false =>
          have kind := kind_of_punctuator separates
          have entry := bare.entry_plain unbounded settled on next kind plain
          have goesOn := lists.goesOn sized (settled.foretold on entry) late left bare.follows
            separates rest ih
          rwa [Set.empty_union] at goesOn
  | @last point name equals verdicts result next bare assigns value =>
      obtain ⟨count, rfl⟩ : ∃ fewer, count = fewer + 1 := ⟨count - 1, by omega⟩
      cases plain : scope.inAsync && name.isWord .awaitWord with
      | true => exact stops (.last next bare assigns value) on bare next assigns rfl plain
      | false =>
          have kind := kind_of_punctuator assigns
          obtain ⟨other, entry, -⟩ :=
            bare.entry_default unbounded settled on next kind plain value
          have called : Foretold settings point.place.offset (descent.read .assignment) point scope
              verdicts other := settled.foretold on entry
          exact (called.foretells le_rfl (Set.subset_univ _)).bind fun tree =>
            (lists tree).1.later late
  | @value point behind name equals comma verdicts more tree next bare assigns value follows
      separates rest ih =>
      obtain ⟨count, rfl⟩ : ∃ fewer, count = fewer + 1 := ⟨count - 1, by omega⟩
      have defaults : Defaults settings descent scope point (verdicts ∪ more) :=
        .value next bare assigns value follows separates rest
      cases plain : scope.inAsync && name.isWord .awaitWord with
      | true => exact stops defaults on bare next assigns rfl plain
      | false =>
          have kind := kind_of_punctuator assigns
          obtain ⟨other, entry, ends⟩ :=
            bare.entry_default unbounded settled on next kind plain value
          have called : Foretold settings point.place.offset (descent.read .assignment) point scope
              verdicts other := settled.foretold on entry
          cases other with
          | error fault =>
              obtain ⟨consistent, late⟩ := defaults.sound on
              have covers := called.covering Set.subset_union_left consistent late
              exact covers.bind_error.foretells le_rfl (Set.subset_univ _)
          | ok tree last =>
              obtain ⟨_, same⟩ := ends rfl
              cases same
              exact lists.goesOn sized called late left follows separates rest ih

/-! ## Groups -/

/-- What comes after a step that does what another one does. -/
theorem bind_alike {first other : Parse Other} {later : Other → Parse Value} {state after : State}
    (run : first settings state = other settings after) :
    (first >>= later) settings state = (other >>= later) settings after := by
  change Parse.bind first later settings state = Parse.bind other later settings after
  simp only [Parse.bind, run]

/-- What comes after a step that goes on as another one. -/
theorem bind_through {Inner : Type} {first : Parse Other} {later : Other → Parse Value}
    {step : Parse Inner} {next : Inner → Parse Other} {state after : State}
    (run : first settings state = (step >>= next) settings after) :
    (first >>= later) settings state =
      (step >>= fun value => next value >>= later) settings after := by
  change _ = Parse.bind step next settings after at run
  change Parse.bind first later settings state =
    Parse.bind step (fun value => Parse.bind (next value) later) settings after
  simp only [Parse.bind, run]
  cases step settings after <;> rfl

def sequenceRound (descent : Descent) (trees : Array SyntaxTree) :
    Parse (Round (Array SyntaxTree) (Array SyntaxTree)) := do
  match ← accept? .comma with
  | none => return .done trees
  | some comma => return .again ((trees.push comma).push (← descent.read .assignment))

def sequenceRest (descent : Descent) (rounds : Nat) (trees : Array SyntaxTree) :
    Parse SyntaxTree := do
  let trees ← iterate (sequenceRound descent) rounds trees
  return build .sequenceExpression trees.toList

def expressionAfter (descent : Descent) (first : SyntaxTree) : Parse SyntaxTree := do
  if ← nextIs .comma then
    sequenceRest descent descent.rounds #[first]
  else
    return first

theorem expression_first :
    expression descent = descent.read .assignment >>= expressionAfter descent :=
  rfl

theorem sequenceRest_comma {state : State} {comma : Token} (faces : Faces settings state comma)
    (separates : comma.isPunctuator .comma = true) (rounds : Nat) (trees : Array SyntaxTree) :
    sequenceRest descent (rounds + 1) trees settings state =
      (descent.read .assignment >>= fun tree => sequenceRest descent rounds
        ((trees.push (.leaf (.fixed (.punctuator .comma)) comma.span)).push tree)) settings
        (state.pass comma) := by
  let sign : SyntaxTree := .leaf (.fixed (.punctuator .comma)) comma.span
  have round : sequenceRound descent trees settings state =
      (descent.read .assignment >>= fun tree => pure (.again ((trees.push sign).push tree)))
        settings (state.pass comma) :=
    bind_run (accept_some faces separates)
  unfold sequenceRest
  rw [iterate_succ]
  exact bind_through (bind_through round)

section

variable (unbounded : settings.limit = none) (sized : settings.size = Text.size settings.source)

include unbounded sized

theorem sequenceRest_steady (reads : Steady settings most start (descent.read .assignment))
    (rounds : Nat) (trees : Array SyntaxTree) :
    Steady settings most start (sequenceRest descent rounds trees) := by
  have accepts : Assembled (.lax False) fun _ => accept? .comma := .accept? _
  refine (Steady.iterate (fun trees => ?_) rounds trees).bind fun _ => .pure _
  refine (accepts.alone unbounded sized).bind fun found => ?_
  cases found with
  | none => exact .pure _
  | some comma => exact reads.bind fun _ => .pure _

/-- The assignments of a sequence are a list. -/
theorem sequenceRest_lists (reads : Steady settings Set.univ start (descent.read .assignment))
    {count rounds : Nat} (le : count ≤ rounds) (trees : Array SyntaxTree) :
    Lists settings descent start count fun tree =>
      sequenceRest descent rounds (trees.push tree) := by
  induction count generalizing rounds trees with
  | zero => trivial
  | succ count ih =>
      obtain ⟨rounds, rfl⟩ : ∃ fewer, rounds = fewer + 1 := ⟨rounds - 1, by omega⟩
      have fewer : count ≤ rounds := by omega
      refine fun tree => ⟨sequenceRest_steady unbounded sized reads _ _, fun comma separates => ?_⟩
      let sign : SyntaxTree := .leaf (.fixed (.punctuator .comma)) comma.span
      refine ⟨_, ih fewer ((trees.push tree).push sign), ?_⟩
      intro point scope name next follows isName recalls state stands
      exact ⟨state.pass comma, stands.pass comma, rfl,
        sequenceRest_comma (stands.faces next recalls) separates _ _⟩

theorem expression_lists (reads : Steady settings Set.univ start (descent.read .assignment))
    {count : Nat} (le : count ≤ descent.rounds) :
    Lists settings descent start count (expressionAfter descent) := by
  obtain rfl | ⟨fewer, rfl⟩ : count = 0 ∨ ∃ fewer, count = fewer + 1 := by
    cases count with
    | zero => exact .inl rfl
    | succ fewer => exact .inr ⟨fewer, rfl⟩
  · trivial
  obtain ⟨rounds, same⟩ : ∃ rounds, descent.rounds = rounds + 1 :=
    ⟨descent.rounds - 1, by omega⟩
  have commas : Assembled (.lax False) fun _ => nextIs .comma := .nextIs _
  refine fun tree => ⟨?_, fun comma separates => ?_⟩
  · refine (commas.alone unbounded sized).bind fun goesOn => ?_
    cases goesOn with
    | true => exact sequenceRest_steady unbounded sized reads _ _
    | false => exact .pure _
  · have enough : fewer ≤ rounds := by omega
    let sign : SyntaxTree := .leaf (.fixed (.punctuator .comma)) comma.span
    refine ⟨_, sequenceRest_lists unbounded sized reads enough (#[tree].push sign), ?_⟩
    intro point scope name next follows isName recalls state stands
    refine ⟨state.pass comma, stands.pass comma, rfl, ?_⟩
    unfold expressionAfter
    rw [bind_run (nextIs_run (stands.faces next recalls) _), separates, same]
    exact sequenceRest_comma ((stands.look next).faces next recalls) separates _ _

end

/-! ## Arguments -/

def argumentRound (descent : Descent) (trees : Array SyntaxTree) :
    Parse (Round (Array SyntaxTree) (Array SyntaxTree)) := do
  if ← nextIs .rightParen then
    return .done trees
  else
    let tree ← element descent
    commaEnd (trees.push tree)

def argumentAfter (descent : Descent) (rounds : Nat) (trees : Array SyntaxTree)
    (tree : SyntaxTree) : Parse (Array SyntaxTree) :=
  commaEnd (trees.push tree) >>= Round.resume (iterate (argumentRound descent) rounds)

theorem arguments_rounds : arguments descent = Parse.withIn (do
    let opening ← expect .leftParen
    let trees ← iterate (argumentRound descent) descent.rounds #[opening]
    let closing ← expect .rightParen
    return build .argList (trees.push closing).toList) :=
  rfl

/-- An argument that starts with a name is an assignment. -/
theorem arguments_named {state : State} {name : Token} (faces : Faces settings state name)
    (isName : name.isIdentifier = true) (rounds : Nat) (trees : Array SyntaxTree) :
    iterate (argumentRound descent) (rounds + 1) trees settings state =
      (descent.read .assignment >>= argumentAfter descent rounds trees) settings
        (state.look name) := by
  have round : argumentRound descent trees settings state =
      (descent.read .assignment >>= fun tree => commaEnd (trees.push tree)) settings
        (state.look name) := by
    have entry : element descent settings (state.look name) =
        descent.read .assignment settings (state.look name) := by
      unfold element
      exact bind_run (accept_none faces.look (isPunctuator_of_identifier isName _))
    unfold argumentRound
    rw [bind_run (nextIs_run faces _), isPunctuator_of_identifier isName]
    exact bind_alike entry
  rw [iterate_succ]
  exact bind_through round

section

variable (unbounded : settings.limit = none) (sized : settings.size = Text.size settings.source)

include unbounded sized

theorem argumentRound_steady (reads : Steady settings most start (descent.read .assignment))
    (trees : Array SyntaxTree) : Steady settings most start (argumentRound descent trees) := by
  have closes : Assembled (.lax False) fun _ => nextIs .rightParen := .nextIs _
  have spreads : Assembled (.lax False) fun _ => accept? .ellipsis := .accept? _
  have ends (trees : Array SyntaxTree) : Assembled (.lax False) fun _ => commaEnd trees :=
    .ends trees
  refine (closes.alone unbounded sized).bind fun isLast => ?_
  cases isLast with
  | true => exact .pure _
  | false =>
      refine Steady.bind ?_ fun tree => (ends _).alone unbounded sized
      refine (spreads.alone unbounded sized).bind fun found => ?_
      cases found with
      | none => exact reads
      | some dots => exact reads.bind fun _ => .pure _

theorem argumentAfter_steady (reads : Steady settings most start (descent.read .assignment))
    (rounds : Nat) (trees : Array SyntaxTree) (tree : SyntaxTree) :
    Steady settings most start (argumentAfter descent rounds trees tree) := by
  have ends : Assembled (.lax False) fun _ => commaEnd (trees.push tree) := .ends _
  refine (ends.alone unbounded sized).bind fun round => ?_
  cases round with
  | done value => exact .pure value
  | again progress =>
      exact .iterate (argumentRound_steady unbounded sized reads) rounds progress

/-- The arguments of a call are a list. -/
theorem argumentAfter_lists (reads : Steady settings Set.univ start (descent.read .assignment))
    {count rounds : Nat} (le : count ≤ rounds) (trees : Array SyntaxTree) :
    Lists settings descent start count (argumentAfter descent rounds trees) := by
  induction count generalizing rounds trees with
  | zero => trivial
  | succ count ih =>
      obtain ⟨rounds, rfl⟩ : ∃ fewer, rounds = fewer + 1 := ⟨rounds - 1, by omega⟩
      have fewer : count ≤ rounds := by omega
      refine fun tree =>
        ⟨argumentAfter_steady unbounded sized reads _ _ _, fun comma separates => ?_⟩
      let sign : SyntaxTree := .leaf (.fixed (.punctuator .comma)) comma.span
      refine ⟨_, ih fewer ((trees.push tree).push sign), ?_⟩
      intro point scope name next follows isName recalls state stands
      refine ⟨(state.pass comma).look name, (stands.pass comma).look follows, rfl, ?_⟩
      have ends : commaEnd (trees.push tree) (settings.recalling recalls) state =
          .ok (.again ((trees.push tree).push sign)) (state.pass comma) :=
        bind_run (accept_some (stands.faces next recalls) separates)
      unfold argumentAfter
      rw [bind_run ends]
      exact arguments_named ((stands.pass comma).faces follows recalls) isName rounds _

end

/-! ## Both readings together -/

/-- A word that no function follows is an operand of its own. -/
theorem leftHandSide_word {state : State} {word second : Token} (faces : Faces settings state word)
    (isWord : word.isWord .asyncWord = true)
    (follows : (Point.after word).next settings.dialect = .ok second)
    (notFunction : second.isKeyword .functionWord = false) :
    leftHandSide descent settings state =
      memberChain descent true (.leaf (.rule .variableName) word.span) settings
        (state.pass word) := by
  have isName : word.isIdentifier = true := ((Bool.and_eq_true _ _).mp isWord).1
  have name : nameOrFunction descent settings (state.look word) =
      .ok (.leaf (.rule .variableName) word.span) (state.pass word) := by
    unfold nameOrFunction
    rw [bind_run (nextIsWord_run faces.look .asyncWord), isWord, if_pos rfl,
      bind_run (peekSecond_run faces.look.look follows)]
    simp only [notFunction, Bool.false_and]
    exact leaf_run faces.look.look.look _
  have base : primary descent settings (state.look word) =
      .ok (.leaf (.rule .variableName) word.span) (state.pass word) := by
    unfold primary
    rw [bind_run (peek_run faces.look), kind_of_identifier isName]
    exact name
  unfold leftHandSide
  rw [bind_run (nextIsKeyword_run faces _), isKeyword_of_identifier isName]
  exact bind_run base

section

variable (unbounded : settings.limit = none) (sized : settings.size = Text.size settings.source)
  (settled : descent.Settled settings)
  (reads : ∀ goal, Steady settings Set.univ start (descent.read goal))

include unbounded sized settled reads

/-- The expression in a group is read along the defaults. -/
theorem expression_covered (defaults : Defaults settings descent scope point verdicts)
    (on : Place.On settings.source point.place) (late : start ≤ point.place.offset) :
    Foretells settings point.place.offset verdicts Set.univ (descent.read .expression) point
      scope := by
  have rounds := settled.rounds
  have lists := expression_lists unbounded sized (reads .assignment) (Nat.le_refl descent.rounds)
  obtain ⟨all, result, least, among, foretold⟩ := defaults.covered unbounded sized settled
    (reads .assignment) lists on late (by omega)
  rw [← expression_first] at foretold
  have produced : Foretold settings point.place.offset (produce descent .expression) point scope
      all result := foretold
  exact (settled.foretold on produced).foretells least among

variable {opening : Token}

theorem parenthesized_covered (on : Place.On settings.source point.place)
    (next : point.next settings.dialect = .ok opening)
    (opens : opening.isPunctuator .leftParen = true) (late : start ≤ opening.stop.offset)
    (defaults : Defaults settings descent (scope.withNoIn false) (.after opening) verdicts) :
    Foretells settings opening.stop.offset verdicts Set.univ (parenthesized descent) point
      scope := by
  obtain ⟨onOpening, -, -, -⟩ := Point.on_after on next
  have onAfter : Place.On settings.source (Point.after opening).place := onOpening
  have inner := expression_covered unbounded sized settled reads defaults onAfter late
  have closing (tree : SyntaxTree) : Assembled (.lax False) fun _ => (do
      let closing ← expect .rightParen
      return build .parenthesizedExpression
        [.leaf (.fixed (.punctuator .leftParen)) opening.span, tree, closing]) :=
    .bind (.expect _) fun _ => .pure _
  have group := inner.bind fun tree => (closing tree).alone unbounded sized
  refine .around (.noIn false) (group.jump ?_)
  intro recalls state stands
  refine ⟨state.pass opening, stands.pass opening, rfl, ?_⟩
  exact bind_run (expect_run (stands.faces next recalls) opens)

theorem arguments_covered (on : Place.On settings.source point.place)
    (next : point.next settings.dialect = .ok opening)
    (opens : opening.isPunctuator .leftParen = true) (late : start ≤ opening.stop.offset)
    (defaults : Defaults settings descent (scope.withNoIn false) (.after opening) verdicts) :
    Foretells settings opening.stop.offset verdicts Set.univ (arguments descent) point scope := by
  obtain ⟨onOpening, -, -, -⟩ := Point.on_after on next
  have onAfter : Place.On settings.source (Point.after opening).place := onOpening
  let first : SyntaxTree := .leaf (.fixed (.punctuator .leftParen)) opening.span
  have inner : Foretells settings opening.stop.offset verdicts Set.univ
      (iterate (argumentRound descent) descent.rounds #[first]) (.after opening)
      (scope.withNoIn false) := by
    rcases defaults.named with rfl | ⟨name, follows, isName⟩
    · have round := argumentRound_steady unbounded sized (reads .assignment)
      exact Steady.iterate round _ _ _ _ onAfter late
    · have rounds := settled.rounds
      obtain ⟨fewer, same⟩ : ∃ fewer, descent.rounds = fewer + 1 :=
        ⟨descent.rounds - 1, by omega⟩
      have lists := argumentAfter_lists unbounded sized (reads .assignment) (Nat.le_refl fewer)
        #[first]
      have left : settings.size - (Point.after opening).place.offset < fewer := by omega
      have covered :=
        defaults.covered unbounded sized settled (reads .assignment) lists onAfter late left
      rw [same]
      exact covered.jump fun recalls state stands =>
        ⟨state.look name, stands.look follows, rfl,
          arguments_named (stands.faces follows recalls) isName _ _⟩
  have closing (trees : Array SyntaxTree) : Assembled (.lax False) fun _ => (do
      let closing ← expect .rightParen
      return build .argList (trees.push closing).toList) :=
    .bind (.expect _) fun _ => .pure _
  have list := inner.bind fun trees => (closing trees).alone unbounded sized
  rw [arguments_rounds]
  refine .around (.noIn false) (list.jump ?_)
  intro recalls state stands
  refine ⟨state.pass opening, stands.pass opening, rfl, ?_⟩
  exact bind_run (expect_run (stands.faces next recalls) opens)

/-- A group, with everything that follows it. -/
theorem group_covered (on : Place.On settings.source point.place)
    (next : point.next settings.dialect = .ok opening)
    (opens : opening.isPunctuator .leftParen = true) (late : start ≤ opening.stop.offset)
    (defaults : Defaults settings descent (scope.withNoIn false) (.after opening) verdicts) :
    Foretells settings opening.stop.offset verdicts Set.univ (leftHandSide descent) point
      scope := by
  have group := parenthesized_covered unbounded sized settled reads on next opens late defaults
  have chain (tree : SyntaxTree) : Steady settings Set.univ start (memberChain descent true tree) :=
    (Assembled.memberChain true tree).steady unbounded sized reads
  refine (group.bind fun tree => (chain tree).later late).jump fun recalls state stands => ?_
  refine ⟨(state.look opening).look opening, (stands.look next).look next, rfl, ?_⟩
  have kind := kind_of_punctuator opens
  have faces := stands.faces next recalls
  have base : primary descent (settings.recalling recalls) (state.look opening) =
      parenthesized descent (settings.recalling recalls) ((state.look opening).look opening) := by
    unfold primary
    rw [bind_run (peek_run faces.look), kind]
  unfold leftHandSide
  rw [bind_run (nextIsKeyword_run faces _), isKeyword_of_punctuator kind]
  exact bind_alike base

variable {word : Token}

/-- A call of a word, with everything that follows it. -/
theorem call_covered (on : Place.On settings.source point.place)
    (next : point.next settings.dialect = .ok word) (isWord : word.isWord .asyncWord = true)
    (follows : (Point.after word).next settings.dialect = .ok opening)
    (opens : opening.isPunctuator .leftParen = true) (late : start ≤ opening.stop.offset)
    (defaults : Defaults settings descent (scope.withNoIn false) (.after opening) verdicts) :
    Foretells settings opening.stop.offset verdicts Set.univ (leftHandSide descent) point
      scope := by
  obtain ⟨onWord, -, -, -⟩ := Point.on_after on next
  have onAfter : Place.On settings.source (Point.after word).place := onWord
  have kind := kind_of_punctuator opens
  let callee : SyntaxTree := .leaf (.rule .variableName) word.span
  let called (inputs : SyntaxTree) : Parse (Round SyntaxTree SyntaxTree) :=
    pure (.again (build .callExpression [callee, inputs]))
  have inputs := arguments_covered unbounded sized settled reads onAfter follows opens late defaults
  have call : Foretells settings opening.stop.offset verdicts Set.univ
      (arguments descent >>= called) (.after word) scope := inputs.bind fun _ => .pure _
  have step : Foretells settings opening.stop.offset verdicts Set.univ
      (memberStep descent true callee) (.after word) scope := by
    refine call.jump fun recalls state stands => ⟨state.look opening, stands.look follows, rfl, ?_⟩
    unfold memberStep
    rw [bind_run (peek_run (stands.faces follows recalls)), kind]
    rfl
  have rounds := settled.rounds
  obtain ⟨fewer, same⟩ : ∃ fewer, descent.rounds = fewer + 1 :=
    ⟨descent.rounds - 1, by omega⟩
  have chain : Foretells settings opening.stop.offset verdicts Set.univ
      (memberChain descent true callee) (.after word) scope := by
    unfold memberChain
    rw [same, iterate_succ]
    refine step.bind fun round => ?_
    cases round with
    | done value => exact .pure value
    | again progress =>
        have round (tree : SyntaxTree) :
            Steady settings Set.univ start (memberStep descent true tree) :=
          (Assembled.memberStep true tree).steady unbounded sized reads
        exact (Steady.iterate round fewer progress).later late
  refine chain.jump fun recalls state stands => ⟨state.pass word, stands.pass word, rfl, ?_⟩
  exact leftHandSide_word (stands.faces next recalls) isWord follows
    (isKeyword_of_punctuator kind _)

omit settled in
/-- A word that no function follows, with everything that follows it. -/
theorem word_covered (on : Place.On settings.source point.place)
    (next : point.next settings.dialect = .ok word) (isWord : word.isWord .asyncWord = true)
    {second : Token} (follows : (Point.after word).next settings.dialect = .ok second)
    (notFunction : second.isKeyword .functionWord = false) (late : start ≤ word.stop.offset) :
    Foretells settings word.stop.offset ∅ Set.univ (leftHandSide descent) point scope := by
  obtain ⟨onWord, -, -, -⟩ := Point.on_after on next
  have onAfter : Place.On settings.source (Point.after word).place := onWord
  let operand : SyntaxTree := .leaf (.rule .variableName) word.span
  have steady : Steady settings Set.univ start (memberChain descent true operand) :=
    (Assembled.memberChain true operand).steady unbounded sized reads
  refine (steady (.after word) scope onAfter late).jump fun recalls state stands => ?_
  refine ⟨state.pass word, stands.pass word, rfl, ?_⟩
  exact leftHandSide_word (stands.faces next recalls) isWord follows notFunction

omit settled in
/-- An operand that no operator stands in front of, with everything that
follows it up to the end of an assignment. -/
theorem operand_covered {first : Token} {given : Set Verdict} {middle : Nat}
    (next : point.next settings.dialect = .ok first) (notPrefix : prefixKind? first.kind = none)
    (notAwait : first.isWord .awaitWord = false) (late : start ≤ middle)
    (operand : Foretells settings middle given Set.univ (leftHandSide descent) point scope) :
    Foretells settings middle given Set.univ (conditional descent >>= assignmentAfter descent) point
      scope := by
  have steady {Value Other : Type} {step : Value → Descent → Parse Other}
      (assembled : ∀ value, Assembled (.lax False) (step value)) (value : Value) :
      Steady settings Set.univ middle (step value descent) :=
    ((assembled value).steady unbounded sized reads).later late
  have postfixed : Foretells settings middle given Set.univ (withPostfix descent) point scope :=
    operand.bind (steady Assembled.postfixAfter)
  have unary : Foretells settings middle given Set.univ (unary descent) point scope := by
    refine postfixed.jump fun recalls state stands => ⟨state.look first, stands.look next, rfl, ?_⟩
    unfold Grammar.unary
    rw [bind_run (peek_run (stands.faces next recalls)), notPrefix]
    simp only
    rw [bind_run state_run, notAwait, Bool.and_false]
    rfl
  have operators : Foretells settings middle given Set.univ
      (binary descent BinaryOperator.lowest) point scope :=
    unary.bind fun tree => .iterate (steady (Assembled.binaryStep _)) _ tree
  have choice : Foretells settings middle given Set.univ (conditional descent) point scope :=
    operators.bind (steady Assembled.choiceAfter)
  exact choice.bind (steady Assembled.assignmentAfter)

end

end Grammar

end ScriptTree
