import ScriptTree.Proofs.Grammar.Forward

/-!
# Steps that follow a phrase

A parsing step implements a phrase if what it reads is described by the
phrase, it keeps the scope it was started in, and it asks only for goals that
the phrase asks for.  The rules below follow the ways in which steps are put
together, so that a production is compared with its phrase line by line.
-/

namespace ScriptTree

namespace Grammar

/-- What every step leaves as it was, whether it succeeds or fails. -/
structure Kept (state last : State) : Prop where
  scope : last.scope = state.scope
  depth : last.depth = state.depth
  heads : state.rejectedHeads ⊆ last.rejectedHeads

namespace Kept

theorem refl (state : State) : Kept state state :=
  ⟨rfl, rfl, fun _ member => member⟩

theorem trans {state middle last : State} (first : Kept state middle)
    (second : Kept middle last) : Kept state last :=
  ⟨second.scope.trans first.scope, second.depth.trans first.depth,
    fun _ member => second.heads (first.heads member)⟩

end Kept

instance : LawfulMonad Parse :=
  LawfulMonad.mk' _
    (fun step => by
      funext settings state
      change Parse.bind step _ settings state = step settings state
      unfold Parse.bind
      cases step settings state <;> rfl)
    (fun _ _ => rfl)
    (fun step next final => by
      funext settings state
      change Parse.bind (Parse.bind step next) final settings state =
        Parse.bind step (fun value => Parse.bind (next value) final) settings state
      unfold Parse.bind
      cases step settings state <;> rfl)

theorem ite_bind {Value Other : Type} {test : Prop} [Decidable test] (yes no : Parse Other)
    (next : Other → Parse Value) :
    (if test then yes else no) >>= next = if test then yes >>= next else no >>= next := by
  split <;> rfl

variable (settings : Settings) (category : Category)

/-- A successful step that added some trees along a phrase. -/
structure Along (phrase : Phrase) (state : State) (before : List SyntaxTree) (last : State)
    (trees : List SyntaxTree) : Prop where
  valid : last.Valid settings
  kept : Kept state last
  reads : phrase.Reads settings category state.scope state.point before last.point trees

/-- The recursive calls of a descent yield trees of the category. -/
structure Descent.Sound (descent : Descent) : Prop where
  reads : ∀ {goal : Goal} {state last : State} {tree : SyntaxTree}, state.Valid settings →
    descent.read goal settings state = .ok tree last →
    Along settings category (.ask goal) state [] last [tree]
  fails : ∀ {goal : Goal} {state last : State} {fault : SyntaxError}, state.Valid settings →
    descent.read goal settings state = .error fault last → Kept state last

/-- A step follows a phrase, which may depend on the value it yields, wherever
a condition on the scope and the point holds. -/
structure Implements {Value : Type} (pre : Scope → Point → Prop) (before : List SyntaxTree)
    (phrase : Value → Phrase) (view : Value → List SyntaxTree) (step : Descent → Parse Value) :
    Prop where
  reads : ∀ {descent : Descent} {state last : State} {value : Value},
    descent.Sound settings category → state.Valid settings → pre state.scope state.point →
    step descent settings state = .ok value last →
    Along settings category (phrase value) state before last (view value)
  fails : ∀ {descent : Descent} {state last : State} {fault : SyntaxError},
    descent.Sound settings category → state.Valid settings → pre state.scope state.point →
    step descent settings state = .error fault last → Kept state last
  asks : ∀ {descent other : Descent} {state : State},
    descent.Sound settings category → state.Valid settings → pre state.scope state.point →
    other.rounds = descent.rounds →
    (∀ goal inner value, inner.Valid settings →
      (phrase value).Calls settings category state.scope state.point before goal inner.scope
        inner.point →
      other.read goal settings inner = descent.read goal settings inner) →
    step other settings state = step descent settings state

/-- No condition. -/
abbrev anywhere : Scope → Point → Prop :=
  fun _ _ => True

/-- A step that yields one tree. -/
abbrev Produces (phrase : Phrase) (step : Descent → Parse SyntaxTree) : Prop :=
  Implements settings category anywhere [] (fun _ => phrase) (fun tree => [tree]) step

/-- A step that yields several trees. -/
abbrev ProducesAll (phrase : Phrase) (step : Descent → Parse (List SyntaxTree)) : Prop :=
  Implements settings category anywhere [] (fun _ => phrase) (fun trees => trees) step

instance : Inhabited SyntaxTree :=
  ⟨.leaf (.rule .script) (.empty 0)⟩

instance {Progress Value : Type} [Inhabited Value] : Inhabited (Round Progress Value) :=
  ⟨.done default⟩

/-! ## General rules -/

/-- Whatever one phrase describes is described by the other too. -/
structure Covers (small large : Phrase) : Prop where
  reads : ∀ {scope point before last trees},
    small.Reads settings category scope point before last trees →
    large.Reads settings category scope point before last trees
  calls : ∀ {scope point before goal inside target},
    small.Calls settings category scope point before goal inside target →
    large.Calls settings category scope point before goal inside target

/-- Runs a step between two changes of the state. -/
abbrev between {Value : Type} (change : State → State) (restore : State → State → State)
    (step : Parse Value) : Parse Value :=
  fun settings state => (step settings (change state)).mapState (restore state)

/-- The changes before and after a step affect the scope and the depth only,
and the second undoes the first. -/
structure Surrounds (change : State → State) (restore : State → State → State)
    (inside : Scope → Scope) : Prop where
  enter : ∀ state, (change state).point = state.point ∧ (change state).peeked = state.peeked ∧
    (change state).scope = inside state.scope
  leave : ∀ state after, (restore state after).point = after.point ∧
    (restore state after).peeked = after.peeked
  kept : ∀ state after, Kept (change state) after → Kept state (restore state after)

namespace Surrounds

variable {change : State → State} {restore : State → State → State} {inside : Scope → Scope}

theorem valid_enter (surrounds : Surrounds change restore inside) {state : State}
    (valid : state.Valid settings) : (change state).Valid settings := by
  obtain ⟨point, peeked, -⟩ := surrounds.enter state
  intro token looked
  rw [point]
  exact valid token (peeked ▸ looked)

theorem valid_leave (surrounds : Surrounds change restore inside) {state after : State}
    (valid : after.Valid settings) : (restore state after).Valid settings := by
  obtain ⟨point, peeked⟩ := surrounds.leave state after
  intro token looked
  rw [point]
  exact valid token (peeked ▸ looked)

end Surrounds

theorem surrounds_noIn (noIn : Bool) :
    Surrounds (fun state => { state with noIn })
      (fun before after => { after with noIn := before.noIn }) (Scope.withNoIn noIn) where
  enter _ := ⟨rfl, rfl, rfl⟩
  leave _ _ := ⟨rfl, rfl⟩
  kept := by
    rintro state after ⟨scope, depth, heads⟩
    simp only [State.scope, Scope.mk.injEq] at scope
    exact ⟨by simp [State.scope, scope], depth, heads⟩

theorem surrounds_async (inAsync : Bool) :
    Surrounds (fun state => { state with inAsync })
      (fun before after => { after with inAsync := before.inAsync })
      (Scope.withAsync inAsync) where
  enter _ := ⟨rfl, rfl, rfl⟩
  leave _ _ := ⟨rfl, rfl⟩
  kept := by
    rintro state after ⟨scope, depth, heads⟩
    simp only [State.scope, Scope.mk.injEq] at scope
    exact ⟨by simp [State.scope, scope], depth, heads⟩

theorem surrounds_functionBody (inAsync : Bool) :
    Surrounds (fun state => { state with inFunction := true, inAsync, noIn := false })
      (fun before after =>
        { after with
          inFunction := before.inFunction
          inAsync := before.inAsync
          noIn := before.noIn })
      (Scope.functionBody inAsync) where
  enter _ := ⟨rfl, rfl, rfl⟩
  leave _ _ := ⟨rfl, rfl⟩
  kept _ _ kept := ⟨rfl, kept.depth, kept.heads⟩

theorem surrounds_depth :
    Surrounds (fun state => { state with depth := state.depth + 1 })
      (fun _ after => { after with depth := after.depth - 1 }) id where
  enter _ := ⟨rfl, rfl, rfl⟩
  leave _ _ := ⟨rfl, rfl⟩
  kept := by
    rintro state after ⟨scope, depth, heads⟩
    refine ⟨scope, ?_, heads⟩
    simp only at depth ⊢
    omega

/-- Going one level deeper either fails where it stands or runs the step. -/
theorem nested_cases (state : State) :
    (∃ fault, ∀ {Value : Type} (step : Parse Value),
      Parse.nested step settings state = .error fault state) ∨
    ∀ {Value : Type} (step : Parse Value), Parse.nested step settings state =
      between (fun state => { state with depth := state.depth + 1 })
        (fun _ after => { after with depth := after.depth - 1 }) step settings state := by
  cases bound : settings.limit with
  | none => exact Or.inr fun step => by simp [Parse.nested, bound]
  | some limit =>
      by_cases deep : limit ≤ state.depth
      · exact Or.inl ⟨⟨.nestingTooDeep limit, .empty state.place.offset⟩,
          fun step => by simp [Parse.nested, bound, deep]⟩
      · exact Or.inr fun step => by simp [Parse.nested, bound, deep]

namespace Implements

variable {settings category}
variable {Value Other : Type} {pre : Scope → Point → Prop} {before : List SyntaxTree}
  {phrase : Value → Phrase} {view : Value → List SyntaxTree}

/-- A step followed by another that depends on its value. -/
theorem followed [Nonempty Value] {first : Other → Phrase} {firstView : Other → List SyntaxTree}
    {middle : Other → Scope → Point → Prop} {step : Descent → Parse Other}
    {next : Other → Descent → Parse Value} (second : Other → Value → Phrase)
    (stepRule : Implements settings category pre before first firstView step)
    (meets : ∀ value scope point last, pre scope point →
      (first value).Reads settings category scope point before last (firstView value) →
      middle value scope last)
    (covers : ∀ value result,
      Covers settings category (.seq (first value) (second value result)) (phrase result))
    (nextRule : ∀ value, Implements settings category (middle value) (firstView value)
      (second value) view (next value)) :
    Implements settings category pre before phrase view
      (fun descent => step descent >>= fun value => next value descent) where
  reads := by
    intro descent state last result sound valid holds run
    obtain ⟨value, between, stepRun, nextRun⟩ := bind_ok run
    have stepAlong := stepRule.reads sound valid holds stepRun
    have meet := meets value _ _ _ holds stepAlong.reads
    have nextAlong := (nextRule value).reads sound stepAlong.valid
      (by rw [stepAlong.kept.scope]; exact meet) nextRun
    refine ⟨nextAlong.valid, stepAlong.kept.trans nextAlong.kept, ?_⟩
    apply (covers value result).reads
    refine ⟨between.point, firstView value, stepAlong.reads, ?_⟩
    rw [← stepAlong.kept.scope]
    exact nextAlong.reads
  fails := by
    intro descent state last fault sound valid holds run
    obtain stepRun | ⟨value, between, stepRun, nextRun⟩ := bind_error run
    · exact stepRule.fails sound valid holds stepRun
    · have stepAlong := stepRule.reads sound valid holds stepRun
      have meet := meets value _ _ _ holds stepAlong.reads
      exact stepAlong.kept.trans ((nextRule value).fails sound stepAlong.valid
        (by rw [stepAlong.kept.scope]; exact meet) nextRun)
  asks := by
    intro descent other state sound valid holds rounds agree
    have stepSame : step other settings state = step descent settings state := by
      apply stepRule.asks sound valid holds rounds
      intro goal inner value innerValid called
      exact agree goal inner (Classical.choice inferInstance) innerValid
        ((covers value _).calls (Or.inl called))
    change Parse.bind _ _ settings state = Parse.bind _ _ settings state
    unfold Parse.bind
    rw [stepSame]
    split
    · rename_i value between stepRun
      have stepAlong := stepRule.reads sound valid holds stepRun
      have meet := meets value _ _ _ holds stepAlong.reads
      apply (nextRule value).asks sound stepAlong.valid
        (by rw [stepAlong.kept.scope]; exact meet) rounds
      intro goal inner result innerValid called
      apply agree goal inner result innerValid
      apply (covers value result).calls
      refine Or.inr ⟨between.point, firstView value, stepAlong.reads, ?_⟩
      rw [← stepAlong.kept.scope]
      exact called
    · rfl

/-- A step followed by another, without further conditions. -/
theorem andThen [Nonempty Value] {first : Phrase} {firstView : Other → List SyntaxTree}
    {step : Descent → Parse Other} {next : Other → Descent → Parse Value}
    (stepRule : Implements settings category pre before (fun _ => first) firstView step)
    (nextRule : ∀ value, Implements settings category anywhere (firstView value) phrase view
      (next value)) :
    Implements settings category pre before (fun value => .seq first (phrase value)) view
      (fun descent => step descent >>= fun value => next value descent) :=
  stepRule.followed (fun _ => phrase) (fun _ _ _ _ _ _ => trivial) (fun _ _ => ⟨id, id⟩) nextRule

/-- A step whose value is put into another form. -/
theorem mapped {firstView : Other → List SyntaxTree} {step : Descent → Parse Other}
    {change : Other → Value}
    (rule : Implements settings category pre before (fun value => phrase (change value)) firstView
      step)
    (same : ∀ value, view (change value) = firstView value) :
    Implements settings category pre before phrase view
      (fun descent => step descent >>= fun value => Pure.pure (change value)) where
  reads := by
    intro descent state last result sound valid holds run
    obtain ⟨value, between, stepRun, nextRun⟩ := bind_ok run
    cases nextRun
    have along := rule.reads sound valid holds stepRun
    exact ⟨along.valid, along.kept, by rw [same]; exact along.reads⟩
  fails := by
    intro descent state last fault sound valid holds run
    obtain stepRun | ⟨value, between, -, nextRun⟩ := bind_error run
    · exact rule.fails sound valid holds stepRun
    · cases nextRun
  asks := by
    intro descent other state sound valid holds rounds agree
    have stepSame := rule.asks sound valid holds rounds fun goal inner value =>
      agree goal inner (change value)
    change Parse.bind _ _ settings state = Parse.bind _ _ settings state
    unfold Parse.bind
    rw [stepSame]

/-- A step compared with a phrase that allows more. -/
theorem weaken {smaller : Value → Phrase} {step : Descent → Parse Value}
    (rule : Implements settings category pre before smaller view step)
    (covers : ∀ value, Covers settings category (smaller value) (phrase value)) :
    Implements settings category pre before phrase view step where
  reads := by
    intro descent state last value sound valid holds run
    have along := rule.reads sound valid holds run
    exact ⟨along.valid, along.kept, (covers value).reads along.reads⟩
  fails := rule.fails
  asks := by
    intro descent other state sound valid holds rounds agree
    apply rule.asks sound valid holds rounds
    intro goal inner value innerValid called
    exact agree goal inner value innerValid ((covers value).calls called)

/-- A step under a stronger condition. -/
theorem under {weaker : Scope → Point → Prop} {step : Descent → Parse Value}
    (rule : Implements settings category weaker before phrase view step)
    (implies : ∀ scope point, pre scope point → weaker scope point) :
    Implements settings category pre before phrase view step :=
  ⟨fun sound valid holds run => rule.reads sound valid (implies _ _ holds) run,
    fun sound valid holds run => rule.fails sound valid (implies _ _ holds) run,
    fun sound valid holds rounds agree => rule.asks sound valid (implies _ _ holds) rounds agree⟩

/-- A step that needs no condition. -/
theorem always {step : Descent → Parse Value}
    (rule : Implements settings category anywhere before phrase view step) :
    Implements settings category pre before phrase view step :=
  rule.under fun _ _ _ => trivial

/-- A step that yields a value at once. -/
theorem yields {value : Value}
    (reads : ∀ scope point, pre scope point →
      (phrase value).Reads settings category scope point before point (view value)) :
    Implements settings category pre before phrase view (fun _ => Pure.pure value) where
  reads := by
    intro descent state last result sound valid holds run
    cases run
    exact ⟨valid, .refl state, reads _ _ holds⟩
  fails _ _ _ run := nomatch run
  asks _ _ _ _ _ := rfl

/-- A step that fails at once. -/
theorem fail {fault : SyntaxError} :
    Implements settings category pre before phrase view (fun _ => Parse.fail fault) where
  reads _ _ _ run := nomatch run
  fails := by
    intro descent state last other sound valid holds run
    cases run
    exact .refl state
  asks _ _ _ _ _ := rfl

/-- A condition that is known to hold can be part of the phrase. -/
theorem given [Nonempty Value]
    {holds : Settings → Scope → Point → List SyntaxTree → Prop} {step : Descent → Parse Value}
    (known : ∀ scope point, pre scope point → holds settings scope point before)
    (rule : Implements settings category pre before phrase view step) :
    Implements settings category pre before (fun value => .seq (.given holds) (phrase value))
      view step where
  reads := by
    intro descent state last value sound valid met run
    have along := rule.reads sound valid met run
    exact ⟨along.valid, along.kept, _, _, ⟨known _ _ met, rfl, rfl⟩, along.reads⟩
  fails := rule.fails
  asks := by
    intro descent other state sound valid met rounds agree
    apply rule.asks sound valid met rounds
    intro goal inner value innerValid called
    exact agree goal inner value innerValid
      (Or.inr ⟨_, _, ⟨known _ _ met, rfl, rfl⟩, called⟩)

/-- A condition that holds afterwards can be part of the phrase. -/
theorem ensures {holds : Settings → Scope → Point → List SyntaxTree → Prop}
    {step : Descent → Parse Value}
    (rule : Implements settings category pre before phrase view step)
    (known : ∀ value scope point last, pre scope point →
      (phrase value).Reads settings category scope point before last (view value) →
      holds settings scope last (view value)) :
    Implements settings category pre before (fun value => .seq (phrase value) (.given holds))
      view step where
  reads := by
    intro descent state last value sound valid met run
    have along := rule.reads sound valid met run
    exact ⟨along.valid, along.kept, _, _, along.reads, known _ _ _ _ met along.reads, rfl, rfl⟩
  fails := rule.fails
  asks := by
    intro descent other state sound valid met rounds agree
    apply rule.asks sound valid met rounds
    intro goal inner value innerValid called
    exact agree goal inner value innerValid (Or.inl called)

theorem inl {other : Value → Phrase} {step : Descent → Parse Value}
    (rule : Implements settings category pre before phrase view step) :
    Implements settings category pre before (fun value => .either (phrase value) (other value))
      view step :=
  rule.weaken fun _ => ⟨Or.inl, Or.inl⟩

theorem inr {other : Value → Phrase} {step : Descent → Parse Value}
    (rule : Implements settings category pre before phrase view step) :
    Implements settings category pre before (fun value => .either (other value) (phrase value))
      view step :=
  rule.weaken fun _ => ⟨Or.inr, Or.inr⟩

/-- A step that does one of two things. -/
theorem ite {test : Prop} [Decidable test] {yes no : Descent → Parse Value}
    (yesRule : test → Implements settings category pre before phrase view yes)
    (noRule : ¬test → Implements settings category pre before phrase view no) :
    Implements settings category pre before phrase view
      (fun descent => if test then yes descent else no descent) := by
  by_cases decision : test
  · simpa only [if_pos decision] using yesRule decision
  · simpa only [if_neg decision] using noRule decision

/-- A step that ends by making one node of the trees collected. -/
theorem reduces {rule : Rule} {trees : List SyntaxTree} (same : trees = before) :
    Implements settings category pre before (fun _ => .reduce rule) (fun tree => [tree])
      (fun _ => Pure.pure (build rule trees)) :=
  yields fun _ _ _ => ⟨rfl, by rw [same]⟩

/-- A step that ends with the trees collected. -/
theorem finish {value : Value} (same : view value = before) :
    Implements settings category pre before (fun _ => .done) view (fun _ => Pure.pure value) :=
  yields fun _ _ _ => ⟨rfl, same⟩

/-- A step as a part of another. -/
theorem part {inner : Value → Phrase} {innerView : Value → List SyntaxTree}
    {step : Descent → Parse Value}
    (rule : Implements settings category pre [] inner innerView step) :
    Implements settings category pre before (fun value => .sub (inner value))
      (fun value => before ++ innerView value) step where
  reads := by
    intro descent state last value sound valid holds run
    have along := rule.reads sound valid holds run
    exact ⟨along.valid, along.kept, innerView value, along.reads, rfl⟩
  fails := rule.fails
  asks := rule.asks

/-- A production as a part of another. -/
theorem sub {inner : Value → Phrase} {innerView : Value → List SyntaxTree}
    {step : Descent → Parse Value}
    (rule : Implements settings category anywhere [] inner innerView step) :
    Implements settings category pre before (fun value => .sub (inner value))
      (fun value => before ++ innerView value) step :=
  rule.always.part

/-- A recursive call. -/
theorem ask {goal : Goal} :
    Implements settings category pre before (fun _ => .ask goal) (fun tree => before ++ [tree])
      (fun descent => descent.read goal) where
  reads := by
    intro descent state last tree sound valid holds run
    obtain ⟨lastValid, kept, other, member, same⟩ := sound.reads valid run
    obtain rfl : tree = other := by simpa using same
    exact ⟨lastValid, kept, tree, member, rfl⟩
  fails sound valid _ run := sound.fails valid run
  asks := by
    intro descent other state sound valid holds rounds agree
    exact agree goal state default valid
      ⟨rfl, rfl, rfl⟩

/-- A step in a changed scope. -/
theorem surrounded {change : State → State} {restore : State → State → State}
    {inside : Scope → Scope} {inner : Scope → Point → Prop} {step : Descent → Parse Value}
    (surrounds : Surrounds change restore inside)
    (meets : ∀ scope point, pre scope point → inner (inside scope) point)
    (rule : Implements settings category inner before phrase view step) :
    Implements settings category pre before (fun value => .within inside (phrase value)) view
      (fun descent => between change restore (step descent)) where
  reads := by
    intro descent state last value sound valid holds run
    obtain ⟨point, -, scope⟩ := surrounds.enter state
    cases result : step descent settings (change state) with
    | error fault after => simp [between, result, Outcome.mapState] at run
    | ok found after =>
        simp only [between, result, Outcome.mapState, Outcome.ok.injEq] at run
        obtain ⟨rfl, rfl⟩ := run
        have along := rule.reads sound (surrounds.valid_enter settings valid)
          (by rw [point, scope]; exact meets _ _ holds) result
        refine ⟨surrounds.valid_leave settings along.valid, surrounds.kept _ _ along.kept, ?_⟩
        have reads := along.reads
        rw [point, scope] at reads
        rw [(surrounds.leave state after).1]
        exact reads
  fails := by
    intro descent state last fault sound valid holds run
    obtain ⟨point, -, scope⟩ := surrounds.enter state
    cases result : step descent settings (change state) with
    | ok found after => simp [between, result, Outcome.mapState] at run
    | error found after =>
        simp only [between, result, Outcome.mapState, Outcome.error.injEq] at run
        obtain ⟨rfl, rfl⟩ := run
        exact surrounds.kept _ _ (rule.fails sound (surrounds.valid_enter settings valid)
          (by rw [point, scope]; exact meets _ _ holds) result)
  asks := by
    intro descent other state sound valid holds rounds agree
    obtain ⟨point, -, scope⟩ := surrounds.enter state
    have same : step other settings (change state) = step descent settings (change state) := by
      apply rule.asks sound (surrounds.valid_enter settings valid)
        (by rw [point, scope]; exact meets _ _ holds) rounds
      rw [point, scope]
      exact agree
    simp only [between, same]

theorem withNoIn [Nonempty Value] {noIn : Bool} {step : Descent → Parse Value}
    (rule : Implements settings category anywhere before phrase view step) :
    Implements settings category pre before
      (fun value => .within (.withNoIn noIn) (phrase value)) view
      (fun descent => Parse.withNoIn noIn (step descent)) :=
  rule.surrounded (surrounds_noIn noIn) fun _ _ _ => trivial

theorem withIn [Nonempty Value] {step : Descent → Parse Value}
    (rule : Implements settings category anywhere before phrase view step) :
    Implements settings category pre before
      (fun value => .within (.withNoIn false) (phrase value)) view
      (fun descent => Parse.withIn (step descent)) :=
  rule.withNoIn

theorem withAsync [Nonempty Value] {inAsync : Bool} {step : Descent → Parse Value}
    (rule : Implements settings category anywhere before phrase view step) :
    Implements settings category pre before
      (fun value => .within (.withAsync inAsync) (phrase value)) view
      (fun descent => Parse.withAsync inAsync (step descent)) :=
  rule.surrounded (surrounds_async inAsync) fun _ _ _ => trivial

theorem inFunctionBody [Nonempty Value] {inAsync : Bool} {step : Descent → Parse Value}
    (rule : Implements settings category anywhere before phrase view step) :
    Implements settings category pre before
      (fun value => .within (.functionBody inAsync) (phrase value)) view
      (fun descent => Parse.inFunctionBody inAsync (step descent)) :=
  rule.surrounded (surrounds_functionBody inAsync) fun _ _ _ => trivial

/-- A step one level deeper. -/
theorem nested {step : Descent → Parse Value}
    (rule : Implements settings category pre before phrase view step) :
    Implements settings category pre before phrase view
      (fun descent => Parse.nested (step descent)) := by
  have deeper := rule.surrounded surrounds_depth fun _ _ (holds : pre _ _) => holds
  constructor
  · intro descent state last value sound valid holds run
    obtain ⟨fault, stops⟩ | runs := nested_cases settings state
    · rw [stops] at run
      cases run
    · rw [runs] at run
      have along := deeper.reads sound valid holds run
      exact ⟨along.valid, along.kept, along.reads⟩
  · intro descent state last fault sound valid holds run
    obtain ⟨found, stops⟩ | runs := nested_cases settings state
    · rw [stops] at run
      cases run
      exact .refl state
    · rw [runs] at run
      exact deeper.fails sound valid holds run
  · intro descent other state sound valid holds rounds agree
    obtain ⟨fault, stops⟩ | runs := nested_cases settings state
    · rw [stops, stops]
    · rw [runs, runs]
      exact deeper.asks sound valid holds rounds agree

/-- A step that is undone if it fails. -/
theorem attempt {step : Descent → Parse Value}
    (rule : Implements settings category pre before phrase view step) :
    Implements settings category pre before
      (fun result => match result with
        | some value => phrase value
        | none => .done)
      (fun result => match result with
        | some value => view value
        | none => before)
      (fun descent => Parse.attempt (step descent)) where
  reads := by
    intro descent state last result sound valid holds run
    unfold Parse.attempt at run
    cases found : step descent settings state with
    | ok value after =>
        simp only [found, Outcome.ok.injEq] at run
        obtain ⟨rfl, rfl⟩ := run
        exact rule.reads sound valid holds found
    | error fault after =>
        simp only [found] at run
        split at run
        · cases run
        · cases run
          have kept := rule.fails sound valid holds found
          exact ⟨valid, ⟨kept.scope, rfl, kept.heads⟩, rfl, rfl⟩
  fails := by
    intro descent state last fault sound valid holds run
    unfold Parse.attempt at run
    cases found : step descent settings state with
    | ok value after => simp [found] at run
    | error other after =>
        simp only [found] at run
        split at run
        · cases run
          exact rule.fails sound valid holds found
        · cases run
  asks := by
    intro descent other state sound valid holds rounds agree
    have same := rule.asks sound valid holds rounds
      fun goal inner value => agree goal inner (some value)
    unfold Parse.attempt
    rw [same]

/-- Going on after a step that is undone if it fails. -/
theorem attempt_then [Nonempty Value] {inner : Other → Phrase}
    {innerView : Other → List SyntaxTree} {step : Descent → Parse Other}
    {next : Option Other → Descent → Parse Value} {presentPhrase : Other → Value → Phrase}
    {absentPhrase : Value → Phrase}
    (rule : Implements settings category pre before inner innerView step)
    (coversPresent : ∀ value result,
      Covers settings category (.seq (inner value) (presentPhrase value result)) (phrase result))
    (coversAbsent : ∀ result, Covers settings category (absentPhrase result) (phrase result))
    (present : ∀ value, Implements settings category anywhere (innerView value)
      (presentPhrase value) view (next (some value)))
    (absent : Implements settings category anywhere before absentPhrase view (next none)) :
    Implements settings category pre before phrase view
      (fun descent => Parse.attempt (step descent) >>= fun found => next found descent) := by
  let second (found : Option Other) : Value → Phrase :=
    match found with
    | some value => presentPhrase value
    | none => absentPhrase
  refine rule.attempt.followed second (fun _ _ _ _ _ _ => trivial) (fun found result => ?_)
    fun found => ?_
  · cases found with
    | some value => exact coversPresent value result
    | none =>
        constructor
        · rintro scope point trees last later ⟨_, _, ⟨rfl, rfl⟩, reads⟩
          exact (coversAbsent result).reads reads
        · rintro scope point trees goal inside target (called | ⟨_, _, ⟨rfl, rfl⟩, called⟩)
          · cases called
          · exact (coversAbsent result).calls called
  · cases found with
    | some value => exact present value
    | none => exact absent

/-! ## Loops -/

section Loop

variable {Progress : Type} {round : Bool → Phrase} {roundView : Progress → List SyntaxTree}
  {step : Progress → Descent → Parse (Round Progress Value)}

def goesOn : Round Progress Value → Bool
  | .again _ => true
  | .done _ => false

def collected (roundView : Progress → List SyntaxTree) (view : Value → List SyntaxTree) :
    Round Progress Value → List SyntaxTree
  | .again progress => roundView progress
  | .done value => view value

/-- The end of a round after which the loop goes on. -/
theorem again {progress : Progress} (same : roundView progress = before) :
    Implements settings category pre before
      (fun result : Round Progress Value => .leave (goesOn result) true)
      (collected roundView view) (fun _ => Pure.pure (.again progress)) :=
  yields fun _ _ _ => ⟨rfl, rfl, same⟩

/-- The end of a round that makes one node of the trees collected, after which
the loop goes on. -/
theorem again_with {rule : Rule} {trees : List SyntaxTree} (same : trees = before) :
    Implements settings category pre before
      (fun result : Round SyntaxTree SyntaxTree =>
        .seq (.reduce rule) (.leave (goesOn result) true))
      (collected (fun tree => [tree]) fun tree => [tree])
      (fun _ => Pure.pure (.again (build rule trees))) :=
  yields fun _ point _ => ⟨point, [build rule trees], ⟨rfl, by rw [same]⟩, rfl, rfl, rfl⟩

/-- The end of the last round. -/
theorem stop {value : Value} (same : view value = before) :
    Implements settings category pre before
      (fun result : Round Progress Value => .leave (goesOn result) false)
      (collected roundView view) (fun _ => Pure.pure (.done value)) :=
  yields fun _ _ _ => ⟨rfl, rfl, same⟩

/-- Every round of a loop follows the phrase for a round. -/
abbrev Rounds (settings : Settings) (category : Category) (round : Bool → Phrase)
    (roundView : Progress → List SyntaxTree) (view : Value → List SyntaxTree)
    (step : Progress → Descent → Parse (Round Progress Value)) : Prop :=
  ∀ progress, Implements settings category anywhere (roundView progress)
    (fun result => round (goesOn result)) (collected roundView view) (step progress)

private theorem loop_reads {scope : Scope} {point middle last : Point}
    {trees between later : List SyntaxTree}
    (first : (round true).Reads settings category scope point trees middle between)
    (rest : (Phrase.loop round).Reads settings category scope middle between last later) :
    (Phrase.loop round).Reads settings category scope point trees last later := by
  obtain ⟨stop, stopped, rounds, final⟩ := rest
  exact ⟨stop, stopped, .head first rounds, final⟩

private theorem loop_calls {scope inside : Scope} {point middle target : Point} {goal : Goal}
    {trees between : List SyntaxTree}
    (first : (round true).Reads settings category scope point trees middle between)
    (rest : (Phrase.loop round).Calls settings category scope middle between goal inside target) :
    (Phrase.loop round).Calls settings category scope point trees goal inside target := by
  obtain ⟨stop, stopped, rounds, called⟩ | ⟨stop, stopped, rounds, called⟩ := rest
  · exact Or.inl ⟨stop, stopped, .head first rounds, called⟩
  · exact Or.inr ⟨stop, stopped, .head first rounds, called⟩

private theorem iterate_reads (rule : Rounds settings category round roundView view step)
    {descent : Descent} (sound : descent.Sound settings category) {value : Value} {last : State}
    (rounds : Nat) {progress : Progress} {state : State} (valid : state.Valid settings)
    (run : Grammar.iterate (fun progress => step progress descent) rounds progress settings state =
      .ok value last) :
    Along settings category (.loop round) state (roundView progress) last (view value) := by
  induction rounds generalizing progress state with
  | zero => cases run
  | succ rounds ih =>
      unfold Grammar.iterate at run
      cases result : step progress descent settings state with
      | error fault after => simp [result] at run
      | ok found after =>
          have along := (rule progress).reads sound valid trivial result
          cases found with
          | done finished =>
              simp only [result, Outcome.ok.injEq] at run
              obtain ⟨rfl, rfl⟩ := run
              exact ⟨along.valid, along.kept, _, _, .refl, along.reads⟩
          | again advanced =>
              simp only [result] at run
              have later := ih along.valid run
              refine ⟨later.valid, along.kept.trans later.kept, loop_reads along.reads ?_⟩
              rw [← along.kept.scope]
              exact later.reads

private theorem iterate_fails (rule : Rounds settings category round roundView view step)
    {descent : Descent} (sound : descent.Sound settings category) {fault : SyntaxError}
    {last : State} (rounds : Nat) {progress : Progress} {state : State}
    (valid : state.Valid settings)
    (run : Grammar.iterate (fun progress => step progress descent) rounds progress settings state =
      .error fault last) :
    Kept state last := by
  induction rounds generalizing progress state with
  | zero =>
      cases run
      exact .refl _
  | succ rounds ih =>
      unfold Grammar.iterate at run
      cases result : step progress descent settings state with
      | error found after =>
          simp only [result, Outcome.error.injEq] at run
          obtain ⟨rfl, rfl⟩ := run
          exact (rule progress).fails sound valid trivial result
      | ok found after =>
          have along := (rule progress).reads sound valid trivial result
          cases found with
          | done finished => simp [result] at run
          | again advanced =>
              simp only [result] at run
              exact along.kept.trans (ih along.valid run)

private theorem iterate_asks [Nonempty Value]
    (rule : Rounds settings category round roundView view step)
    {descent other : Descent} (sound : descent.Sound settings category)
    (sameRounds : other.rounds = descent.rounds)
    (rounds : Nat) {progress : Progress} {state : State} (valid : state.Valid settings)
    (agree : ∀ goal inner, inner.Valid settings →
      (Phrase.loop round).Calls settings category state.scope state.point (roundView progress)
        goal inner.scope inner.point →
      other.read goal settings inner = descent.read goal settings inner) :
    Grammar.iterate (fun progress => step progress other) rounds progress settings state =
      Grammar.iterate (fun progress => step progress descent) rounds progress settings state := by
  induction rounds generalizing progress state with
  | zero => rfl
  | succ rounds ih =>
      have same : step progress other settings state = step progress descent settings state := by
        apply (rule progress).asks sound valid trivial sameRounds
        intro goal inner result innerValid called
        apply agree goal inner innerValid
        cases result with
        | again _ => exact Or.inl ⟨_, _, .refl, called⟩
        | done _ => exact Or.inr ⟨_, _, .refl, called⟩
      unfold Grammar.iterate
      rw [same]
      cases result : step progress descent settings state with
      | error fault after => rfl
      | ok found after =>
          have along := (rule progress).reads sound valid trivial result
          cases found with
          | done finished => rfl
          | again advanced =>
              apply ih along.valid
              intro goal inner innerValid called
              apply agree goal inner innerValid
              rw [along.kept.scope] at called
              exact loop_calls along.reads called

/-- A loop of rounds. -/
theorem loops [Nonempty Value] {progress : Progress}
    (rule : Rounds settings category round roundView view step) :
    Implements settings category pre (roundView progress) (fun _ => .loop round) view
      (fun descent =>
        Grammar.iterate (fun progress => step progress descent) descent.rounds progress) where
  reads sound valid _ run := iterate_reads rule sound _ valid run
  fails sound valid _ run := iterate_fails rule sound _ valid run
  asks := by
    intro descent other state sound valid holds rounds agree
    rw [rounds]
    exact iterate_asks rule sound rounds _ valid
      fun goal inner => agree goal inner (Classical.choice inferInstance)

/-- A loop that collects trees. -/
theorem collects {round : Bool → Phrase} {start : Array SyntaxTree}
    {step : Array SyntaxTree → Descent →
      Parse (Round (Array SyntaxTree) (Array SyntaxTree))}
    (same : start.toList = before)
    (rule : Rounds settings category round Array.toList Array.toList step) :
    Implements settings category pre before (fun _ => .loop round) Array.toList
      (fun descent => collect descent start fun trees => step trees descent) := by
  subst same
  exact loops rule

end Loop

end Implements

end Grammar

end ScriptTree
