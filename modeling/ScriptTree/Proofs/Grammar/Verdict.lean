import Mathlib.Data.Set.Function
import ScriptTree.Proofs.Grammar.Enough

/-!
# Verdicts on heads

Wherever a head is tried, a verdict is passed on it.  The verdicts of a step
foretell it if no two of them contradict each other and if the step comes to
the same result from every state at a point, whether rejected heads are
recalled or not, as long as no head is remembered as rejected that is going to
be accepted.  Steps that are foretold can be put together, since the verdicts
of the first lie before those of the second.
-/

namespace ScriptTree

namespace Grammar

/-- The settings with or without a use of rejected heads. -/
def Settings.recalling (settings : Settings) (recallsHeads : Bool) : Settings :=
  { settings with recallsHeads }

/-- Whether a head was accepted at an offset. -/
structure Verdict where
  offset : Nat
  accepted : Bool

/-- What a step comes to, but for its memory. -/
inductive Result (Value : Type) where
  | ok (value : Value) (last : Point)
  | error (fault : SyntaxError)

/-- A state at a point and in a scope. -/
structure State.At (settings : Settings) (point : Point) (scope : Scope) (state : State) :
    Prop where
  valid : state.Valid settings
  point : state.point = point
  scope : state.scope = scope

/-- A state at a point and in a scope that remembers nothing. -/
def Point.state (point : Point) (scope : Scope) : State where
  place := point.place
  patternAllowed := point.patternAllowed
  peeked := none
  depth := 0
  inFunction := scope.inFunction
  inAsync := scope.inAsync
  noIn := scope.noIn
  rejectedHeads := []

/-- No head is remembered as rejected that is accepted. -/
def Clear (verdicts : Set Verdict) (heads : List Nat) : Prop :=
  ∀ offset ∈ heads, ⟨offset, true⟩ ∉ verdicts

/-- Whatever head is remembered later was remembered before or is rejected. -/
def Learned (verdicts : Set Verdict) (heads later : List Nat) : Prop :=
  ∀ offset ∈ later, offset ∈ heads ∨ ⟨offset, false⟩ ∈ verdicts

variable {settings : Settings} {point middle : Point} {scope : Scope}
  {verdicts more : Set Verdict} {heads : List Nat} {Value Other : Type}

inductive Result.Shows (settings : Settings) (scope : Scope) (verdicts : Set Verdict)
    (heads : List Nat) : Result Value → Outcome Value → Prop where
  | ok {value : Value} {last : Point} {after : State} (stands : after.At settings last scope)
      (learned : Learned verdicts heads after.rejectedHeads) :
      Shows settings scope verdicts heads (.ok value last) (.ok value after)
  | error {fault : SyntaxError} {after : State} (kept : after.scope = scope)
      (learned : Learned verdicts heads after.rejectedHeads) :
      Shows settings scope verdicts heads (.error fault) (.error fault after)

/-- A step comes to a result from every state at a point, with or without a
use of rejected heads. -/
def Runs (settings : Settings) (step : Parse Value) (point : Point) (scope : Scope)
    (verdicts : Set Verdict) (result : Result Value) : Prop :=
  ∀ (recalls : Bool) (state : State), state.At settings point scope →
    (recalls = true → Clear verdicts state.rejectedHeads) →
    result.Shows settings scope verdicts state.rejectedHeads
      (step (settings.recalling recalls) state)

/-- A step is foretold by verdicts from an offset on.  If it succeeds they lie
before its end. -/
structure Foretold (settings : Settings) (start : Nat) (step : Parse Value) (point : Point)
    (scope : Scope) (verdicts : Set Verdict) (result : Result Value) : Prop where
  consistent : verdicts.InjOn Verdict.offset
  late : ∀ verdict ∈ verdicts, start ≤ verdict.offset
  early : ∀ {value : Value} {last : Point}, result = .ok value last →
    Place.On settings.source last.place ∧ start ≤ last.place.offset ∧
      ∀ verdict ∈ verdicts, verdict.offset < last.place.offset
  runs : Runs settings step point scope verdicts result

/-- Verdicts before an offset do not contradict those behind it. -/
theorem consistent_union {offset : Nat} (first : verdicts.InjOn Verdict.offset)
    (second : more.InjOn Verdict.offset)
    (before : ∀ verdict ∈ verdicts, verdict.offset < offset)
    (behind : ∀ verdict ∈ more, offset ≤ verdict.offset) :
    (verdicts ∪ more).InjOn Verdict.offset := by
  intro one oneIn two twoIn same
  rcases oneIn with oneIn | oneIn <;> rcases twoIn with twoIn | twoIn
  · exact first oneIn twoIn same
  · have := before one oneIn
    have := behind two twoIn
    omega
  · have := before two twoIn
    have := behind one oneIn
    omega
  · exact second oneIn twoIn same

/-! ## States at a point -/

namespace State.At

variable {state : State} {token : Token}

theorem self (valid : state.Valid settings) : state.At settings state.point state.scope :=
  ⟨valid, rfl, rfl⟩

theorem look (stands : state.At settings point scope)
    (next : point.next settings.dialect = .ok token) :
    (state.look token).At settings point scope := by
  obtain ⟨valid, rfl, rfl⟩ := stands
  refine ⟨fun found same => ?_, rfl, rfl⟩
  cases same
  exact next

theorem moveTo (stands : state.At settings point scope) (place : Place) (patternAllowed : Bool) :
    (state.moveTo place patternAllowed).At settings ⟨place, patternAllowed⟩ scope :=
  ⟨nofun, rfl, stands.scope⟩

theorem pass (stands : state.At settings point scope) (token : Token) :
    (state.pass token).At settings (.after token) scope :=
  stands.moveTo _ _

theorem deepen (stands : state.At settings point scope) (depth : Nat) :
    State.At settings point scope { state with depth } :=
  ⟨stands.valid, stands.point, stands.scope⟩

theorem faces (stands : state.At settings point scope)
    (next : point.next settings.dialect = .ok token) (recalls : Bool) :
    Faces (settings.recalling recalls) state token := by
  obtain ⟨valid, rfl, rfl⟩ := stands
  exact ⟨valid, next⟩

theorem stands (stands : state.At settings point scope) (on : Place.On settings.source point.place)
    (recalls : Bool) : state.Stands (settings.recalling recalls) := by
  obtain ⟨valid, rfl, rfl⟩ := stands
  exact ⟨valid, on⟩

/-- Looking ahead fails in a state where no token can be scanned. -/
theorem peek_stops (stands : state.At settings point scope) {fault : SyntaxError}
    (stops : point.next settings.dialect = .error fault) (recalls : Bool) :
    peek (settings.recalling recalls) state = .error fault state := by
  obtain ⟨valid, rfl, rfl⟩ := stands
  have same : state.point.next (settings.recalling recalls).dialect = .error fault := stops
  refine Grammar.peek_stops same ?_
  cases looked : state.peeked with
  | none => rfl
  | some token =>
      have found := valid token looked
      rw [stops] at found
      cases found

end State.At

/-! ## Memories -/

theorem Clear.mono (clear : Clear more heads) (le : verdicts ⊆ more) : Clear verdicts heads :=
  fun offset known accepted => clear offset known (le accepted)

theorem Learned.refl (verdicts : Set Verdict) (heads : List Nat) : Learned verdicts heads heads :=
  fun _ => .inl

theorem Learned.mono {later : List Nat} (learned : Learned verdicts heads later)
    (le : verdicts ⊆ more) : Learned more heads later :=
  fun offset known => (learned offset known).imp_right fun rejected => le rejected

theorem Learned.trans {later last : List Nat} (first : Learned verdicts heads later)
    (second : Learned verdicts later last) : Learned verdicts heads last := by
  intro offset known
  rcases second offset known with known | rejected
  · exact first offset known
  · exact .inr rejected

/-- Verdicts that do not contradict each other keep a memory clear. -/
theorem Clear.learned {later : List Nat} (consistent : verdicts.InjOn Verdict.offset)
    (clear : Clear verdicts heads) (learned : Learned verdicts heads later) :
    Clear verdicts later := by
  intro offset known accepted
  rcases learned offset known with known | rejected
  · exact clear offset known accepted
  · cases consistent accepted rejected rfl

namespace Result.Shows

variable {result : Result Value} {outcome : Outcome Value}

theorem mono (agrees : result.Shows settings scope verdicts heads outcome)
    (le : verdicts ⊆ more) : result.Shows settings scope more heads outcome := by
  cases agrees with
  | ok stands learned => exact .ok stands (learned.mono le)
  | error kept learned => exact .error kept (learned.mono le)

/-- Whatever is learned first can be counted in. -/
theorem behind {later : List Nat} (agrees : result.Shows settings scope verdicts later outcome)
    (learned : Learned verdicts heads later) :
    result.Shows settings scope verdicts heads outcome := by
  cases agrees with
  | ok stands more => exact .ok stands (learned.trans more)
  | error kept more => exact .error kept (learned.trans more)

end Result.Shows

namespace Runs

variable {result : Result Value} {step : Parse Value}

theorem mono (runs : Runs settings step point scope verdicts result) (le : verdicts ⊆ more) :
    Runs settings step point scope more result :=
  fun recalls state stands clear =>
    (runs recalls state stands fun recalled => (clear recalled).mono le).mono le

/-- A step does what another one does from a state at another point. -/
theorem jump {other : Parse Value} (runs : Runs settings other middle scope verdicts result)
    (same : ∀ (recalls : Bool) (state : State), state.At settings point scope →
      ∃ after : State, after.At settings middle scope ∧
        after.rejectedHeads = state.rejectedHeads ∧
        step (settings.recalling recalls) state = other (settings.recalling recalls) after) :
    Runs settings step point scope verdicts result := by
  intro recalls state stands clear
  obtain ⟨after, afterStands, memory, run⟩ := same recalls state stands
  rw [run, ← memory]
  exact runs recalls after afterStands fun recalled => memory ▸ clear recalled

theorem bind {first : Parse Other} {next : Other → Parse Value} {value : Other}
    (consistent : verdicts.InjOn Verdict.offset)
    (firstRuns : Runs settings first point scope verdicts (.ok value middle))
    (nextRuns : Runs settings (next value) middle scope verdicts result) :
    Runs settings (first >>= next) point scope verdicts result := by
  intro recalls state stands clear
  have firstShows := firstRuns recalls state stands clear
  change result.Shows settings scope verdicts _ (Parse.bind first next _ state)
  unfold Parse.bind
  generalize first (settings.recalling recalls) state = outcome at firstShows
  cases firstShows with
  | ok afterStands learned =>
      have nextShows := nextRuns recalls _ afterStands fun recalled =>
        (clear recalled).learned consistent learned
      exact nextShows.behind learned

theorem bind_error {first : Parse Other} {next : Other → Parse Value} {fault : SyntaxError}
    (runs : Runs settings first point scope verdicts (.error fault)) :
    Runs settings (first >>= next) point scope verdicts (.error fault) := by
  intro recalls state stands clear
  have firstShows := runs recalls state stands clear
  change Result.Shows settings scope verdicts _ _ (Parse.bind first next _ state)
  unfold Parse.bind
  generalize first (settings.recalling recalls) state = outcome at firstShows
  cases firstShows with
  | error kept learned => exact .error kept learned

theorem nested (unbounded : settings.limit = none)
    (runs : Runs settings step point scope verdicts result) :
    Runs settings (Parse.nested step) point scope verdicts result := by
  intro recalls state stands clear
  have inner := runs recalls { state with depth := state.depth + 1 } (stands.deepen _) clear
  have free : (settings.recalling recalls).limit = none := unbounded
  unfold Parse.nested
  simp only [free]
  generalize step (settings.recalling recalls) _ = outcome at inner
  cases inner with
  | ok afterStands learned => exact .ok (afterStands.deepen _) learned
  | error kept learned => exact .error kept learned

end Runs

/-! ## Scopes -/

namespace Shift

variable {state before after : State}

theorem at_enter (shift : Shift) (stands : state.At settings point scope) :
    (shift.enter state).At settings point (shift.scope scope) := by
  obtain ⟨valid, rfl, rfl⟩ := stands
  cases shift <;> exact ⟨valid, rfl, rfl⟩

@[simp]
theorem heads_enter (shift : Shift) (state : State) :
    (shift.enter state).rejectedHeads = state.rejectedHeads := by
  cases shift <;> rfl

@[simp]
theorem heads_leave (shift : Shift) (before after : State) :
    (shift.leave before after).rejectedHeads = after.rejectedHeads := by
  cases shift <;> rfl

/-- Behind a step the scope is what it was before it. -/
theorem scope_leave (shift : Shift) (kept : after.scope = shift.scope before.scope) :
    (shift.leave before after).scope = before.scope := by
  cases shift with
  | noIn ends => simp_all [Shift.scope, Scope.withNoIn, State.scope, leave]
  | async inAsync => simp_all [Shift.scope, Scope.withAsync, State.scope, leave]
  | functionBody inAsync => rfl

theorem at_leave (shift : Shift) (kept : before.scope = scope)
    (stands : after.At settings point (shift.scope scope)) :
    (shift.leave before after).At settings point scope := by
  obtain ⟨valid, rfl, inside⟩ := stands
  subst kept
  refine ⟨?_, ?_, shift.scope_leave inside⟩
  · cases shift <;> exact valid
  · cases shift <;> rfl

end Shift

theorem Runs.around {result : Result Value} {step : Parse Value} (shift : Shift)
    (runs : Runs settings step point (shift.scope scope) verdicts result) :
    Runs settings (shift.around step) point scope verdicts result := by
  intro recalls state stands clear
  have inner := runs recalls (shift.enter state) (shift.at_enter stands) (by simpa using clear)
  rw [shift.around_eq]
  generalize step (settings.recalling recalls) (shift.enter state) = outcome at inner
  rw [shift.heads_enter] at inner
  cases inner with
  | ok afterStands learned =>
      exact .ok (shift.at_leave stands.scope afterStands) (by simpa using learned)
  | error kept learned =>
      refine .error ?_ (by simpa using learned)
      rw [shift.scope_leave (kept.trans (congrArg shift.scope stands.scope.symm)), stands.scope]

/-! ## Foretelling one step after another -/

namespace Foretold

variable {start : Nat} {result : Result Value} {step : Parse Value}

theorem weaken {earlier : Nat} (foretold : Foretold settings start step point scope verdicts result)
    (le : earlier ≤ start) : Foretold settings earlier step point scope verdicts result where
  consistent := foretold.consistent
  late verdict passed := le.trans (foretold.late verdict passed)
  early same := by
    obtain ⟨on, behind, before⟩ := foretold.early same
    exact ⟨on, le.trans behind, before⟩
  runs := foretold.runs

/-- A step that tries no heads and moves nowhere before an offset. -/
theorem silent (runs : Runs settings step point scope ∅ result)
    (ends : ∀ {value : Value} {last : Point}, result = .ok value last →
      Place.On settings.source last.place ∧ start ≤ last.place.offset) :
    Foretold settings start step point scope ∅ result where
  consistent := Set.injOn_empty _
  late _ passed := passed.elim
  early same := ⟨(ends same).1, (ends same).2, fun _ passed => passed.elim⟩
  runs := runs

theorem pure {value : Value} (on : Place.On settings.source point.place) :
    Foretold settings point.place.offset (Pure.pure value) point scope ∅ (.ok value point) :=
  .silent (fun _ _ stands _ => .ok stands (.refl _ _)) fun same => by
    cases same
    exact ⟨on, le_rfl⟩

/-- A step that fails without trying a head. -/
theorem stops (fault : SyntaxError)
    (fails : ∀ (recalls : Bool) (state : State), state.At settings point scope →
      ∃ after : State, after.scope = scope ∧ after.rejectedHeads = state.rejectedHeads ∧
        step (settings.recalling recalls) state = .error fault after) :
    Foretold settings start step point scope ∅ (.error fault) := by
  refine .silent (fun recalls state stands _ => ?_) nofun
  obtain ⟨after, kept, memory, run⟩ := fails recalls state stands
  rw [run]
  exact .error kept (memory ▸ .refl _ _)

/-- A step that fails may be foretold by more verdicts. -/
theorem covering {fault : SyntaxError}
    (foretold : Foretold settings start step point scope verdicts (.error fault))
    (le : verdicts ⊆ more) (consistent : more.InjOn Verdict.offset)
    (late : ∀ verdict ∈ more, start ≤ verdict.offset) :
    Foretold settings start step point scope more (.error fault) where
  consistent := consistent
  late := late
  early := nofun
  runs := foretold.runs.mono le

theorem jump {other : Parse Value}
    (foretold : Foretold settings start other middle scope verdicts result)
    (same : ∀ (recalls : Bool) (state : State), state.At settings point scope →
      ∃ after : State, after.At settings middle scope ∧
        after.rejectedHeads = state.rejectedHeads ∧
        step (settings.recalling recalls) state = other (settings.recalling recalls) after) :
    Foretold settings start step point scope verdicts result :=
  { foretold with runs := foretold.runs.jump same }

theorem nested (unbounded : settings.limit = none)
    (foretold : Foretold settings start step point scope verdicts result) :
    Foretold settings start (Parse.nested step) point scope verdicts result :=
  { foretold with runs := foretold.runs.nested unbounded }

theorem around (shift : Shift)
    (foretold : Foretold settings start step point (shift.scope scope) verdicts result) :
    Foretold settings start (shift.around step) point scope verdicts result :=
  { foretold with runs := foretold.runs.around shift }

/-- The verdicts of one step lie before those of the next. -/
theorem bind {first : Parse Other} {next : Other → Parse Value} {value : Other}
    (firstForetold : Foretold settings start first point scope verdicts (.ok value middle))
    (nextForetold : Foretold settings middle.place.offset (next value) middle scope more result) :
    Foretold settings start (first >>= next) point scope (verdicts ∪ more) result := by
  obtain ⟨-, behind, before⟩ := firstForetold.early rfl
  have consistent : (verdicts ∪ more).InjOn Verdict.offset :=
    consistent_union firstForetold.consistent nextForetold.consistent before nextForetold.late
  refine ⟨consistent, ?_, fun same => ?_, ?_⟩
  · rintro verdict (passed | passed)
    · exact firstForetold.late verdict passed
    · exact behind.trans (nextForetold.late verdict passed)
  · obtain ⟨on, le, later⟩ := nextForetold.early same
    refine ⟨on, behind.trans le, ?_⟩
    rintro verdict (passed | passed)
    · exact lt_of_lt_of_le (before verdict passed) le
    · exact later verdict passed
  · exact .bind consistent (firstForetold.runs.mono Set.subset_union_left)
      (nextForetold.runs.mono Set.subset_union_right)

theorem bind_error {first : Parse Other} {next : Other → Parse Value} {fault : SyntaxError}
    (foretold : Foretold settings start first point scope verdicts (.error fault)) :
    Foretold settings start (first >>= next) point scope verdicts (.error fault) where
  consistent := foretold.consistent
  late := foretold.late
  early := nofun
  runs := foretold.runs.bind_error

end Foretold

/-! ## Steps that can be foretold -/

/-- A step can be foretold by verdicts that cover the given ones and are taken
from some others. -/
def Foretells (settings : Settings) (start : Nat) (given most : Set Verdict) (step : Parse Value)
    (point : Point) (scope : Scope) : Prop :=
  ∃ verdicts result, given ⊆ verdicts ∧ verdicts ⊆ most ∧
    Foretold settings start step point scope verdicts result

/-- From an offset on, a step can be foretold wherever it starts. -/
def Steady (settings : Settings) (most : Set Verdict) (start : Nat) (step : Parse Value) : Prop :=
  ∀ (point : Point) (scope : Scope), Place.On settings.source point.place →
    start ≤ point.place.offset → Foretells settings point.place.offset ∅ most step point scope

section

variable {start : Nat} {given most : Set Verdict} {step : Parse Value}

theorem Foretold.foretells {result : Result Value}
    (foretold : Foretold settings start step point scope verdicts result)
    (least : given ⊆ verdicts) (among : verdicts ⊆ most) :
    Foretells settings start given most step point scope :=
  ⟨_, _, least, among, foretold⟩

/-- Where a step ends, the next one is foretold together with it. -/
theorem Foretold.foretells_bind {first : Parse Other} {next : Other → Parse Value} {value : Other}
    (foretold : Foretold settings start first point scope verdicts (.ok value middle))
    (foretells : Foretells settings middle.place.offset given most (next value) middle scope)
    (among : verdicts ⊆ most) :
    Foretells settings start (verdicts ∪ given) most (first >>= next) point scope := by
  obtain ⟨later, result, least, within, nextForetold⟩ := foretells
  exact (foretold.bind nextForetold).foretells (Set.union_subset_union_right _ least)
    (Set.union_subset among within)

namespace Foretells

theorem weaken {earlier : Nat} (foretells : Foretells settings start given most step point scope)
    (le : earlier ≤ start) : Foretells settings earlier given most step point scope := by
  obtain ⟨verdicts, result, least, among, foretold⟩ := foretells
  exact (foretold.weaken le).foretells least among

theorem jump {other : Parse Value}
    (foretells : Foretells settings start given most other middle scope)
    (same : ∀ (recalls : Bool) (state : State), state.At settings point scope →
      ∃ after : State, after.At settings middle scope ∧
        after.rejectedHeads = state.rejectedHeads ∧
        step (settings.recalling recalls) state = other (settings.recalling recalls) after) :
    Foretells settings start given most step point scope := by
  obtain ⟨verdicts, result, least, among, foretold⟩ := foretells
  exact (foretold.jump same).foretells least among

theorem nested (unbounded : settings.limit = none)
    (foretells : Foretells settings start given most step point scope) :
    Foretells settings start given most (Parse.nested step) point scope := by
  obtain ⟨verdicts, result, least, among, foretold⟩ := foretells
  exact (foretold.nested unbounded).foretells least among

theorem around (shift : Shift)
    (foretells : Foretells settings start given most step point (shift.scope scope)) :
    Foretells settings start given most (shift.around step) point scope := by
  obtain ⟨verdicts, result, least, among, foretold⟩ := foretells
  exact (foretold.around shift).foretells least among

theorem bind {first : Parse Other} {next : Other → Parse Value}
    (foretells : Foretells settings start given most first point scope)
    (steady : ∀ value, Steady settings most start (next value)) :
    Foretells settings start given most (first >>= next) point scope := by
  obtain ⟨verdicts, result, least, among, foretold⟩ := foretells
  cases result with
  | error fault => exact foretold.bind_error.foretells least among
  | ok value last =>
      obtain ⟨on, le, -⟩ := foretold.early rfl
      obtain ⟨later, _, -, within, nextForetold⟩ := steady value last scope on le
      exact (foretold.bind nextForetold).foretells (least.trans Set.subset_union_left)
        (Set.union_subset among within)

end Foretells

namespace Steady

theorem later {more : Nat} (steady : Steady settings most start step) (le : start ≤ more) :
    Steady settings most more step :=
  fun point scope on late => steady point scope on (le.trans late)

/-- A step that tries no heads and stays where it is, or fails. -/
theorem stays (runs : ∀ (point : Point) (scope : Scope),
      (∃ value, Runs settings step point scope ∅ (.ok value point)) ∨
        ∃ fault, Runs settings step point scope ∅ (.error fault)) :
    Steady settings most start step := by
  intro point scope on _
  rcases runs point scope with ⟨value, runs⟩ | ⟨fault, runs⟩
  · have ends : Foretold settings point.place.offset step point scope ∅ (.ok value point) :=
      .silent runs fun same => by
        cases same
        exact ⟨on, le_rfl⟩
    exact ends.foretells le_rfl (Set.empty_subset _)
  · have ends : Foretold settings point.place.offset step point scope ∅ (.error fault) :=
      .silent runs nofun
    exact ends.foretells le_rfl (Set.empty_subset _)

theorem pure (value : Value) : Steady settings most start (Pure.pure value) :=
  stays fun _ _ => .inl ⟨value, fun _ _ stands _ => .ok stands (.refl _ _)⟩

theorem fail (fault : SyntaxError) : Steady settings most start (Parse.fail fault : Parse Value) :=
  stays fun _ _ => .inr ⟨fault, fun _ _ stands _ => .error stands.scope (.refl _ _)⟩

theorem peek : Steady settings most start Grammar.peek := by
  refine stays fun point scope => ?_
  cases next : point.next settings.dialect with
  | ok token =>
      refine .inl ⟨token, fun recalls state stands _ => ?_⟩
      rw [peek_run (stands.faces next recalls)]
      exact .ok (stands.look next) (.refl _ _)
  | error fault =>
      refine .inr ⟨fault, fun recalls state stands _ => ?_⟩
      rw [stands.peek_stops next recalls]
      exact .error stands.scope (.refl _ _)

theorem bind {first : Parse Other} {next : Other → Parse Value}
    (firstSteady : Steady settings most start first)
    (nextSteady : ∀ value, Steady settings most start (next value)) :
    Steady settings most start (first >>= next) := by
  intro point scope on late
  refine (firstSteady point scope on late).bind fun value other inside otherOn otherLate => ?_
  exact nextSteady value other inside otherOn (late.trans otherLate)

theorem peekSecond : Steady settings most start Grammar.peekSecond := by
  refine peek.bind fun first => stays fun point scope => ?_
  cases scanned : Token.scan settings.dialect first.stop first.kind.allowsPatternAfter with
  | ok token =>
      refine .inl ⟨token, fun recalls state stands _ => ?_⟩
      change Result.Shows settings _ _ _ _
        (ofScan (Token.scan settings.dialect first.stop _) (settings.recalling recalls) state)
      rw [scanned]
      exact .ok stands (.refl _ _)
  | error fault =>
      refine .inr ⟨fault, fun recalls state stands _ => ?_⟩
      change Result.Shows settings _ _ _ _
        (ofScan (Token.scan settings.dialect first.stop _) (settings.recalling recalls) state)
      rw [scanned]
      exact .error stands.scope (.refl _ _)

theorem advance : Steady settings most start Grammar.advance := by
  intro point scope on late
  cases next : point.next settings.dialect with
  | ok token =>
      obtain ⟨onToken, gap, covers, -⟩ := Point.on_after on next
      have runs : Runs settings Grammar.advance point scope ∅ (.ok token (.after token)) := by
        intro recalls state stands _
        unfold Grammar.advance
        rw [bind_run (peek_run (stands.faces next recalls))]
        exact .ok (stands.pass token) (.refl _ _)
      have passes : Foretold settings point.place.offset Grammar.advance point scope ∅
          (.ok token (.after token)) := .silent runs fun same => by
        cases same
        exact ⟨onToken, gap.trans covers⟩
      exact passes.foretells le_rfl (Set.empty_subset _)
  | error fault =>
      have runs : Runs settings Grammar.advance point scope ∅ (.error fault) := by
        intro recalls state stands _
        unfold Grammar.advance
        rw [bind_stops (stands.peek_stops next recalls)]
        exact .error stands.scope (.refl _ _)
      have stops : Foretold settings point.place.offset Grammar.advance point scope ∅
          (.error fault) := .silent runs nofun
      exact stops.foretells le_rfl (Set.empty_subset _)

theorem piece (sized : settings.size = Text.size settings.source) :
    Steady settings most start Grammar.piece := by
  intro point scope on late
  have jumps (allowed : Bool) {mark : Mark} {stop : Nat}
      (found : point.chunk settings.size = some ⟨mark, stop⟩)
      (run : ∀ (recalls : Bool) (state : State), state.point = point →
        Grammar.piece (settings.recalling recalls) state =
          .ok (some (mark, ⟨point.place.offset, stop⟩))
            (state.moveTo (point.place.moveTo stop) allowed)) :
      Foretells settings point.place.offset ∅ most Grammar.piece point scope := by
    obtain ⟨onStop, further⟩ := Point.on_jump sized on found
    have runs : Runs settings Grammar.piece point scope ∅
        (.ok (some (mark, ⟨point.place.offset, stop⟩))
          ⟨point.place.moveTo stop, allowed⟩) := by
      intro recalls state stands _
      rw [run recalls state stands.point]
      exact .ok (stands.moveTo _ _) (.refl _ _)
    have passes : Foretold settings point.place.offset Grammar.piece point scope ∅
        (.ok (some (mark, ⟨point.place.offset, stop⟩)) ⟨point.place.moveTo stop, allowed⟩) :=
      .silent runs fun same => by
        cases same
        exact ⟨onStop, further.le⟩
    exact passes.foretells le_rfl (Set.empty_subset _)
  have stays (nothing : ∀ (recalls : Bool) (state : State), state.point = point →
      Grammar.piece (settings.recalling recalls) state = .ok none state) :
      Foretells settings point.place.offset ∅ most Grammar.piece point scope := by
    refine (Steady.pure none point scope on late).jump fun recalls state stands => ?_
    exact ⟨state, stands, rfl, nothing recalls state stands.point⟩
  have chunk (recalls : Bool) {state : State} (same : state.point = point) :
      state.point.chunk (settings.recalling recalls).size = point.chunk settings.size := by
    rw [same]
    rfl
  cases found : point.chunk settings.size with
  | none =>
      refine stays fun recalls state same => ?_
      unfold Grammar.piece
      rw [chunk recalls same, found]
  | some known =>
      obtain ⟨mark, stop⟩ := known
      cases mark
      case templateText | templateEnd =>
        refine jumps false found fun recalls state same => ?_
        unfold Grammar.piece
        rw [chunk recalls same, found]
        subst same
        rfl
      case holeOpen =>
        refine jumps true found fun recalls state same => ?_
        unfold Grammar.piece
        rw [chunk recalls same, found]
        subst same
        rfl
      all_goals
        refine stays fun recalls state same => ?_
        unfold Grammar.piece
        rw [chunk recalls same, found]

/-- A loop can be foretold if its rounds can. -/
theorem iterate {Progress : Type} {round : Progress → Parse (Round Progress Value)}
    (steady : ∀ progress, Steady settings most start (round progress)) (rounds : Nat)
    (first : Progress) : Steady settings most start (Grammar.iterate round rounds first) := by
  induction rounds generalizing first with
  | zero => exact fail stalled
  | succ rounds ih =>
      rw [iterate_succ]
      refine (steady first).bind fun result => ?_
      cases result with
      | again progress => exact ih progress
      | done value => exact pure value

end Steady

/-- Whatever is assembled without arrow functions can be foretold if its
recursive calls can. -/
theorem Assembled.steady (unbounded : settings.limit = none)
    (sized : settings.size = Text.size settings.source) {descent : Descent}
    (reads : ∀ goal, Steady settings most start (descent.read goal))
    {assembled : Descent → Parse Value} (isAssembled : Assembled (.lax False) assembled) :
    Steady settings most start (assembled descent) := by
  induction isAssembled with
  | pure value => exact .pure value
  | bind _ _ firstIh nextIh => exact firstIh.bind nextIh
  | fail | failAt => exact .fail _
  | look _ ih => exact Steady.peek.bind fun token => ih token trivial
  | peekSecond => exact .peekSecond
  | advance => exact .advance
  | piece => exact .piece sized
  | settings _ same ih =>
      intro point scope on late
      refine (ih settings point scope on late).jump fun recalls state stands => ?_
      have alike := same settings settings.dialect settings.limit recalls
      exact ⟨state, stands, rfl, congrFun (congrFun (congrFun alike _) _) _⟩
  | state _ same ih =>
      intro point scope on late
      refine (ih (point.state scope) point scope on late).jump fun recalls state stands => ?_
      have alike := same state (point.state scope) stands.point stands.scope
      exact ⟨state, stands, rfl, congrFun (congrFun (congrFun alike _) _) _⟩
  | read goal => exact reads goal
  | around shift _ ih => exact fun point scope on late => (ih point _ on late).around shift
  | nested _ ih => exact fun point scope on late => (ih point scope on late).nested unbounded
  | loop _ _ first ih => exact .iterate ih _ first
  | chunked _ _ _ _ _ ih =>
      rw [template_pieces]
      exact ih trivial
  | arrow never => exact False.elim never

end

end Grammar

end ScriptTree
