import ScriptTree.Proofs.Grammar.Derivation

/-!
# Moving forward

Whatever is read for a goal covers at least one token.  A goal is asked for
behind the first token of the production, unless it is an assignment that an
expression or a statement starts with.
-/

namespace ScriptTree

namespace Grammar

/-- A goal is asked for only by a goal of higher rank at the same place. -/
def Goal.rank : Goal → Nat
  | .statement | .expression => 1
  | _ => 0

variable {settings : Settings} {category : Category} {point last : Point}

/-! ## Tokens and chunks -/

theorem Point.on_after {token : Token} (on : Place.On settings.source point.place)
    (scanned : point.next settings.dialect = .ok token) :
    Place.On settings.source token.stop ∧ point.place.offset ≤ token.start.offset ∧
      token.start.offset ≤ token.stop.offset ∧
      (token.isEnd = false → token.start.offset < token.stop.offset) := by
  have isScanned := Token.scan_scanned scanned
  obtain ⟨skipped, toStart, -⟩ := Trivia.skip_reaches isScanned.skipped
  refine ⟨(on.after toStart).after isScanned.covers, toStart.offset_le,
    isScanned.covers.offset_le, fun notEnd => ?_⟩
  exact isScanned.covers.offset_lt (isScanned.nonempty notEnd)

theorem Point.on_jump (sized : settings.size = Text.size settings.source) {mark : Mark}
    {stop : Nat} (on : Place.On settings.source point.place)
    (found : point.chunk settings.size = some ⟨mark, stop⟩) :
    Place.On settings.source (point.place.moveTo stop) ∧
      point.place.offset < (point.place.moveTo stop).offset := by
  unfold Point.chunk at found
  rw [sized] at found
  obtain ⟨text, chunk, -⟩ := Recognizer.template_chunk on found
  exact ⟨on.after chunk.covers, chunk.covers.offset_lt chunk.nonempty⟩

theorem isEnd_of_punctuator {token : Token} {sign : Punctuator}
    (isSign : token.isPunctuator sign = true) : token.isEnd = false := by
  have admits : (Kind.fixed (.punctuator sign)).admits token = true := isSign
  exact admits_notEnd admits

/-- A point lies behind the token that is scanned at another one. -/
def Point.Passes (dialect : Dialect) (point last : Point) : Prop :=
  ∃ token, point.next dialect = .ok token ∧ token.isEnd = false ∧
    token.stop.offset ≤ last.place.offset

/-- A point is the same as another one, or lies behind the token there. -/
def Point.Onward (dialect : Dialect) (point last : Point) : Prop :=
  last = point ∨ point.Passes dialect last

namespace Point.Passes

variable {dialect : Dialect} {middle : Point}

theorem lt (on : Place.On settings.source point.place)
    (passes : point.Passes settings.dialect last) :
    point.place.offset < last.place.offset := by
  obtain ⟨token, scanned, notEnd, behind⟩ := passes
  obtain ⟨-, gap, -, covers⟩ := Point.on_after on scanned
  exact lt_of_le_of_lt gap (lt_of_lt_of_le (covers notEnd) behind)

theorem further (passes : point.Passes dialect middle)
    (le : middle.place.offset ≤ last.place.offset) : point.Passes dialect last := by
  obtain ⟨token, scanned, notEnd, behind⟩ := passes
  exact ⟨token, scanned, notEnd, behind.trans le⟩

end Point.Passes

namespace Point.Onward

variable {middle : Point}

theorem le (on : Place.On settings.source point.place)
    (onward : point.Onward settings.dialect last) :
    point.place.offset ≤ last.place.offset := by
  rcases onward with rfl | passes
  · exact le_rfl
  · exact (passes.lt on).le

theorem passes (onward : point.Onward settings.dialect middle)
    (later : middle.Passes settings.dialect last) (on : Place.On settings.source middle.place) :
    point.Passes settings.dialect last := by
  rcases onward with rfl | earlier
  · exact later
  · exact earlier.further (later.lt on).le

theorem trans (onward : point.Onward settings.dialect middle)
    (later : middle.Onward settings.dialect last) (on : Place.On settings.source middle.place) :
    point.Onward settings.dialect last := by
  rcases later with rfl | passes
  · exact onward
  · exact .inr (onward.passes passes on)

end Point.Onward

/-- Whatever is read in the text covers the next token. -/
def forward (settings : Settings) : Category :=
  fun _ _ point _ last => Place.On settings.source point.place →
    Place.On settings.source last.place ∧ point.Passes settings.dialect last

namespace Phrase

/-- Some token is read in any case. -/
def Advances : Phrase → Prop
  | .take _ | .ask _ | .template => True
  | .done | .reduce _ | .many _ => False
  | .sub inner | .within _ inner => inner.Advances
  | .seq first second => first.Advances ∨ second.Advances
  | .either first second => first.Advances ∧ second.Advances
  | .given holds => ∀ settings scope point trees, ¬holds settings scope point trees
  | .byKind family => ∀ kind, (family kind).Advances

/-- What is asked for before any token is read is allowed there. -/
def Begins (allowed : Goal → Prop) : Phrase → Prop
  | .ask goal => allowed goal
  | .sub inner | .within _ inner | .many inner => inner.Begins allowed
  | .seq first second => first.Begins allowed ∧ (first.Advances ∨ second.Begins allowed)
  | .either first second => first.Begins allowed ∧ second.Begins allowed
  | .byKind family => ∀ kind, (family kind).Begins allowed
  | .done | .take _ | .reduce _ | .given _ | .template => True

theorem chunks_forward (sized : settings.size = Text.size settings.source)
    (asked : ∀ {goal scope point tree last}, category goal scope point tree last →
      forward settings goal scope point tree last) {scope : Scope} {trees : List SyntaxTree}
    (chunks : Chunks settings category scope point trees last)
    (on : Place.On settings.source point.place) :
    Place.On settings.source last.place ∧ point.place.offset < last.place.offset := by
  induction chunks with
  | close found => exact Point.on_jump sized on found
  | text found later ih =>
      obtain ⟨onNext, next⟩ := Point.on_jump sized on found
      obtain ⟨onLast, more⟩ := ih onNext
      exact ⟨onLast, next.trans more⟩
  | hole found filled scanned closes later ih =>
      obtain ⟨onHole, hole⟩ := Point.on_jump sized on found
      obtain ⟨onBehind, inner⟩ := asked filled onHole
      obtain ⟨onBrace, gap, brace, -⟩ := Point.on_after onBehind scanned
      obtain ⟨onLast, more⟩ := ih onBrace
      refine ⟨onLast, hole.trans ((inner.lt onHole).trans (lt_of_le_of_lt ?_ more))⟩
      exact gap.trans brace

/-- A phrase leads forward in the text. -/
theorem reads_forward (sized : settings.size = Text.size settings.source)
    (asked : ∀ {goal scope point tree last}, category goal scope point tree last →
      forward settings goal scope point tree last)
    {phrase : Phrase} {scope : Scope} {before trees : List SyntaxTree}
    (reads : phrase.Reads settings category scope point before last trees)
    (on : Place.On settings.source point.place) :
    Place.On settings.source last.place ∧ point.Onward settings.dialect last ∧
      (phrase.Advances → point.Passes settings.dialect last) := by
  induction phrase generalizing scope point last before trees with
  | done =>
      obtain ⟨rfl, -⟩ := reads
      exact ⟨on, .inl rfl, False.elim⟩
  | take kind =>
      obtain ⟨token, scanned, admits, rfl, -⟩ := reads
      obtain ⟨onLast, -⟩ := Point.on_after on scanned
      have passes : point.Passes settings.dialect (.after token) :=
        ⟨token, scanned, admits_notEnd admits, le_rfl⟩
      exact ⟨onLast, .inr passes, fun _ => passes⟩
  | ask goal =>
      obtain ⟨tree, member, -⟩ := reads
      obtain ⟨onLast, passes⟩ := asked member on
      exact ⟨onLast, .inr passes, fun _ => passes⟩
  | sub inner ih =>
      obtain ⟨added, reads, -⟩ := reads
      exact ih reads on
  | reduce rule =>
      obtain ⟨rfl, -⟩ := reads
      exact ⟨on, .inl rfl, False.elim⟩
  | seq first second firstIh secondIh =>
      obtain ⟨middle, between, firstReads, secondReads⟩ := reads
      obtain ⟨onMiddle, toMiddle, early⟩ := firstIh firstReads on
      obtain ⟨onLast, toLast, late⟩ := secondIh secondReads onMiddle
      refine ⟨onLast, toMiddle.trans toLast onMiddle, ?_⟩
      rintro (advances | advances)
      · exact (early advances).further (toLast.le onMiddle)
      · exact toMiddle.passes (late advances) onMiddle
  | either first second firstIh secondIh =>
      rcases reads with reads | reads
      · obtain ⟨onLast, onward, passes⟩ := firstIh reads on
        exact ⟨onLast, onward, fun both => passes both.1⟩
      · obtain ⟨onLast, onward, passes⟩ := secondIh reads on
        exact ⟨onLast, onward, fun both => passes both.2⟩
  | many inner ih =>
      induction reads using Reads.rounds with
      | start => exact ⟨on, .inl rfl, False.elim⟩
      | round _ step earlier =>
          obtain ⟨onMiddle, onward, -⟩ := earlier
          obtain ⟨onLast, more, -⟩ := ih step onMiddle
          exact ⟨onLast, onward.trans more onMiddle, False.elim⟩
  | within change inner ih => exact ih reads on
  | given holds =>
      obtain ⟨met, rfl, -⟩ := reads
      exact ⟨on, .inl rfl, fun never => absurd met (never _ _ _ _)⟩
  | byKind family ih =>
      obtain ⟨token, -, reads⟩ := reads
      obtain ⟨onLast, onward, passes⟩ := ih token.kind reads on
      exact ⟨onLast, onward, fun all => passes (all token.kind)⟩
  | template =>
      obtain ⟨token, rest, scanned, opens, chunks, -⟩ := reads
      obtain ⟨onToken, -⟩ := Point.on_after on scanned
      obtain ⟨onLast, moved⟩ := chunks_forward sized asked chunks onToken
      have passes : point.Passes settings.dialect last :=
        ⟨token, scanned, isEnd_of_punctuator opens, moved.le⟩
      exact ⟨onLast, .inr passes, fun _ => passes⟩

theorem chunkCalls_forward (sized : settings.size = Text.size settings.source)
    (asked : ∀ {goal scope point tree last}, category goal scope point tree last →
      forward settings goal scope point tree last)
    {scope inside : Scope} {goal : Goal} {target : Point}
    (calls : ChunkCalls settings category scope point goal inside target)
    (on : Place.On settings.source point.place) :
    Place.On settings.source target.place ∧ point.place.offset < target.place.offset := by
  induction calls with
  | here found => exact Point.on_jump sized on found
  | text found later ih =>
      obtain ⟨onNext, next⟩ := Point.on_jump sized on found
      obtain ⟨onTarget, more⟩ := ih onNext
      exact ⟨onTarget, next.trans more⟩
  | hole found filled scanned closes later ih =>
      obtain ⟨onHole, hole⟩ := Point.on_jump sized on found
      obtain ⟨onBehind, inner⟩ := asked filled onHole
      obtain ⟨onBrace, gap, brace, -⟩ := Point.on_after onBehind scanned
      obtain ⟨onTarget, more⟩ := ih onBrace
      refine ⟨onTarget, hole.trans ((inner.lt onHole).trans (lt_of_le_of_lt ?_ more))⟩
      exact gap.trans brace

/-- Goals are asked for in the text behind the first token of a phrase, or at
its start if they are allowed there. -/
theorem calls_forward (sized : settings.size = Text.size settings.source)
    (asked : ∀ {goal scope point tree last}, category goal scope point tree last →
      forward settings goal scope point tree last)
    (allowed : Goal → Prop) {phrase : Phrase} {scope inside : Scope} {before : List SyntaxTree}
    {goal : Goal} {target : Point}
    (calls : phrase.Calls settings category scope point before goal inside target)
    (on : Place.On settings.source point.place) :
    Place.On settings.source target.place ∧ point.Onward settings.dialect target ∧
      (phrase.Begins allowed → allowed goal ∨ point.Passes settings.dialect target) := by
  induction phrase generalizing scope inside point before target with
  | ask other =>
      obtain ⟨rfl, -, rfl⟩ := calls
      exact ⟨on, .inl rfl, .inl⟩
  | sub inner ih => exact ih calls on
  | seq first second firstIh secondIh =>
      rcases calls with calls | ⟨middle, between, reads, calls⟩
      · obtain ⟨onTarget, onward, which⟩ := firstIh calls on
        exact ⟨onTarget, onward, fun begins => which begins.1⟩
      · obtain ⟨onMiddle, toMiddle, early⟩ := reads_forward sized asked reads on
        obtain ⟨onTarget, onward, which⟩ := secondIh calls onMiddle
        refine ⟨onTarget, toMiddle.trans onward onMiddle, ?_⟩
        rintro ⟨-, advances | begins⟩
        · exact .inr ((early advances).further (onward.le onMiddle))
        · exact (which begins).imp_right fun passes => toMiddle.passes passes onMiddle
  | either first second firstIh secondIh =>
      rcases calls with calls | calls
      · obtain ⟨onTarget, onward, which⟩ := firstIh calls on
        exact ⟨onTarget, onward, fun begins => which begins.1⟩
      · obtain ⟨onTarget, onward, which⟩ := secondIh calls on
        exact ⟨onTarget, onward, fun begins => which begins.2⟩
  | many inner ih =>
      obtain ⟨middle, between, reads, calls⟩ := calls
      obtain ⟨onMiddle, toMiddle, -⟩ := reads_forward sized asked reads on
      obtain ⟨onTarget, onward, which⟩ := ih calls onMiddle
      refine ⟨onTarget, toMiddle.trans onward onMiddle, fun begins => ?_⟩
      exact (which begins).imp_right fun passes => toMiddle.passes passes onMiddle
  | within change inner ih => exact ih calls on
  | byKind family ih =>
      obtain ⟨token, -, calls⟩ := calls
      obtain ⟨onTarget, onward, which⟩ := ih token.kind calls on
      exact ⟨onTarget, onward, fun begins => which (begins token.kind)⟩
  | template =>
      obtain ⟨token, scanned, opens, calls⟩ := calls
      obtain ⟨onToken, -⟩ := Point.on_after on scanned
      obtain ⟨onTarget, moved⟩ := chunkCalls_forward sized asked calls onToken
      have passes : point.Passes settings.dialect target :=
        ⟨token, scanned, isEnd_of_punctuator opens, moved.le⟩
      exact ⟨onTarget, .inr passes, fun _ => .inr passes⟩
  | _ => exact calls.elim

/-! ## The phrases of the grammar -/

section Begins

attribute [simp] Advances Begins

@[simp]
theorem advances_orElse (first second : Phrase) :
    (first <|> second).Advances ↔ first.Advances ∧ second.Advances :=
  Iff.rfl

variable (allowed : Goal → Prop)

@[simp]
theorem begins_orElse (first second : Phrase) :
    (first <|> second).Begins allowed ↔ first.Begins allowed ∧ second.Begins allowed :=
  Iff.rfl

theorem block_begins : block.Begins allowed := by
  simp [block, all]

theorem function_begins (rule : Rule) (isAsync : Bool) :
    (function rule isAsync).Begins allowed := by
  simp [function, all]

theorem function_advances (rule : Rule) (isAsync : Bool) : (function rule isAsync).Advances := by
  simp [function, all]

theorem classDefinition_begins (rule : Rule) : (classDefinition rule).Begins allowed := by
  simp [classDefinition, all]

theorem primary_begins : primary.Begins allowed := by
  intro kind
  dsimp only
  split
  · simp [nameOrFunction, asyncFunction, modifier, all]
  · trivial
  · trivial
  · trivial
  · exact function_begins _ _ _
  · exact classDefinition_begins _ _
  · simp [parenthesized, all]
  · simp [array, all]
  · simp [object, all]
  · trivial
  · trivial

theorem primary_advances : primary.Advances := by
  intro kind
  dsimp only
  split
  · simp [nameOrFunction, asyncFunction, modifier, all]
  · trivial
  · trivial
  · trivial
  · exact function_advances _ _
  · simp [classDefinition, all]
  · simp [parenthesized, all]
  · simp [array, all]
  · simp [object, all]
  · trivial
  · exact fun _ _ _ _ => id

theorem construction_begins : construction.Begins allowed := by
  simp [construction, all]

theorem leftHandSide_begins : leftHandSide.Begins allowed := by
  have advances : (construction <|> primary).Advances :=
    ⟨by simp [construction, all], primary_advances⟩
  exact ⟨⟨construction_begins _, primary_begins _⟩, .inl advances⟩

theorem leftHandSide_advances : leftHandSide.Advances :=
  .inl ⟨by simp [construction, all], primary_advances⟩

theorem unary_begins : unary.Begins allowed := by
  intro kind
  dsimp only
  split
  · simp [prefixed, all]
  · simp [withPostfix, leftHandSide_begins, all]

theorem unary_advances : unary.Advances := by
  intro kind
  dsimp only
  split
  · simp [prefixed, all]
  · simp [withPostfix, leftHandSide_advances, all]

theorem binary_begins (level : Nat) : (binary level).Begins allowed :=
  ⟨unary_begins _, .inl unary_advances⟩

theorem conditional_begins : conditional.Begins allowed :=
  ⟨binary_begins _ _, .inl (.inl unary_advances)⟩

theorem conditional_advances : conditional.Advances :=
  .inl (.inl unary_advances)

theorem assignment_begins : assignment.Begins allowed := by
  have arrow : arrow.Begins allowed := by
    simp [arrow, inputs, parameters, modifier, all]
  exact ⟨arrow, conditional_begins _, .inl conditional_advances⟩

theorem assignment_advances : assignment.Advances := by
  have arrow : arrow.Advances := by
    simp [arrow, inputs, parameters, modifier, all]
  exact ⟨arrow, .inl conditional_advances⟩

theorem expressionStatement_begins (allows : allowed .assignment) :
    expressionStatement.Begins allowed :=
  ⟨⟨allows, .inl trivial⟩, .inl (.inl trivial)⟩

theorem keywordStatement_begins (word : Keyword) (allows : allowed .assignment) :
    (keywordStatement word).Begins allowed := by
  unfold keywordStatement
  split
  · simp [declaration, all]
  · simp [declaration, all]
  · simp [declaration, all]
  · exact function_begins _ _ _
  · exact classDefinition_begins _ _
  · simp [ifStatement, all]
  · simp [whileStatement, all]
  · simp [doStatement, all]
  · simp [forStatement, all]
  · simp [tryStatement, all]
  · simp [switchStatement, all]
  · simp [returnStatement, all]
  · simp [jumpStatement, all]
  · simp [jumpStatement, all]
  · simp [throwStatement, all]
  · simp [all]
  · exact expressionStatement_begins _ allows

theorem keywordStatement_advances (word : Keyword) : (keywordStatement word).Advances := by
  unfold keywordStatement
  split
  · simp [declaration, all]
  · simp [declaration, all]
  · simp [declaration, all]
  · exact function_advances _ _
  · simp [classDefinition, all]
  · simp [ifStatement, all]
  · simp [whileStatement, all]
  · simp [doStatement, all]
  · simp [forStatement, all]
  · simp [tryStatement, all]
  · simp [switchStatement, all]
  · simp [returnStatement, all]
  · simp [jumpStatement, all]
  · simp [jumpStatement, all]
  · simp [throwStatement, all]
  · simp [all]
  · exact .inl (.inl trivial)

theorem statement_begins (allows : allowed .assignment) : statement.Begins allowed := by
  intro kind
  dsimp only
  split
  · exact block_begins _
  · simp [all]
  · exact keywordStatement_begins _ _ allows
  · simp [nameStatement, asyncFunction, modifier, expressionStatement_begins, allows, all]
  · exact expressionStatement_begins _ allows

theorem statement_advances : statement.Advances := by
  intro kind
  dsimp only
  split
  · simp [block, all]
  · simp [all]
  · exact keywordStatement_advances _
  · simp [nameStatement, asyncFunction, modifier, expressionStatement, expression, all]
  · exact .inl (.inl trivial)

/-- At its start a production asks only for goals of lower rank. -/
theorem ofGoal_begins (goal : Goal) : (ofGoal goal).Begins (·.rank < goal.rank) := by
  cases goal with
  | statement => exact statement_begins _ Nat.zero_lt_one
  | expression => exact ⟨Nat.zero_lt_one, .inl trivial⟩
  | assignment => exact assignment_begins _
  | binary level => exact binary_begins _ level
  | unary => exact unary_begins _
  | leftHandSide => exact leftHandSide_begins _
  | construction => exact construction_begins _

theorem ofGoal_advances (goal : Goal) : (ofGoal goal).Advances := by
  cases goal with
  | statement => exact statement_advances
  | expression => exact .inl trivial
  | assignment => exact assignment_advances
  | binary level => exact .inl unary_advances
  | unary => exact unary_advances
  | leftHandSide => exact leftHandSide_advances
  | construction => simp [ofGoal, construction, all]

end Begins

end Phrase

theorem Derives.forward (sized : settings.size = Text.size settings.source) {goal : Goal}
    {scope : Scope} {tree : SyntaxTree} (derives : Derives settings goal scope point tree last) :
    forward settings goal scope point tree last := by
  refine derives.induct (Grammar.forward settings) fun reads on => ?_
  obtain ⟨onLast, -, passes⟩ := Phrase.reads_forward sized And.right reads on
  exact ⟨onLast, passes (Phrase.ofGoal_advances _)⟩

end Grammar

end ScriptTree
