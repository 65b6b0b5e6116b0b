import ScriptTree.Proofs.Lossless

/-!
# Derived trees

The trees that the productions alone yield form the least closed category.  A
property of single nodes holds of all their nodes if the phrases keep it, and
a phrase that never builds the nodes in question keeps it for free.
-/

namespace ScriptTree

namespace Kind

/-- The label of the word in front of an asynchronous function. -/
def isAsync (kind : Kind) : Bool :=
  kind == .fixed (.contextual .asyncWord)

@[simp]
theorem isAsync_rule (rule : Rule) : (Kind.rule rule).isAsync = false :=
  rfl

@[simp]
theorem isAsync_keyword (word : Keyword) : (Kind.fixed (.keyword word)).isAsync = false :=
  rfl

@[simp]
theorem isAsync_punctuator (sign : Punctuator) : (Kind.fixed (.punctuator sign)).isAsync = false :=
  rfl

@[simp]
theorem isAsync_contextual (word : ContextualWord) :
    (Kind.fixed (.contextual word)).isAsync = (word == .asyncWord) := by
  cases word <;> rfl

end Kind

namespace Grammar

variable {settings : Settings} {category wider : Category}

/-! ## The least closed category -/

theorem Chunks.mono
    (subset : ∀ {goal scope point tree last}, category goal scope point tree last →
      wider goal scope point tree last) {scope : Scope} {point last : Point}
    {trees : List SyntaxTree} (chunks : Chunks settings category scope point trees last) :
    Chunks settings wider scope point trees last := by
  induction chunks with
  | close found => exact .close found
  | text found later ih => exact .text found ih
  | hole found filled scanned closes later ih => exact .hole found (subset filled) scanned closes ih

theorem Phrase.Reads.mono
    (subset : ∀ {goal scope point tree last}, category goal scope point tree last →
      wider goal scope point tree last) {phrase : Phrase} {scope : Scope} {point last : Point}
    {before trees : List SyntaxTree}
    (reads : phrase.Reads settings category scope point before last trees) :
    phrase.Reads settings wider scope point before last trees := by
  induction phrase generalizing scope point last before trees with
  | done => exact reads
  | take kind => exact reads
  | ask goal =>
      obtain ⟨tree, member, rfl⟩ := reads
      exact ⟨tree, subset member, rfl⟩
  | sub inner ih =>
      obtain ⟨added, innerReads, rfl⟩ := reads
      exact ⟨added, ih innerReads, rfl⟩
  | reduce rule => exact reads
  | seq first second firstIh secondIh =>
      obtain ⟨middle, between, firstReads, secondReads⟩ := reads
      exact ⟨middle, between, firstIh firstReads, secondIh secondReads⟩
  | either first second firstIh secondIh => exact reads.imp firstIh secondIh
  | many inner ih => exact Relation.ReflTransGen.mono (fun _ _ => ih) _ _ reads
  | within change inner ih => exact ih reads
  | given holds => exact reads
  | byKind family ih =>
      obtain ⟨token, scanned, familyReads⟩ := reads
      exact ⟨token, scanned, ih _ familyReads⟩
  | template =>
      obtain ⟨token, rest, scanned, opens, chunks, rfl⟩ := reads
      exact ⟨token, rest, scanned, opens, chunks.mono subset, rfl⟩

/-- What the productions yield for a goal. -/
def Derives (settings : Settings) : Category :=
  fun goal scope point tree last =>
    ∀ category : Category, Closed settings category → category goal scope point tree last

theorem derives_closed : Closed settings (Derives settings) := by
  intro goal scope point last tree reads category closed
  exact closed (reads.mono fun derives => derives category closed)

variable {goal : Goal} {scope : Scope} {point last : Point} {tree : SyntaxTree}

/-- What passes along the productions holds of everything they yield. -/
theorem Derives.induct (holds : Category)
    (step : ∀ {goal scope point tree last},
      (Phrase.ofGoal goal).Reads settings
        (fun goal scope point tree last => Derives settings goal scope point tree last ∧
          holds goal scope point tree last) scope point [] last [tree] →
      holds goal scope point tree last)
    (derives : Derives settings goal scope point tree last) :
    holds goal scope point tree last := by
  have closed : Closed settings fun goal scope point tree last =>
      Derives settings goal scope point tree last ∧ holds goal scope point tree last := by
    intro goal scope point last tree reads
    exact ⟨derives_closed (reads.mono And.left), step reads⟩
  exact (derives _ closed).2

theorem Derives.reads (derives : Derives settings goal scope point tree last) :
    (Phrase.ofGoal goal).Reads settings (Derives settings) scope point [] last [tree] :=
  derives.induct (fun goal scope point tree last => (Phrase.ofGoal goal).Reads settings
    (Derives settings) scope point [] last [tree]) fun reads => reads.mono And.left

theorem Composes.derives {holds : Point → List SyntaxTree → Point → Prop}
    (composes : Composes settings holds) (derives : Derives settings goal scope point tree last) :
    madeOf holds goal scope point tree last :=
  derives _ composes.closed

/-! ## Properties of what is collected -/

/-- A point lies in the text that is read, if its size is known. -/
def Point.InText (settings : Settings) (point : Point) : Prop :=
  settings.size = Text.size settings.source → Place.On settings.source point.place

theorem Point.InText.after {token : Token} (inText : point.InText settings)
    (run : point.next settings.dialect = .ok token) : (Point.after token).InText settings := by
  intro sized
  have scanned := Token.scan_scanned run
  obtain ⟨skipped, toStart, -⟩ := Trivia.skip_reaches scanned.skipped
  exact ((inText sized).after toStart).after scanned.covers

theorem Point.InText.jump {mark : Mark} {stop : Nat} (inText : point.InText settings)
    (found : point.chunk settings.size = some ⟨mark, stop⟩) (patternAllowed : Bool) :
    (point.jump stop patternAllowed).InText settings := by
  intro sized
  obtain ⟨text, covers⟩ :=
    chunk_covers sized (.rule .templateContent) true (inText sized) found fun _ _ => trivial
  exact (inText sized).after covers.reaches

/-- What is known between two steps: where the reader stands, and what it has
collected. -/
structure Sound (settings : Settings) (good : SyntaxTree → Prop) (point : Point)
    (trees : List SyntaxTree) : Prop where
  inText : point.InText settings
  all : ∀ tree ∈ trees, good tree

variable {good : SyntaxTree → Prop}

theorem Sound.nothing (inText : point.InText settings) : Sound settings good point [] :=
  ⟨inText, by simp⟩

theorem Sound.append {middle : Point} {before added : List SyntaxTree}
    (earlier : Sound settings good point before) (later : Sound settings good middle added) :
    Sound settings good middle (before ++ added) := by
  refine ⟨later.inText, fun tree isIn => ?_⟩
  rcases List.mem_append.mp isIn with isBefore | isAdded
  · exact earlier.all tree isBefore
  · exact later.all tree isAdded

theorem Sound.mono {weaker : SyntaxTree → Prop} {trees : List SyntaxTree}
    (implies : ∀ tree, good tree → weaker tree) (sound : Sound settings good point trees) :
    Sound settings weaker point trees :=
  ⟨sound.inText, fun tree isIn => implies tree (sound.all tree isIn)⟩

/-- A property of trees that single tokens have but for the word in front of an
asynchronous function, that templates take over from their parts, and that
whatever is asked for has. -/
structure Spreads (settings : Settings) (category : Category) (good : SyntaxTree → Prop) :
    Prop where
  leaf : ∀ kind span, kind.isAsync = false → good (.leaf kind span)
  template : ∀ trees, (∀ tree ∈ trees, good tree) → good (build .templateString trees)
  asked : ∀ {goal scope point tree last}, category goal scope point tree last →
    point.InText settings → Sound settings good last [tree]

namespace Spreads

theorem token (spreads : Spreads settings category good) {token : Token}
    (inText : point.InText settings) (run : point.next settings.dialect = .ok token) {kind : Kind}
    (plain : kind.isAsync = false) : Sound settings good (.after token) [.leaf kind token.span] :=
  ⟨inText.after run, by simpa using spreads.leaf kind _ plain⟩

theorem jump (spreads : Spreads settings category good) {mark : Mark} {stop : Nat}
    (inText : point.InText settings) (found : point.chunk settings.size = some ⟨mark, stop⟩)
    (patternAllowed : Bool) {kind : Kind} (plain : kind.isAsync = false) :
    Sound settings good (point.jump stop patternAllowed)
      [.leaf kind ⟨point.place.offset, stop⟩] :=
  ⟨inText.jump found patternAllowed, by simpa using spreads.leaf kind _ plain⟩

theorem chunks (spreads : Spreads settings category good) {trees : List SyntaxTree}
    (read : Chunks settings category scope point trees last) (inText : point.InText settings) :
    Sound settings good last trees := by
  induction read with
  | close found => exact spreads.jump inText found _ rfl
  | text found later ih =>
      have inside := inText.jump found false
      exact (spreads.jump inText found false rfl).append (ih inside)
  | hole found filled scanned closes later ih =>
      have inner := spreads.asked filled (inText.jump found true)
      have rest := ih (inner.inText.after scanned)
      exact (spreads.jump inText found true rfl).append
        (inner.append ((spreads.token inner.inText scanned rfl).append rest))

end Spreads

namespace Phrase

/-- What is collected stays sound. -/
def Keeps (settings : Settings) (category : Category) (good : SyntaxTree → Prop)
    (phrase : Phrase) : Prop :=
  ∀ ⦃scope point before last trees⦄,
    phrase.Reads settings category scope point before last trees →
    Sound settings good point before → Sound settings good last trees

/-- What is collected is sound if nothing has been collected before. -/
def Yields (settings : Settings) (category : Category) (good : SyntaxTree → Prop)
    (phrase : Phrase) : Prop :=
  ∀ ⦃scope point last trees⦄, phrase.Reads settings category scope point [] last trees →
    point.InText settings → Sound settings good last trees

/-- The rules of the nodes that a phrase builds itself pass a test, and it does
not take the word in front of an asynchronous function itself. -/
def Builds (test : Rule → Prop) : Phrase → Prop
  | .done | .ask _ | .given _ | .template => True
  | .take kind => kind.isAsync = false
  | .reduce rule => test rule
  | .sub inner | .many inner | .within _ inner => inner.Builds test
  | .seq first second | .either first second => first.Builds test ∧ second.Builds test
  | .byKind family => ∀ kind, (family kind).Builds test

section Builds

variable {test : Rule → Prop}

attribute [simp] Builds

@[simp]
theorem builds_orElse (first second : Phrase) :
    (first <|> second).Builds test ↔ first.Builds test ∧ second.Builds test :=
  Iff.rfl

@[simp]
theorem builds_all (phrases : List Phrase) :
    (all phrases).Builds test ↔ ∀ phrase ∈ phrases, phrase.Builds test := by
  induction phrases with
  | nil => simp [all]
  | cons first rest ih =>
      cases rest with
      | nil => simp [all]
      | cons second rest => simpa [all] using fun _ => ih

@[simp]
theorem builds_loop (round : Bool → Phrase) :
    (loop round).Builds test ↔ (round true).Builds test ∧ (round false).Builds test :=
  Iff.rfl

attribute [simp] sign word contextual named ahead ensure Phrase.sameLine leave

theorem Builds.mono {other : Rule → Prop} (implies : ∀ rule, test rule → other rule)
    {phrase : Phrase} (builds : phrase.Builds test) : phrase.Builds other := by
  induction phrase with
  | reduce rule => exact implies rule builds
  | take kind => exact builds
  | sub inner ih => exact ih builds
  | many inner ih => exact ih builds
  | within change inner ih => exact ih builds
  | seq first second firstIh secondIh => exact ⟨firstIh builds.1, secondIh builds.2⟩
  | either first second firstIh secondIh => exact ⟨firstIh builds.1, secondIh builds.2⟩
  | byKind family ih => exact fun kind => ih kind (builds kind)
  | _ => trivial

end Builds

variable {first second inner : Phrase}

namespace Keeps

theorem seq (firstKeeps : Keeps settings category good first)
    (secondKeeps : Keeps settings category good second) :
    Keeps settings category good (.seq first second) := by
  rintro scope point before last trees ⟨middle, between, firstReads, secondReads⟩ earlier
  exact secondKeeps secondReads (firstKeeps firstReads earlier)

theorem either (firstKeeps : Keeps settings category good first)
    (secondKeeps : Keeps settings category good second) :
    Keeps settings category good (first <|> second) := by
  rintro scope point before last trees (firstReads | secondReads) earlier
  · exact firstKeeps firstReads earlier
  · exact secondKeeps secondReads earlier

theorem sub (yields : Yields settings category good inner) :
    Keeps settings category good (.sub inner) := by
  rintro scope point before last trees ⟨added, reads, rfl⟩ earlier
  exact earlier.append (yields reads earlier.inText)

theorem many (keeps : Keeps settings category good inner) :
    Keeps settings category good (.many inner) := by
  intro scope point before last trees reads earlier
  induction reads using Reads.rounds with
  | start => exact earlier
  | round _ step ih => exact keeps step ih

theorem within {change : Scope → Scope} (keeps : Keeps settings category good inner) :
    Keeps settings category good (.within change inner) :=
  fun _ _ _ _ _ reads => keeps reads

theorem byKind {family : TokenKind → Phrase}
    (keeps : ∀ kind, Keeps settings category good (family kind)) :
    Keeps settings category good (.byKind family) := by
  rintro scope point before last trees ⟨token, scanned, reads⟩
  exact keeps token.kind reads

theorem given {condition : Settings → Scope → Point → List SyntaxTree → Prop} :
    Keeps settings category good (.given condition) := by
  rintro scope point before last trees ⟨met, rfl, rfl⟩ earlier
  exact earlier

theorem take (spreads : Spreads settings category good) {kind : Kind}
    (plain : kind.isAsync = false) : Keeps settings category good (.take kind) := by
  rintro scope point before last trees ⟨token, scanned, admits, rfl, rfl⟩ earlier
  exact earlier.append (spreads.token earlier.inText scanned plain)

theorem ask (spreads : Spreads settings category good) (goal : Goal) :
    Keeps settings category good (.ask goal) := by
  rintro scope point before last trees ⟨asked, member, rfl⟩ earlier
  exact earlier.append (spreads.asked member earlier.inText)

theorem template (spreads : Spreads settings category good) :
    Keeps settings category good .template := by
  rintro scope point before last trees ⟨token, rest, scanned, opens, read, rfl⟩ earlier
  have opens : (Kind.fixed (.punctuator .backtick)).isAsync = false := rfl
  have rest := spreads.chunks read (earlier.inText.after scanned)
  have whole := (spreads.token earlier.inText scanned opens).append rest
  exact earlier.append ⟨whole.inText, by simpa using spreads.template _ whole.all⟩

theorem reduce {rule : Rule}
    (plain : ∀ trees, (∀ tree ∈ trees, good tree) → good (build rule trees)) :
    Keeps settings category good (.reduce rule) := by
  rintro scope point before last trees ⟨rfl, rfl⟩ earlier
  exact ⟨earlier.inText, by simpa using plain before earlier.all⟩

/-- A phrase that builds only nodes which take over the property from their
children. -/
theorem of_builds (spreads : Spreads settings category good) {phrase : Phrase}
    (builds : phrase.Builds fun rule =>
      ∀ trees, (∀ tree ∈ trees, good tree) → good (build rule trees)) :
    Keeps settings category good phrase := by
  induction phrase with
  | done =>
      rintro scope point before last trees ⟨rfl, rfl⟩ earlier
      exact earlier
  | take kind => exact take spreads builds
  | ask goal => exact ask spreads goal
  | sub inner ih => exact sub fun _ _ _ _ reads inText => ih builds reads (.nothing inText)
  | reduce rule => exact reduce builds
  | seq first second firstIh secondIh => exact (firstIh builds.1).seq (secondIh builds.2)
  | either first second firstIh secondIh => exact (firstIh builds.1).either (secondIh builds.2)
  | many inner ih => exact (ih builds).many
  | within change inner ih => exact (ih builds).within
  | given condition => exact given
  | byKind family ih => exact byKind fun kind => ih kind (builds kind)
  | template => exact template spreads

end Keeps

namespace Yields

theorem of_keeps (keeps : Keeps settings category good inner) :
    Yields settings category good inner :=
  fun _ _ _ _ reads inText => keeps reads (.nothing inText)

theorem seq (firstYields : Yields settings category good first)
    (secondKeeps : Keeps settings category good second) :
    Yields settings category good (.seq first second) := by
  rintro scope point last trees ⟨middle, between, firstReads, secondReads⟩ inText
  exact secondKeeps secondReads (firstYields firstReads inText)

theorem either (firstYields : Yields settings category good first)
    (secondYields : Yields settings category good second) :
    Yields settings category good (first <|> second) := by
  rintro scope point last trees (firstReads | secondReads)
  · exact firstYields firstReads
  · exact secondYields secondReads

theorem byKind {family : TokenKind → Phrase}
    (yields : ∀ kind, Yields settings category good (family kind)) :
    Yields settings category good (.byKind family) := by
  rintro scope point last trees ⟨token, scanned, reads⟩
  exact yields token.kind reads

end Yields

end Phrase

end Grammar

end ScriptTree
