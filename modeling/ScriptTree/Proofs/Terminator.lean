import ScriptTree.Proofs.Grammar.Inversion

/-!
# Where statements end, and where lines must not

A statement without a semicolon is followed by a closing brace, by the end of
the text, or by a line terminator or comment.  Inside a statement there are
places where none of the latter may stand.
-/

namespace ScriptTree

/-! ## Gaps -/

namespace Trivia

/-- A line terminator or a complete comment. -/
inductive IsBreak : Text → Prop where
  | newline {character : Char} (ends : isNewline character = true) : IsBreak [character]
  | lineComment {body : Text} (inLine : ∀ character ∈ body, isNewline character = false) :
      IsBreak ('/' :: '/' :: body)
  | blockComment {body : Text} (open_ : ¬['*', '/'] <:+: body) :
      IsBreak ('/' :: '*' :: (body ++ ['*', '/']))

def Breaks (text : Text) : Prop :=
  ∃ before item after, text = before ++ (item ++ after) ∧ IsTrivia before ∧ IsBreak item ∧
    IsTrivia after

theorem Breaks.first {item after : Text} (isBreak : IsBreak item) (later : IsTrivia after) :
    Breaks (item ++ after) :=
  ⟨[], item, after, rfl, .none, isBreak, later⟩

theorem Breaks.cons {character : Char} {text : Text} (blank : isBlank character = true)
    (breaks : Breaks text) : Breaks (character :: text) := by
  obtain ⟨before, item, after, rfl, isBefore, isBreak, isAfter⟩ := breaks
  exact ⟨character :: before, item, after, rfl, .space (.inr blank) isBefore, isBreak, isAfter⟩

/-- Trivia that is not blank throughout has a line terminator or comment in
it. -/
theorem IsTrivia.breaks {text : Text} (trivia : IsTrivia text)
    (notBlank : ¬∀ character ∈ text, isBlank character = true) : Breaks text := by
  induction trivia with
  | none => simp at notBlank
  | @space character rest kind later ih =>
      rcases kind with ends | blank
      · exact .first (.newline ends) later
      · have restNotBlank : ¬∀ character ∈ rest, isBlank character = true := by
          intro all
          exact notBlank (by simpa using ⟨blank, all⟩)
        exact .cons blank (ih restNotBlank)
  | @lineComment body rest inLine later ih => exact .first (.lineComment inLine) later
  | @blockComment body rest open_ later ih =>
      have breaks := Breaks.first (.blockComment open_) later
      simpa using breaks

/-- What is skipped with a plain gap is blank. -/
theorem skip_blank {place start : Place} {gap : Gap} (run : skip place = .ok (start, gap))
    (plain : gap.isBreak = false) :
    ∃ skipped, place.Reaches skipped start ∧ ∀ character ∈ skipped, isBlank character = true := by
  obtain ⟨marks, skipped, reaches, fills, rfl, -⟩ := skip_skipped run
  exact ⟨skipped, reaches, (fills.blanks_of_plain plain).2⟩

/-- What is skipped with another gap has a line terminator or comment in it. -/
theorem skip_breaks {place start : Place} {gap : Gap} (run : skip place = .ok (start, gap))
    (isBreak : gap.isBreak = true) :
    ∃ skipped, place.Reaches skipped start ∧ Breaks skipped := by
  obtain ⟨marks, skipped, reaches, fills, rfl, -⟩ := skip_skipped run
  refine ⟨skipped, reaches, fills.isTrivia.breaks fun blanks => ?_⟩
  rw [fills.gap_of_blanks blanks] at isBreak
  cases isBreak

end Trivia

/-- Nothing but blanks lies between two offsets. -/
def SameLine (source : Text) (stop start : Nat) : Prop :=
  ∃ skipped, source.slice? stop start = some skipped ∧
    ∀ character ∈ skipped, isBlank character = true

/-- No line terminator lies between two offsets, not even in a comment. -/
def InLine (source : Text) (stop start : Nat) : Prop :=
  ∃ skipped, source.slice? stop start = some skipped ∧
    ∀ character ∈ skipped, isNewline character = false

/-- The trivia behind an offset leads to the end of the text or to one of the
given characters, or has a line terminator or comment in it. -/
def MayEnd (source : Text) (closing : List Char) (stop : Nat) : Prop :=
  ∃ start gap skipped, Trivia.skip (Place.ofOffset source stop) = .ok (start, gap) ∧
    source.slice? stop start.offset = some skipped ∧
    (start.rest = [] ∨ (∃ character ∈ closing, start.current = some character) ∨
      Trivia.Breaks skipped)

namespace Grammar

variable {settings : Settings} {point last : Point} {token : Token}

/-! ## Decisions at a token -/

theorem sameLine_of_plain (on : Place.On settings.source point.place)
    (run : point.next settings.dialect = .ok token) (plain : token.gap.isBreak = false) :
    SameLine settings.source point.place.offset token.start.offset := by
  have scanned := Token.scan_scanned run
  obtain ⟨skipped, reaches, blanks⟩ := Trivia.skip_blank scanned.skipped plain
  exact ⟨skipped, on.slice?_eq reaches, blanks⟩

theorem continuesAt_plain (continues : continuesAt settings token = true) :
    token.gap.isBreak = false := by
  simp only [continuesAt, markAt, Recognizer.sameLine, beq_iff_eq] at continues
  split at continues
  · cases continues
  · split at continues
    · rename_i goesOn
      simp only [Bool.and_eq_true, Bool.not_eq_true'] at goesOn
      exact goesOn.1.2
    · cases continues

theorem isPostfixAt_plain (follows : isPostfixAt settings token = true) :
    token.gap.isBreak = false := by
  have signed (sign : Char) (probe : Probe) (unmarked : probe.mark? = none)
      (marked : (Recognizer.update.second ⟨token.gap, [.postfixUpdate]⟩ probe sign).mark? =
        some .postfixUpdate) : token.gap.isBreak = false := by
    unfold Recognizer.update.second at marked
    split at marked
    · cases gap : token.gap.isBreak with
      | false => rfl
      | true =>
          rw [gap] at marked
          cases marked
    · exact absurd (unmarked.symm.trans marked) nofun
  simp only [isPostfixAt, markAt, beq_iff_eq] at follows
  unfold Recognizer.update at follows
  split at follows
  · exact signed _ _ rfl follows
  · exact signed _ _ rfl follows
  · cases follows

theorem mayEndBefore_cases (ends : mayEndBefore settings token = true) :
    token.start.rest = [] ∨ token.start.current = some '\x7d' ∨ token.gap.isBreak = true := by
  simp only [mayEndBefore, markAt, Recognizer.inferredEnd, beq_iff_eq] at ends
  split at ends
  · rename_i closes
    simp only [Bool.and_eq_true, Bool.or_eq_true, beq_iff_eq, Option.isNone_iff_eq_none] at closes
    rcases closes.1 with (atBrace | atEnd) | isBreak
    · exact .inr (.inl atBrace)
    · exact .inl (List.head?_eq_none_iff.mp atEnd)
    · exact .inr (.inr isBreak)
  · cases ends

/-- A statement that may end before the next token. -/
theorem mayEnd_of_mayEndBefore (on : Place.On settings.source point.place)
    (run : point.next settings.dialect = .ok token) (ends : mayEndBefore settings token = true)
    {closing : List Char} (closes : '\x7d' ∈ closing) :
    MayEnd settings.source closing point.place.offset := by
  have scanned := Token.scan_scanned run
  obtain ⟨skipped, reaches, trivia⟩ := Trivia.skip_reaches scanned.skipped
  refine ⟨token.start, token.gap, skipped, ?_, on.slice?_eq reaches, ?_⟩
  · rw [on.ofOffset_eq]
    exact scanned.skipped
  · rcases mayEndBefore_cases ends with atEnd | atBrace | isBreak
    · exact .inl atEnd
    · exact .inr (.inl ⟨_, closes, atBrace⟩)
    · obtain ⟨_, same, breaks⟩ := Trivia.skip_breaks scanned.skipped isBreak
      obtain rfl := same.text_unique reaches
      exact .inr (.inr breaks)

/-! ## Where trees begin and end -/

/-- Trees begin where trivia behind one point ends, and end at another
point. -/
structure Spans (point : Point) (trees : List SyntaxTree) (last : Point) : Prop where
  start : ∀ tree ∈ trees.head?, ∃ start gap, Trivia.skip point.place = .ok (start, gap) ∧
    tree.span.start = start.offset
  stop : ∀ tree ∈ trees.getLast?, tree.span.stop = last.place.offset
  nothing : trees = [] → last.place = point.place

theorem Spans.append {middle : Point} {first second : List SyntaxTree}
    (earlier : Spans point first middle) (later : Spans middle second last) :
    Spans point (first ++ second) last := by
  refine ⟨?_, ?_, ?_⟩
  · cases first with
    | nil =>
        have start := later.start
        rw [earlier.nothing rfl] at start
        exact start
    | cons tree rest => exact earlier.start
  · rcases List.eq_nil_or_concat' second with rfl | ⟨init, final, rfl⟩
    · rw [List.append_nil, later.nothing rfl]
      exact earlier.stop
    · intro tree isLast
      apply later.stop
      simpa [← List.append_assoc] using isLast
  · intro none
    obtain ⟨rfl, rfl⟩ := List.append_eq_nil_iff.mp none
    rw [later.nothing rfl, earlier.nothing rfl]

theorem Spans.leaf {kind : Kind} (run : point.next settings.dialect = .ok token) :
    Spans point [.leaf kind token.span] (.after token) := by
  have scanned := Token.scan_scanned run
  refine ⟨?_, ?_, nofun⟩
  · rintro _ ⟨⟩
    exact ⟨token.start, token.gap, scanned.skipped, rfl⟩
  · rintro _ ⟨⟩
    rfl

/-- A node spans what its children do. -/
theorem Spans.node {rule : Rule} {trees : List SyntaxTree} (nonempty : trees ≠ [])
    (spans : Spans point trees last) : Spans point [build rule trees] last := by
  have first := List.head?_eq_some_head nonempty
  have final := List.getLast?_eq_some_getLast nonempty
  have covers : Tree.covering trees =
      (trees.head nonempty).span.through (trees.getLast nonempty).span := by
    unfold Tree.covering
    rw [first, final]
  refine ⟨?_, ?_, nofun⟩
  · rintro _ ⟨⟩
    obtain ⟨start, gap, skipped, same⟩ := spans.start _ first
    refine ⟨start, gap, skipped, ?_⟩
    change (Tree.covering trees).start = _
    rw [covers]
    exact same
  · rintro _ ⟨⟩
    change (Tree.covering trees).stop = _
    rw [covers]
    exact spans.stop _ final

theorem chunks_stop {category : Category} {scope : Scope} {trees : List SyntaxTree}
    (chunks : Chunks settings category scope point trees last) :
    ∃ tree, trees.getLast? = some tree ∧ tree.span.stop = last.place.offset := by
  induction chunks with
  | close found => exact ⟨_, rfl, rfl⟩
  | text found later ih =>
      obtain ⟨tree, isLast, same⟩ := ih
      exact ⟨tree, by simp [List.getLast?_cons, isLast], same⟩
  | hole found filled scanned closes later ih =>
      obtain ⟨tree, isLast, same⟩ := ih
      exact ⟨tree, by simp [List.getLast?_cons, isLast], same⟩

theorem spans_composes : Composes settings Spans where
  none point := ⟨by simp, by simp, fun _ => rfl⟩
  append := Spans.append
  token run _ _ := .leaf run
  node takes spans := spans.node (by simpa using Rule.Takes.nonempty takes)
  template run _ chunks := by
    obtain ⟨final, isLast, same⟩ := chunks_stop chunks
    refine Spans.node (by simp) ⟨(Spans.leaf run).start, ?_, nofun⟩
    simpa [List.getLast?_cons, isLast] using same

section Alone

variable {phrase : Phrase} {scope : Scope} {trees : List SyntaxTree} {goal : Shape.Language}

/-- What a phrase reads alone begins and ends where the points say. -/
theorem reads_spans (leads : phrase.Leads goal [])
    (reads : phrase.Reads settings (Derives settings) scope point [] last trees) :
    Spans point trees last ∧ goal (trees.map Tree.label) := by
  have composes : Composes settings Spans := spans_composes
  exact Phrase.reads_holds composes leads (composes.none point) (reads.mono composes.derives)

theorem reads_inText (leads : phrase.Leads goal [])
    (reads : phrase.Reads settings (Derives settings) scope point [] last trees)
    (inText : point.InText settings) : last.InText settings := by
  intro sized
  have composes := laidOut_composes sized
  have laid := (Phrase.reads_holds composes leads (composes.none point)
    (reads.mono composes.derives)).1
  exact (laid (inText sized)).on (inText sized)

/-- A phrase that reads one tree alone. -/
theorem reads_one {sort : Kind → Bool} (leads : phrase.LeadsOne sort)
    (reads : phrase.Reads settings (Derives settings) scope point [] last trees)
    (inText : point.InText settings) :
    ∃ tree, trees = [tree] ∧ sort tree.label = true ∧ Spans point [tree] last ∧
      last.InText settings := by
  have single : phrase.Leads (Shape.One sort) [] := leads fun kind isSort => ⟨kind, isSort, rfl⟩
  obtain ⟨spans, kind, isSort, labels⟩ := reads_spans single reads
  obtain ⟨tree, rfl, rfl⟩ := List.map_eq_singleton_iff.mp labels
  exact ⟨tree, rfl, isSort, spans, reads_inText single reads inText⟩

end Alone

/-! ## Statements without a semicolon -/

abbrev semicolon : Kind :=
  .fixed (.punctuator .semicolon)

theorem terminator_reads {category : Category} {scope : Scope} {before trees : List SyntaxTree}
    (reads : Phrase.terminator.Reads settings category scope point before last trees) :
    (∃ token, point.next settings.dialect = .ok token ∧ token.isPunctuator .semicolon = true ∧
        last = .after token ∧ trees = before ++ [.leaf semicolon token.span]) ∨
      ∃ token, point.next settings.dialect = .ok token ∧ mayEndBefore settings token = true ∧
        last = point ∧ trees = before := by
  obtain ⟨_, _, ⟨token, run, admits, rfl, rfl⟩, rfl, rfl⟩ | ⟨⟨token, run, ends⟩, rfl, rfl⟩ := reads
  · exact .inl ⟨token, run, admits, rfl, rfl⟩
  · exact .inr ⟨token, run, ends, rfl, rfl⟩

namespace Phrase

/-- A phrase builds a node of a rule that ends in a semicolon, or stops where
none is needed. -/
def Terminates (settings : Settings) (rule : Rule) (phrase : Phrase) : Prop :=
  ∀ ⦃scope point before last trees⦄,
    phrase.Reads settings (Derives settings) scope point before last trees →
    ∃ children, trees = [build rule children] ∧
      ((∃ child ∈ children, child.label = semicolon) ∨
        ∃ token, last.next settings.dialect = .ok token ∧ mayEndBefore settings token = true)

namespace Terminates

variable {rule : Rule} {first second phrase : Phrase}

theorem here : (all [terminator, reduce rule]).Terminates settings rule := by
  rintro scope point before last trees ⟨middle, between, ends, rfl, rfl⟩
  refine ⟨between, rfl, ?_⟩
  rcases terminator_reads ends with ⟨token, run, isSign, rfl, rfl⟩ | ⟨token, run, mayEnd, rfl, rfl⟩
  · exact .inl ⟨_, List.mem_append_right _ (List.mem_singleton_self _), rfl⟩
  · exact .inr ⟨token, run, mayEnd⟩

theorem after (terminates : second.Terminates settings rule) :
    (Phrase.seq first second).Terminates settings rule := by
  rintro scope point before last trees ⟨middle, between, -, reads⟩
  exact terminates reads

theorem either (firstTerminates : first.Terminates settings rule)
    (secondTerminates : second.Terminates settings rule) :
    (first <|> second).Terminates settings rule := by
  rintro scope point before last trees (reads | reads)
  · exact firstTerminates reads
  · exact secondTerminates reads

/-- A node without a semicolon stands where it may end. -/
theorem mayEnd (terminates : phrase.Terminates settings rule) {goal : Shape.Language}
    (leads : phrase.Leads goal []) (sized : settings.size = Text.size settings.source)
    {tree : SyntaxTree} (makes : phrase.Makes settings tree)
    (unended : ∀ part ∈ tree.children, part.label ≠ semicolon) :
    MayEnd settings.source ['\x7d'] tree.span.stop := by
  obtain ⟨scope, point, last, inText, reads⟩ := makes
  have stop := (reads_spans leads reads).1.stop tree rfl
  have on := reads_inText leads reads inText sized
  obtain ⟨children, same, ⟨child, isChild, isSign⟩ | ⟨token, run, ends⟩⟩ := terminates reads
  · obtain rfl := List.singleton_inj.mp same
    exact absurd isSign (unended child isChild)
  · rw [stop]
    exact mayEnd_of_mayEndBefore on run ends (by simp)

end Terminates

end Phrase

theorem jump_terminates (rule : Rule) (word : Keyword) :
    (Phrase.jumpStatement rule word).Terminates settings rule :=
  .after (.either (.after (.after .here)) .here)

/-- A statement that is read by its own phrase stands where it may end. -/
theorem readBy_mayEnd (sized : settings.size = Text.size settings.source) {rule : Rule}
    (isTerminated : rule ∈ [.expressionStatement, .returnStatement, .breakStatement,
      .continueStatement, .throwStatement, .debuggerStatement])
    {phrase : Phrase} (readBy : ReadBy rule phrase) {tree : SyntaxTree}
    (makes : phrase.Makes settings tree)
    (unended : ∀ part ∈ tree.children, part.label ≠ semicolon) :
    MayEnd settings.source ['\x7d'] tree.span.stop := by
  have one {phrase : Phrase} (leads : phrase.LeadsOne Kind.isStatement) :
      phrase.Leads (Shape.One Kind.isStatement) [] :=
    leads fun kind isSort => ⟨kind, isSort, rfl⟩
  cases readBy with
  | expressionStatement =>
      exact Phrase.Terminates.here.after.mayEnd (one Phrase.expressionStatement_leads) sized makes
        unended
  | returnStatement =>
      have terminates : Phrase.returnStatement.Terminates settings .returnStatement :=
        .after (.after (.either (.after (.after .here)) .here))
      exact terminates.mayEnd (one Phrase.returnStatement_leads) sized makes unended
  | breakStatement =>
      exact (jump_terminates _ _).mayEnd (one (Phrase.jumpStatement_leads (by simp))) sized makes
        unended
  | continueStatement =>
      exact (jump_terminates _ _).mayEnd (one (Phrase.jumpStatement_leads (by simp))) sized makes
        unended
  | throwStatement =>
      exact Phrase.Terminates.here.after.after.after.mayEnd (one Phrase.throwStatement_leads) sized
        makes unended
  | debuggerStatement =>
      have leads : Phrase.debuggerStatement.LeadsOne Kind.isStatement := fun holds =>
        ⟨rfl, Phrase.terminator_leads fun ending ended => ⟨⟨ending, ended, rfl⟩, holds _ rfl⟩⟩
      exact Phrase.Terminates.here.after.mayEnd (one leads) sized makes unended
  | function isFunction | asyncFunction isFunction =>
      rcases isFunction with rfl | rfl <;> simp at isTerminated
  | _ => simp at isTerminated

theorem declaration_mayEnd (sized : settings.size = Text.size settings.source) {word : Keyword}
    (declares : word ∈ [Keyword.varWord, .letWord, .constWord]) {tree : SyntaxTree}
    (makes : (Phrase.declaration word).Makes settings tree)
    (unended : ∀ part ∈ tree.children, part.label ≠ semicolon) :
    MayEnd settings.source ['\x7d'] tree.span.stop := by
  have leads : (Phrase.declaration word).Leads (Shape.One Kind.isStatement) [] :=
    Phrase.declaration_leads declares ⟨_, rfl, rfl⟩
  have terminates : (Phrase.declaration word).Terminates settings .variableDeclaration :=
    .after (.after (.after .here))
  exact terminates.mayEnd leads sized makes unended

/-! ## Restricted productions -/

/-- What a token is followed by in the same line. -/
theorem sameLine_of_continues (on : Place.On settings.source point.place)
    (continues : ∃ token, point.next settings.dialect = .ok token ∧
      continuesAt settings token = true) {trees : List SyntaxTree}
    (spans : Spans point trees last) :
    ∀ tree ∈ trees.head?, SameLine settings.source point.place.offset tree.span.start := by
  intro tree isFirst
  obtain ⟨token, run, sameLine⟩ := continues
  obtain ⟨start, gap, skipped, same⟩ := spans.start tree isFirst
  have scanned := (Token.scan_scanned run).skipped
  rw [skipped] at scanned
  cases scanned
  rw [same]
  exact sameLine_of_plain on run (continuesAt_plain sameLine)

/-- The sign of an update stands in the line of its operand. -/
theorem updated_makes (sized : settings.size = Text.size settings.source) {tree : SyntaxTree}
    (makes : Phrase.updated.Makes settings tree) :
    ∃ operand operator, tree.children = [operand, operator] ∧
      SameLine settings.source operand.span.stop operator.span.start := by
  obtain ⟨scope, point, last, inText, middle, between, operandReads, _, _,
    ⟨⟨token, run, follows⟩, rfl, rfl⟩, _, _, ⟨-, rfl, rfl⟩, _, _, ⟨sign, signRun, -, rfl, rfl⟩, rfl,
    reduced⟩ := makes
  obtain rfl := List.singleton_inj.mp reduced
  rw [run] at signRun
  cases signRun
  obtain ⟨operand, rfl, -, spans, behind⟩ :=
    reads_one Phrase.leftHandSide_leads operandReads inText
  refine ⟨operand, _, rfl, ?_⟩
  rw [spans.stop operand rfl]
  exact sameLine_of_plain (behind sized) run (isPostfixAt_plain follows)

/-- A statement that ends right behind a keyword. -/
theorem terminator_mayEnd (on : Place.On settings.source point.place) {scope : Scope}
    {before trees : List SyntaxTree}
    (reads : Phrase.terminator.Reads settings (Derives settings) scope point before last trees) :
    MayEnd settings.source ['\x7d', ';'] point.place.offset ∧
      (trees = before ∨ ∃ span, trees = before ++ [.leaf semicolon span]) := by
  rcases terminator_reads reads with ⟨token, run, isSign, rfl, rfl⟩ | ⟨token, run, ends, rfl, rfl⟩
  · have scanned := Token.scan_scanned run
    have spelled : token.text = [';'] := by
      have isSemicolon : token.kind = .punctuator .semicolon := by
        simpa [Token.isPunctuator] using isSign
      have spelled := scanned.spelled
      rwa [isSemicolon] at spelled
    have current : token.start.current = some ';' := by
      rw [Place.current, scanned.covers.rest, spelled]
      rfl
    obtain ⟨skipped, reaches, -⟩ := Trivia.skip_reaches scanned.skipped
    refine ⟨⟨token.start, token.gap, skipped, ?_, on.slice?_eq reaches,
      .inr (.inl ⟨';', by simp, current⟩)⟩, .inr ⟨_, rfl⟩⟩
    rw [on.ofOffset_eq]
    exact scanned.skipped
  · exact ⟨mayEnd_of_mayEndBefore on run ends (by simp), .inl rfl⟩

/-- A value is returned in the line of its keyword, and nothing is returned
only where the statement may end. -/
theorem returnStatement_makes (sized : settings.size = Text.size settings.source)
    {tree : SyntaxTree} (makes : Phrase.returnStatement.Makes settings tree) :
    ∃ keyword rest, tree.children = keyword :: rest ∧
      ((∀ part ∈ rest, part.label = semicolon) →
        MayEnd settings.source ['\x7d', ';'] keyword.span.stop) ∧
      ∀ argument ∈ rest.head?, argument.label ≠ semicolon →
        SameLine settings.source keyword.span.stop argument.span.start := by
  obtain ⟨scope, point, last, inText, _, _, ⟨-, rfl, rfl⟩, _, _, ⟨token, run, -, rfl, rfl⟩,
    argued | ended⟩ := makes
  · obtain ⟨_, _, ⟨sameLine, rfl, rfl⟩, _, _, ⟨added, valueReads, rfl⟩, _, children, ends, rfl,
      reduced⟩ := argued
    obtain rfl := List.singleton_inj.mp reduced
    have behind := inText.after run
    obtain ⟨argument, rfl, isExpression, spans, -⟩ :=
      reads_one Phrase.expression_leads valueReads behind
    have inLine := sameLine_of_continues (behind sized) (sameLine rfl) spans argument rfl
    have starts : ∃ later, children = .leaf (.fixed (.keyword .returnWord)) token.span ::
        argument :: later := by
      rcases terminator_reads ends with ⟨_, -, -, -, rfl⟩ | ⟨_, -, -, -, rfl⟩
      · exact ⟨[_], rfl⟩
      · exact ⟨[], rfl⟩
    obtain ⟨later, rfl⟩ := starts
    refine ⟨_, argument :: later, rfl, fun only => ?_, ?_⟩
    · rw [only argument (by simp)] at isExpression
      cases isExpression
    · rintro _ ⟨⟩ -
      exact inLine
  · obtain ⟨_, children, ends, rfl, reduced⟩ := ended
    obtain rfl := List.singleton_inj.mp reduced
    obtain ⟨mayEnd, rfl | ⟨span, rfl⟩⟩ := terminator_mayEnd (inText.after run sized) ends
    · exact ⟨_, [], rfl, fun _ => mayEnd, by simp⟩
    · refine ⟨_, [.leaf semicolon span], rfl, fun _ => mayEnd, ?_⟩
      rintro _ ⟨⟩ other
      exact absurd rfl other

/-- The target of a jump stands in the line of its keyword. -/
theorem jumpStatement_makes (sized : settings.size = Text.size settings.source) {rule : Rule}
    {word : Keyword} {tree : SyntaxTree}
    (makes : (Phrase.jumpStatement rule word).Makes settings tree) :
    ∃ keyword rest, tree.children = keyword :: rest ∧
      ∀ target ∈ rest.head?, target.label ≠ semicolon →
        SameLine settings.source keyword.span.stop target.span.start := by
  obtain ⟨scope, point, last, inText, _, _, ⟨token, run, -, rfl, rfl⟩, aimed | ended⟩ := makes
  · obtain ⟨_, _, ⟨sameLine, rfl, rfl⟩, _, _, ⟨target, targetRun, -, rfl, rfl⟩, _, children, ends,
      rfl, reduced⟩ := aimed
    obtain rfl := List.singleton_inj.mp reduced
    have inLine := sameLine_of_continues (inText.after run sized) (sameLine rfl)
      (Spans.leaf targetRun) (.leaf (.rule .label) target.span) rfl
    rcases terminator_reads ends with ⟨_, -, -, -, rfl⟩ | ⟨_, -, -, -, rfl⟩
    · refine ⟨_, _, rfl, ?_⟩
      rintro _ ⟨⟩ -
      exact inLine
    · refine ⟨_, _, rfl, ?_⟩
      rintro _ ⟨⟩ -
      exact inLine
  · obtain ⟨_, children, ends, rfl, reduced⟩ := ended
    obtain rfl := List.singleton_inj.mp reduced
    rcases terminator_reads ends with ⟨_, -, -, -, rfl⟩ | ⟨_, -, -, -, rfl⟩
    · refine ⟨_, _, rfl, ?_⟩
      rintro _ ⟨⟩ other
      exact absurd rfl other
    · exact ⟨_, [], rfl, by simp⟩

/-- What is thrown begins in the line that its keyword ends in. -/
theorem throwStatement_makes (sized : settings.size = Text.size settings.source)
    {tree : SyntaxTree} (makes : Phrase.throwStatement.Makes settings tree) :
    ∃ keyword argument rest, tree.children = keyword :: argument :: rest ∧
      InLine settings.source keyword.span.stop argument.span.start := by
  obtain ⟨scope, point, last, inText, _, _, ⟨token, run, -, rfl, rfl⟩, _, _,
    ⟨⟨next, nextRun, unbroken⟩, rfl, rfl⟩, _, _, ⟨added, valueReads, rfl⟩, _, children, ends, rfl,
    reduced⟩ := makes
  obtain rfl := List.singleton_inj.mp reduced
  have behind := inText.after run
  obtain ⟨argument, rfl, -, spans, -⟩ := reads_one Phrase.expression_leads valueReads behind
  have inLine : InLine settings.source token.stop.offset argument.span.start := by
    obtain ⟨start, gap, skips, same⟩ := spans.start argument rfl
    have scanned := (Token.scan_scanned nextRun).skipped
    rw [skips] at scanned
    cases scanned
    obtain ⟨skipped, reaches, -⟩ := Trivia.skip_reaches skips
    rw [reaches.upTo_eq] at unbroken
    refine ⟨skipped, ?_, by simpa using unbroken⟩
    rw [same]
    exact (behind sized).slice?_eq reaches
  rcases terminator_reads ends with ⟨_, -, -, -, rfl⟩ | ⟨_, -, -, -, rfl⟩
  · exact ⟨_, argument, _, rfl, inLine⟩
  · exact ⟨_, argument, _, rfl, inLine⟩

/-- The word in front of an asynchronous function is followed in its line. -/
theorem Followed.sameLine (sized : settings.size = Text.size settings.source) {tree : SyntaxTree}
    (followed : Followed settings tree) (isAsync : tree.label.isAsync = true) :
    ∃ start gap, Trivia.skip (Place.ofOffset settings.source tree.span.stop) = .ok (start, gap) ∧
      SameLine settings.source tree.span.stop start.offset := by
  obtain ⟨point, token, next, inText, run, same, nextRun, continues⟩ := followed isAsync
  have on := inText.after run sized
  refine ⟨next.start, next.gap, ?_, ?_⟩
  · rw [same]
    change Trivia.skip (Place.ofOffset _ (Point.after token).place.offset) = _
    rw [on.ofOffset_eq]
    exact (Token.scan_scanned nextRun).skipped
  · rw [same]
    exact sameLine_of_plain on nextRun (continuesAt_plain continues)

end Grammar

/-! ## Texts -/

open Grammar

/-- What holds of the lines around a node and its children. -/
structure Punctuated (source : Text) (node : SyntaxTree) : Prop where
  /-- A statement without a semicolon is followed by a brace, by the end of the
  text, or by a line terminator or comment.  A declaration in the head of a
  loop is no statement. -/
  ended : ∀ child ∈ node.children,
    child.label ∈ [Kind.rule .expressionStatement, .rule .variableDeclaration,
      .rule .returnStatement, .rule .breakStatement, .rule .continueStatement,
      .rule .throwStatement, .rule .debuggerStatement] →
    (child.label = .rule .variableDeclaration → node.label ≠ .rule .forSpec) →
    (∀ part ∈ child.children, part.label ≠ semicolon) → MayEnd source ['\x7d'] child.span.stop
  updated : node.label = .rule .postfixExpression → ∃ operand operator,
    node.children = [operand, operator] ∧ SameLine source operand.span.stop operator.span.start
  returned : node.label = .rule .returnStatement → ∃ keyword rest,
    node.children = keyword :: rest ∧
    ((∀ part ∈ rest, part.label = semicolon) → MayEnd source ['\x7d', ';'] keyword.span.stop) ∧
    ∀ argument ∈ rest.head?, argument.label ≠ semicolon →
      SameLine source keyword.span.stop argument.span.start
  jumped : node.label ∈ [Kind.rule .breakStatement, .rule .continueStatement] → ∃ keyword rest,
    node.children = keyword :: rest ∧ ∀ target ∈ rest.head?, target.label ≠ semicolon →
      SameLine source keyword.span.stop target.span.start
  thrown : node.label = .rule .throwStatement → ∃ keyword argument rest,
    node.children = keyword :: argument :: rest ∧
    InLine source keyword.span.stop argument.span.start
  modified : node.label.isAsync = true → ∃ start gap,
    Trivia.skip (Place.ofOffset source node.span.stop) = .ok (start, gap) ∧
    SameLine source node.span.stop start.offset

namespace Grammar

/-- Nodes that are traced back to a phrase have children. -/
def Branches (tree : SyntaxTree) : Prop :=
  ∀ rule, tree.label = .rule rule → rule.isTraced = true → tree.children ≠ []

theorem Shaped.branches {tree : SyntaxTree} (shaped : Shaped tree) : Branches tree := by
  intro rule isRule traced none
  unfold Shaped at shaped
  rw [isRule, none] at shaped
  obtain ⟨-, terminal⟩ | ⟨-, inner, -, same⟩ | takes := shaped
  · have both : ∀ rule : Rule, rule.isTraced = true → rule.isTerminal = false := by
      intro rule traced
      cases rule <;> first | rfl | cases traced
    rw [both rule traced] at terminal
    cases terminal
  · cases same
  · exact Rule.Takes.nonempty takes rfl

variable {settings : Settings} {tree : SyntaxTree}

/-- A statement without a semicolon ends where it may. -/
theorem Traced.mayEnd (sized : settings.size = Text.size settings.source)
    (traced : Traced settings tree) (branches : Branches tree)
    (own : tree.label = .rule .variableDeclaration → OwnStatement settings tree)
    (terminated : tree.label ∈ [Kind.rule .expressionStatement, .rule .variableDeclaration,
      .rule .returnStatement, .rule .breakStatement, .rule .continueStatement,
      .rule .throwStatement, .rule .debuggerStatement])
    (unended : ∀ part ∈ tree.children, part.label ≠ semicolon) :
    MayEnd settings.source ['\x7d'] tree.span.stop := by
  by_cases declares : tree.label = .rule .variableDeclaration
  · have nonempty := branches _ declares rfl
    obtain ⟨word, isWord, makes⟩ := own declares declares nonempty
    exact declaration_mayEnd sized isWord makes unended
  · obtain ⟨rule, isRule, isTraced, member⟩ : ∃ rule, tree.label = .rule rule ∧
        rule.isTraced = true ∧ rule ∈ [Rule.expressionStatement, .returnStatement, .breakStatement,
          .continueStatement, .throwStatement, .debuggerStatement] := by
      simp only [List.mem_cons, List.not_mem_nil, or_false] at terminated
      rcases terminated with same | same | same | same | same | same | same
      case inr.inl => exact absurd same declares
      all_goals exact ⟨_, same, rfl, by simp⟩
    obtain ⟨phrase, readBy, makes⟩ := traced rule isRule isTraced (branches rule isRule isTraced)
    exact readBy_mayEnd sized member readBy makes unended

/-- Lines around a node that was read. -/
theorem Placed.punctuated (sized : settings.size = Text.size settings.source)
    (placed : Placed settings tree) (branches : Branches tree)
    (below : ∀ child ∈ tree.children, Placed settings child ∧ Branches child) :
    Punctuated settings.source tree where
  ended child isChild terminated outside unended := by
    obtain ⟨childPlaced, childBranches⟩ := below child isChild
    exact childPlaced.traced.mayEnd sized childBranches
      (fun declares => placed.declared (outside declares) child isChild) terminated unended
  updated isRule := by
    obtain ⟨phrase, readBy, makes⟩ := placed.traced _ isRule rfl (branches _ isRule rfl)
    cases readBy with
    | updated => exact updated_makes sized makes
    | function isFunction | asyncFunction isFunction => simp at isFunction
  returned isRule := by
    obtain ⟨phrase, readBy, makes⟩ := placed.traced _ isRule rfl (branches _ isRule rfl)
    cases readBy with
    | returnStatement => exact returnStatement_makes sized makes
    | function isFunction | asyncFunction isFunction => simp at isFunction
  jumped isRule := by
    simp only [List.mem_cons, List.not_mem_nil, or_false] at isRule
    rcases isRule with isRule | isRule
    · obtain ⟨phrase, readBy, makes⟩ := placed.traced _ isRule rfl (branches _ isRule rfl)
      cases readBy with
      | breakStatement => exact jumpStatement_makes sized makes
      | function isFunction | asyncFunction isFunction => simp at isFunction
    · obtain ⟨phrase, readBy, makes⟩ := placed.traced _ isRule rfl (branches _ isRule rfl)
      cases readBy with
      | continueStatement => exact jumpStatement_makes sized makes
      | function isFunction | asyncFunction isFunction => simp at isFunction
  thrown isRule := by
    obtain ⟨phrase, readBy, makes⟩ := placed.traced _ isRule rfl (branches _ isRule rfl)
    cases readBy with
    | throwStatement => exact throwStatement_makes sized makes
    | function isFunction | asyncFunction isFunction => simp at isFunction
  modified isAsync := placed.followed.sameLine sized isAsync

theorem every_punctuated (sized : settings.size = Text.size settings.source)
    (placed : tree.Every (Placed settings)) (shaped : tree.Every Shaped) :
    tree.Every (Punctuated settings.source) := by
  induction tree using Tree.induct with
  | node label span children ih =>
      refine .node (placed.here.punctuated sized shaped.here.branches fun child isChild => ?_)
        fun child isChild =>
          ih child isChild (placed.of_child child isChild) (shaped.of_child child isChild)
      exact ⟨(placed.of_child child isChild).here, (shaped.of_child child isChild).here.branches⟩

end Grammar

/-- In every text that is read, statements end where they may, and lines are
not broken where they must not be. -/
theorem parse_punctuated (options : Options) (source : Text) (tree : SyntaxTree)
    (parsed : parse options source = .ok tree) : tree.Every (Punctuated source) := by
  obtain ⟨trees, rfl, known⟩ := parseWith_known parsed
  obtain ⟨_, _, _, same, shaped, -, -, -⟩ := allShaped_composes.parseWith parsed
  cases same
  have root : Placed (Settings.ofOptions options source)
      (.node (.rule .script) ⟨0, Text.size source⟩ trees) := by
    refine ⟨followed_of_plain rfl, ?_, fun _ child isChild => (known child isChild).2⟩
    intro rule same traced
    cases same
    cases traced
  have branches : Branches (.node (.rule .script) ⟨0, Text.size source⟩ trees) := by
    intro rule same traced
    cases same
    cases traced
  refine .node ?_ fun child isChild =>
    every_punctuated rfl (known child isChild).1 (shaped child isChild)
  exact root.punctuated rfl branches fun child isChild =>
    ⟨(known child isChild).1.here, (shaped child isChild).here.branches⟩

/-- A return without a value, its line broken by a comment. -/
theorem parse_punctuated_return :
    ∃ tree, parse ⟨.script, .standard⟩ "async()=>\x7breturn/**/x\n++y\x7d".toList = .ok tree ∧
      tree.Every (Punctuated "async()=>\x7breturn/**/x\n++y\x7d".toList) := by
  obtain ⟨tree, parsed⟩ := exists_of_isOk ⟨.script, .standard⟩
    "async()=>\x7breturn/**/x\n++y\x7d".toList (by decide +kernel)
  exact ⟨tree, parsed, parse_punctuated _ _ _ parsed⟩

end ScriptTree
