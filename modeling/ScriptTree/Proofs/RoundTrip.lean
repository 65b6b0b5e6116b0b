import ScriptTree.Proofs.Grammar.Forms

/-!
# Expressions are read back as they were written

Every expression of names and operators that is written with its parts in
parentheses is read, and rebuilt into itself.
-/

namespace ScriptTree

open Estree

namespace Grammar

/-! ## Expressions -/

variable {settings : Settings} {expression : Node}

/-- The words of an expression are read as that expression. -/
theorem reads_expression (unbounded : settings.limit = none)
    (sized : settings.size = Text.size settings.source)
    (isExpression : IsExpression settings.dialect expression) : Reads settings expression := by
  have operand {expression : Node} (reads : ReadsBy settings unary expression) :
      Reads settings expression :=
    (reads.binary.conditional.assignment unbounded).whole
  have joined {expression : Node}
      (reads : ReadsBy settings (binary · BinaryOperator.lowest) expression) :
      Reads settings expression :=
    (reads.conditional.assignment unbounded).whole
  obtain ⟨-, binds, skips⟩ := ofToken?_between settings.dialect
  -- What is known of a part is used where its group is read, with fewer steps left.
  induction isExpression with
  | identifier isName free => exact operand (reads_identifier sized isName free)
  | unary known inner ih => exact operand (reads_unary unbounded sized known ih)
  | update known target inner ih =>
      exact operand (reads_update unbounded sized known target inner ih _)
  | binary known first second firstIh secondIh =>
      exact joined (reads_between unbounded sized (List.mem_append_left _ known) ⟨first, firstIh⟩
        ⟨second, secondIh⟩ (by rw [Node.words]) (by rintro ⟨⟩) (binary_process (binds _ known) _ _))
  | logical known first second firstIh secondIh =>
      exact joined (reads_between unbounded sized (List.mem_append_right _ known) ⟨first, firstIh⟩
        ⟨second, secondIh⟩ (by rw [Node.words]) (by rintro ⟨⟩)
        (logical_process (skips _ known) _ _))
  | conditional first second third firstIh secondIh thirdIh =>
      exact ((reads_conditional unbounded sized ⟨first, firstIh⟩ ⟨second, secondIh⟩
        ⟨third, thirdIh⟩).assignment unbounded).whole
  | assignment known target first second firstIh secondIh =>
      exact (reads_assignment unbounded sized known target ⟨first, firstIh⟩
        ⟨second, secondIh⟩).whole
  | member inner word ih =>
      exact operand ((extends_member sized word).reads sized ⟨inner, ih⟩
        (by rw [Node.words, Node.words]))
  | computed first second firstIh secondIh =>
      exact operand ((extends_computed unbounded sized ⟨second, secondIh⟩).reads sized
        ⟨first, firstIh⟩ (by rw [Node.words]))
  | call first each ih eachIh =>
      exact operand ((extends_call unbounded sized fun argument isIn =>
        ⟨each argument isIn, eachIh argument isIn⟩).reads sized ⟨first, ih⟩ (by rw [Node.words]))
  | sequence several each ih =>
      exact reads_sequence unbounded sized several fun part isIn => ⟨each part isIn, ih part isIn⟩
  | array each ih =>
      exact operand (reads_array unbounded sized fun element isIn =>
        ⟨each element isIn, ih element isIn⟩)

/-! ## Statements -/

section

variable {point last : Point} {token second closer : Token} {descent : Descent}
  {tree : SyntaxTree} {steps : Nat}

/-- A statement that starts with a name in front of a semicolon is an expression. -/
theorem Arrives.statement_name (unbounded : settings.limit = none)
    (next : point.next settings.dialect = .ok token) (isName : token.kind = .identifier)
    (follows : (Point.after token).next settings.dialect = .ok second)
    (ends : second.kind = .punctuator .semicolon)
    (reads : Arrives settings (expressionStatement descent) point tree last) :
    Arrives settings (statement descent) point tree last := by
  intro state stands
  have bare : Bare settings token second := ⟨isName, follows, by rw [ends]; rfl⟩
  obtain ⟨after, standsAfter, run⟩ := reads _ ((stands.deepen (state.depth + 1)).look next)
  exact ⟨_, standsAfter.deepen (after.depth - 1), statement_run unbounded bare (stands.facing next)
    (isPunctuator_of_kind ends (by decide)) run⟩

/-- A statement that starts with an operator or a bracket is an expression. -/
theorem Arrives.statement_writing (unbounded : settings.limit = none)
    (next : point.next settings.dialect = .ok token) (starts : startsWriting token.kind = true)
    (reads : Arrives settings (expressionStatement descent) point tree last) :
    Arrives settings (statement descent) point tree last := by
  refine .nested unbounded (.bind (.peek next) ?_)
  unfold startsWriting at starts
  split at starts
  case h_12 => cases starts
  all_goals
    rename_i kind
    rw [kind]
    exact reads

/-- An expression in front of a semicolon is a statement. -/
theorem expression_statement (unbounded : settings.limit = none)
    (sized : settings.size = Text.size settings.source)
    (isExpression : IsExpression settings.dialect expression)
    (enough : 2 * expression.words.length + 2 ≤ steps) (inText : point.InText settings)
    (words : Words settings point expression.words last)
    (behind : last.next settings.dialect = .ok closer)
    (closes : closer.kind = .punctuator .semicolon) :
    (∃ token, point.next settings.dialect = .ok token ∧ token.isEnd = false) ∧
      ∃ tree, Means settings.source tree (.node (.expressionStatement expression)) ∧
        Arrives settings (Grammar.statement (within steps)) point tree (.after closer) := by
  obtain ⟨value, conveys, arrives⟩ :=
    reads_expression unbounded sized isExpression enough inText words behind (.inr closes)
  let sign : SyntaxTree := .leaf (.fixed (.punctuator .semicolon)) closer.span
  have reads : Arrives settings (expressionStatement (within steps)) point
      (build .expressionStatement [value, sign]) (.after closer) := by
    refine .bind arrives (.bind ?_ (.pure _))
    exact .bind (.accept_some behind (isPunctuator_true closes)) (.pure _)
  have means : Means settings.source (build .expressionStatement [value, sign])
      (.node (.expressionStatement expression)) :=
    .build (.cons conveys.means
      (.cons (means_sign sized (words.inText inText) behind closes) .nil)) (by simp) rfl
  obtain ⟨name, rfl, isName⟩ | ⟨first, more, same, isHead⟩ := isExpression.head
  · rw [Node.words] at words
    obtain ⟨token, next, is, rest⟩ := words.cons_cases
    cases rest
    have kind : token.kind = .identifier := is.kind.trans (IsName.kindOf isName)
    exact ⟨⟨token, next, by rw [Token.isEnd, kind]; rfl⟩, _, means,
      .statement_name unbounded next kind behind closes reads⟩
  · rw [same] at words
    obtain ⟨token, next, is, -⟩ := words.cons_cases
    have starts : startsWriting token.kind = true :=
      is.kind ▸ startsWriting_heads settings.dialect first isHead
    refine ⟨⟨token, next, ?_⟩, _, means, .statement_writing unbounded next starts reads⟩
    refine beq_false_of_ne fun same => ?_
    rw [same] at starts
    cases starts

end

/-! ## Whole texts -/

section

variable {point last : Point} {token ending : Token} {tree : SyntaxTree}

/-- A text with one statement in it. -/
theorem Arrives.script_one {descent : Descent} (rounds : 1 < descent.rounds)
    (next : point.next settings.dialect = .ok token) (notEnd : token.isEnd = false)
    (reads : Arrives settings (descent.read .statement) point tree last)
    (behind : last.next settings.dialect = .ok ending) (isEnd : ending.isEnd = true) :
    Arrives settings (script descent) point
      (.node (.rule .script) ⟨0, settings.size⟩ [tree]) last := by
  intro state stands
  obtain ⟨after, standsAfter, run⟩ := reads _ (stands.look next)
  exact ⟨after.look ending, standsAfter.look behind, script_run rounds (stands.facing next) notEnd
    run (standsAfter.facing behind) isEnd⟩

end

/-- What is read from the start of a text is what the text is read as. -/
theorem parseWith_of_arrives {last : Point} {tree : SyntaxTree}
    (arrives : Arrives settings
      (script ⟨stepsFor settings.size, Grammar.read (stepsFor settings.size)⟩)
      (State.initial settings.source).point tree last) : parseWith settings = .ok tree := by
  obtain ⟨after, -, run⟩ := arrives (State.initial settings.source) ⟨nofun, rfl, rfl⟩
  unfold parseWith
  simp only [run]

theorem length_le_spacedTail (words : List Text) :
    words.length ≤ Text.size (spacedTail [] words) := by
  induction words with
  | nil => exact Nat.zero_le _
  | cons word words ih =>
      have space := Char.utf8Size_pos ' '
      simp only [spacedTail, List.length_cons, Text.size_cons, Text.size_append]
      omega

/-- There is a space between any two words. -/
theorem length_le_size (words : List Text) :
    words.length ≤ Text.size ([' '].intercalate words) + 1 := by
  cases words with
  | nil => exact Nat.zero_le _
  | cons first rest =>
      have spaced := spaced_cons [] first rest
      have few := length_le_spacedTail rest
      rw [List.append_nil] at spaced
      rw [spaced, Text.size_append, List.length_cons]
      omega

/-- A semicolon ends a text behind any number of spaces. -/
theorem semicolon_next (dialect : Dialect) (spaces offset : Nat) (patternAllowed : Bool) :
    ∃ closer ending,
      Point.next ⟨⟨offset, List.replicate spaces ' ' ++ [';']⟩, patternAllowed⟩ dialect =
        .ok closer ∧
      closer.kind = .punctuator .semicolon ∧ (Point.after closer).next dialect = .ok ending ∧
        ending.isEnd = true := by
  induction spaces generalizing offset with
  | zero =>
      have scanned : Token.scan dialect ⟨offset, Punctuator.semicolon.chars ++ []⟩ patternAllowed =
          _ := Token.scan_sign (fun _ => by decide) (.inl rfl)
      exact ⟨_, _, scanned, rfl, rfl, rfl⟩
  | succ spaces ih =>
      obtain ⟨closer, ending, next, rest⟩ := ih (offset + 1)
      exact ⟨closer, ending, (Point.next_space _ _ _ _).trans next, rest⟩

end Grammar

open Grammar

/-- Every expression of names, operators, accesses, calls, sequences and arrays
is read back from the text it is written as. -/
theorem transform_text (dialect : Dialect) (bounds : Bounds) (unbounded : bounds.limit = none)
    (spaces : Nat) {expression : Node} (isExpression : IsExpression dialect expression) :
    transform ⟨dialect, bounds⟩ (expression.text ++ (List.replicate spaces ' ' ++ [';'])) =
      .ok (.program [.expressionStatement expression] .script) := by
  let more : Text := List.replicate spaces ' ' ++ [';']
  let settings : Settings := .ofOptions ⟨dialect, bounds⟩ (expression.text ++ more)
  have parted : Token.Parted more := by
    cases spaces with
    | zero => exact .inr (.inr ⟨_, rfl⟩)
    | succ spaces => exact .inr (.inl ⟨_, rfl⟩)
  have paced : isPaced settings.dialect true expression.words = true := by
    have anywhere := isExpression.anywhere true [] fun _ => rfl
    rwa [List.append_nil] at anywhere
  obtain ⟨⟨⟨offset, rest⟩, patternAllowed⟩, words, rfl⟩ := words_spaced parted 0 paced
  obtain ⟨closer, ending, behind, closes, follows, isEnd⟩ :=
    semicolon_next dialect spaces offset patternAllowed
  have inText : (State.initial settings.source).point.InText settings :=
    fun _ => Place.On.first settings.source
  -- A space stands between any two words, so the text is long enough for the steps they need.
  have enough : 2 * expression.words.length + 2 ≤ stepsFor settings.size - 1 := by
    have long : settings.size = Text.size expression.text + Text.size more := Text.size_append _ _
    have few := length_le_size expression.words
    rw [stepsFor, long, Node.text]
    omega
  obtain ⟨⟨token, next, notEnd⟩, tree, means, arrives⟩ := expression_statement unbounded rfl
    isExpression enough inText words behind closes
  have read : Arrives settings (Grammar.read (stepsFor settings.size) .statement)
      (State.initial settings.source).point tree (.after closer) := arrives
  have parsed : Grammar.parse ⟨dialect, bounds⟩ (expression.text ++ more) =
      .ok (.node (.rule .script) ⟨0, settings.size⟩ [tree]) :=
    parseWith_of_arrives (.script_one (by simp [stepsFor]) next notEnd read follows isEnd)
  have meansScript : Means (expression.text ++ more)
      (.node (.rule .script) ⟨0, settings.size⟩ [tree])
      (.node (.program [.expressionStatement expression] .script)) :=
    means_node (.cons means .nil) rfl rfl
  unfold transform
  rw [parsed]
  simp only
  rw [transformTree_eq, unbounded, meansScript 0]
  rfl

/-- Targets in parentheses and holes are read back too. -/
theorem transform_text_hole :
    transform ⟨.script, ⟨none, 1, 2⟩⟩ "( a ) = ( [ , ( b ) ] ) ;".toList =
      .ok (.program [.expressionStatement (.assignmentExpression "=" (.identifier "a")
        (.arrayExpression [none, some (.identifier "b")]))] .script) := by
  have first : IsExpression .script (.identifier "a") :=
    .identifier ⟨by decide, by decide, by decide⟩ (by decide)
  have second : IsExpression .script (.identifier "b") :=
    .identifier ⟨by decide, by decide, by decide⟩ (by decide)
  have array : IsExpression .script (.arrayExpression [none, some (.identifier "b")]) :=
    .array (by simpa using second)
  have written : "( a ) = ( [ , ( b ) ] ) ;".toList = Node.text (.assignmentExpression "="
      (.identifier "a") (.arrayExpression [none, some (.identifier "b")])) ++
        (List.replicate 1 ' ' ++ [';']) := by
    decide +kernel
  rw [written]
  exact transform_text .script ⟨none, 1, 2⟩ rfl 1
    (.assignment (by decide) (.variable (by decide)) first array)

end ScriptTree
