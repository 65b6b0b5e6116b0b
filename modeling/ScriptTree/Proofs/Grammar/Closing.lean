import ScriptTree.Proofs.Grammar.Derivation

/-!
# Where operands end

The last leaf of an operand tells whether a slash behind it opens a pattern.
It does behind a closing brace and behind a reserved word that names a member;
behind everything else with which an operand can end a slash divides.
-/

namespace ScriptTree

/-! ## The last leaf of a tree -/

/-- Whether a slash opens a pattern behind an operand with this last leaf. -/
def Leaf.opensPattern (dialect : Dialect) (source : Text) (leaf : Leaf) : Bool :=
  leaf.label == .fixed (.punctuator .rightBrace) ||
    (leaf.label == .rule .propertyName &&
      (leaf.span.text? source).any (Token.wordKind dialect · != .identifier))

namespace Tree

def endsOpen (dialect : Dialect) (source : Text) (tree : SyntaxTree) : Bool :=
  (tree.leaves false).getLast?.any (·.opensPattern dialect source)

theorem leaves_ne_nil (opensText : Bool) (tree : SyntaxTree) : tree.leaves opensText ≠ [] := by
  induction tree using Tree.induct generalizing opensText with
  | node label span children ih =>
      cases children with
      | nil => simp [leaves]
      | cons first rest =>
          intro none
          simp only [leaves, List.isEmpty_cons, Bool.false_eq_true, if_false, leavesOf,
            List.append_eq_nil_iff] at none
          exact ih first (by simp) _ none.1

theorem leavesOf_getLast? {inTemplate : Bool} {trees : List SyntaxTree} {tree : SyntaxTree}
    (isLast : trees.getLast? = some tree) :
    (leavesOf inTemplate trees).getLast? = (tree.leaves false).getLast? := by
  induction trees with
  | nil => cases isLast
  | cons first rest ih =>
      cases rest with
      | nil =>
          cases isLast
          simp [leavesOf]
      | cons second rest =>
          have later : (second :: rest).getLast? = some tree := by simpa using isLast
          have last := ih later
          have nonempty : (tree.leaves false).getLast? ≠ none := by
            simpa using leaves_ne_nil false tree
          rw [leavesOf, List.getLast?_append, last]
          cases found : (tree.leaves false).getLast? with
          | none => exact absurd found nonempty
          | some leaf => rfl

variable {dialect : Dialect} {source : Text}

theorem endsOpen_leaf (label : Kind) (span : Span) :
    (leaf label span).endsOpen dialect source =
      (Leaf.mk label span false).opensPattern dialect source := by
  simp [endsOpen, leaves_leaf]

/-- A node ends like its last child. -/
theorem endsOpen_branch {label : Kind} {trees : List SyntaxTree} {tree : SyntaxTree}
    (isLast : trees.getLast? = some tree) :
    (branch label trees).endsOpen dialect source = tree.endsOpen dialect source := by
  have nonempty : trees ≠ [] := by
    rintro rfl
    cases isLast
  unfold endsOpen
  rw [leaves_branch nonempty, leavesOf_getLast? isLast]

end Tree

namespace Token

/-- Words are classified by their text alone. -/
theorem wordKind_scanned {dialect : Dialect} {place : Place} {patternAllowed : Bool} {token : Token}
    (run : scan dialect place patternAllowed = .ok token)
    (isWord : token.kind = .identifier ∨ ∃ word, token.kind = .keyword word) :
    token.kind = wordKind dialect token.text := by
  have notEnd : token.isEnd = false := by
    rcases isWord with isName | ⟨word, isKeyword⟩
    · simp [isEnd, isName]
    · simp [isEnd, isKeyword]
  obtain ⟨first, rest, starts, lexed⟩ := scan_lexeme run notEnd
  have covers := (scan_scanned run).covers
  have read := lexeme_isLexeme lexed
  generalize token.kind = kind at isWord read ⊢
  generalize token.stop = stop at covers read
  cases read with
  | word isName => rw [covers.text_unique (Place.reaches_skipWhile token.start isNamePart)]
  | number | string | pattern | sign => simp at isWord

end Token

namespace Kind

/-- Labels of the tokens with which an operand can end. -/
def isClosing : Kind → Bool
  | .rule .variableName | .rule .number | .rule .string | .rule .regExp | .rule .updateOp
  | .rule .propertyName => true
  | .fixed (.punctuator .rightParen) | .fixed (.punctuator .rightBracket)
  | .fixed (.punctuator .rightBrace) => true
  | _ => false

end Kind

namespace Grammar

variable {settings : Settings} {category : Category} {point last : Point}

/-- Behind a token with which an operand ends, a slash is taken as its leaf
says. -/
theorem isClosing_admits (sized : settings.size = Text.size settings.source) {kind : Kind}
    {token : Token} (closing : kind.isClosing = true) (admits : kind.admits token = true)
    (inText : point.InText settings) (scanned : point.next settings.dialect = .ok token) :
    token.kind.allowsPatternAfter =
      (Leaf.mk kind token.span false).opensPattern settings.dialect settings.source := by
  unfold Kind.isClosing at closing
  split at closing
  case h_1 =>
    rw [eq_of_beq admits]
    rfl
  case h_2 =>
    rw [eq_of_beq admits]
    rfl
  case h_3 =>
    rw [eq_of_beq admits]
    rfl
  case h_4 =>
    rw [eq_of_beq admits]
    rfl
  case h_5 =>
    rcases Bool.or_eq_true_iff.mp admits with is | is
    · rw [eq_of_beq is]
      rfl
    · rw [eq_of_beq is]
      rfl
  case h_6 =>
    have isScanned := Token.scan_scanned scanned
    obtain ⟨skipped, toStart, -⟩ := Trivia.skip_reaches isScanned.skipped
    have text : token.span.text? settings.source = some token.text :=
      ((inText sized).after toStart).slice?_eq isScanned.covers
    have isWord : token.kind = .identifier ∨ ∃ word, token.kind = .keyword word := by
      cases kind : token.kind with
      | identifier => exact .inl rfl
      | keyword word => exact .inr ⟨word, rfl⟩
      | _ => simp [Kind.admits, kind] at admits
    have opens : (Leaf.mk (.rule .propertyName) token.span false).opensPattern settings.dialect
        settings.source = (Token.wordKind settings.dialect token.text != .identifier) := by
      simp [Leaf.opensPattern, text]
    rw [opens, ← Token.wordKind_scanned scanned isWord]
    rcases isWord with is | ⟨word, is⟩
    · rw [is]
      rfl
    · rw [is]
      rfl
  case h_7 =>
    rw [eq_of_beq admits]
    rfl
  case h_8 =>
    rw [eq_of_beq admits]
    rfl
  case h_9 =>
    rw [eq_of_beq admits]
    rfl
  case h_10 => cases closing

/-- A slash at a point is taken as the tree that ends there says. -/
def Follows (settings : Settings) (tree : SyntaxTree) (point : Point) : Prop :=
  point.patternAllowed = tree.endsOpen settings.dialect settings.source

/-- A slash at a point is taken as the last of some trees says. -/
def Ended (settings : Settings) (trees : List SyntaxTree) (point : Point) : Prop :=
  ∃ tree, trees.getLast? = some tree ∧ Follows settings tree point

theorem Ended.single {tree : SyntaxTree} (before : List SyntaxTree)
    (follows : Follows settings tree point) : Ended settings (before ++ [tree]) point :=
  ⟨tree, by simp, follows⟩

theorem Ended.append {added : List SyntaxTree} (before : List SyntaxTree)
    (ended : Ended settings added point) : Ended settings (before ++ added) point := by
  obtain ⟨tree, isLast, follows⟩ := ended
  refine ⟨tree, ?_, follows⟩
  rw [List.getLast?_append, isLast]
  rfl

theorem Ended.build {rule : Rule} {trees : List SyntaxTree} (ended : Ended settings trees point) :
    Follows settings (build rule trees) point := by
  obtain ⟨tree, isLast, follows⟩ := ended
  exact follows.trans (Tree.endsOpen_branch isLast).symm

/-- Whatever is read for an operand ends as its last leaf says. -/
def ending (settings : Settings) : Category :=
  fun goal _ point tree last => point.InText settings →
    last.InText settings ∧ (goal ≠ .statement → Follows settings tree last)

namespace Phrase

/-- Behind a phrase a slash is taken as the last of the collected trees says,
perhaps because it was so before. -/
def Closes : Phrase → Prop → Prop
  | .done, ended | .reduce _, ended => ended
  | .take kind, _ => kind.isClosing = true
  | .ask goal, _ => goal ≠ .statement
  | .sub inner, _ => inner.Closes False
  | .seq first second, ended => second.Closes (first.Closes ended)
  | .either first second, ended => first.Closes ended ∧ second.Closes ended
  | .many inner, ended => ended ∧ inner.Closes True
  | .within _ inner, ended => inner.Closes ended
  | .given holds, ended =>
      ended ∨ ∀ settings scope point trees, ¬holds settings scope point trees
  | .byKind family, ended => ∀ kind, (family kind).Closes ended
  | .template, _ => True

theorem chunks_end {scope : Scope} {trees : List SyntaxTree}
    (asked : ∀ {goal scope point tree last}, category goal scope point tree last →
      ending settings goal scope point tree last)
    (chunks : Chunks settings category scope point trees last) (inText : point.InText settings) :
    last.InText settings ∧ Ended settings trees last := by
  induction chunks with
  | close found => exact ⟨inText.jump found false, _, rfl, rfl⟩
  | text found later ih =>
      obtain ⟨lastAt, ended⟩ := ih (inText.jump found false)
      exact ⟨lastAt, ended.append [_]⟩
  | hole found filled scanned closes later ih =>
      obtain ⟨behind, -⟩ := asked filled (inText.jump found true)
      obtain ⟨lastAt, ended⟩ := ih (behind.after scanned)
      exact ⟨lastAt, ended.append [_, _, _]⟩

theorem closes_ended (sized : settings.size = Text.size settings.source)
    (asked : ∀ {goal scope point tree last}, category goal scope point tree last →
      ending settings goal scope point tree last)
    {phrase : Phrase} {scope : Scope} {before trees : List SyntaxTree} {ended : Prop}
    (reads : phrase.Reads settings category scope point before last trees)
    (inText : point.InText settings) (known : ended → Ended settings before point) :
    last.InText settings ∧ (phrase.Closes ended → Ended settings trees last) := by
  induction phrase generalizing scope point last before trees ended with
  | done =>
      obtain ⟨rfl, rfl⟩ := reads
      exact ⟨inText, known⟩
  | take kind =>
      obtain ⟨token, scanned, admits, rfl, rfl⟩ := reads
      refine ⟨inText.after scanned, fun closing => .single before ?_⟩
      exact (isClosing_admits sized closing admits inText scanned).trans
        (Tree.endsOpen_leaf _ _).symm
  | ask goal =>
      obtain ⟨tree, member, rfl⟩ := reads
      obtain ⟨lastAt, follows⟩ := asked member inText
      exact ⟨lastAt, fun isOperand => .single before (follows isOperand)⟩
  | sub inner ih =>
      obtain ⟨added, reads, rfl⟩ := reads
      obtain ⟨lastAt, closes⟩ := ih reads inText False.elim
      exact ⟨lastAt, fun closing => (closes closing).append before⟩
  | reduce rule =>
      obtain ⟨rfl, rfl⟩ := reads
      exact ⟨inText, fun holds => .single [] (known holds).build⟩
  | seq first second firstIh secondIh =>
      obtain ⟨middle, between, firstReads, secondReads⟩ := reads
      obtain ⟨middleAt, closes⟩ := firstIh firstReads inText known
      exact secondIh secondReads middleAt closes
  | either first second firstIh secondIh =>
      rcases reads with reads | reads
      · obtain ⟨lastAt, closes⟩ := firstIh reads inText known
        exact ⟨lastAt, fun both => closes both.1⟩
      · obtain ⟨lastAt, closes⟩ := secondIh reads inText known
        exact ⟨lastAt, fun both => closes both.2⟩
  | many inner ih =>
      induction reads using Reads.rounds with
      | start => exact ⟨inText, fun both => known both.1⟩
      | round _ step earlier =>
          obtain ⟨currentAt, closes⟩ := earlier
          by_cases both : ended ∧ inner.Closes True
          · obtain ⟨lastAt, next⟩ := ih step currentAt fun _ : True => closes both
            exact ⟨lastAt, fun _ => next both.2⟩
          · obtain ⟨lastAt, -⟩ := ih step currentAt fun never : False => never.elim
            exact ⟨lastAt, fun holds => absurd holds both⟩
  | within change inner ih => exact ih reads inText known
  | given holds =>
      obtain ⟨met, rfl, rfl⟩ := reads
      refine ⟨inText, ?_⟩
      rintro (isEnded | never)
      · exact known isEnded
      · exact absurd met (never _ _ _ _)
  | byKind family ih =>
      obtain ⟨token, -, reads⟩ := reads
      obtain ⟨lastAt, closes⟩ := ih token.kind reads inText known
      exact ⟨lastAt, fun all => closes (all token.kind)⟩
  | template =>
      obtain ⟨token, rest, scanned, -, chunks, rfl⟩ := reads
      obtain ⟨lastAt, closed⟩ := chunks_end asked chunks (inText.after scanned)
      exact ⟨lastAt, fun _ => .single before (closed.append [_]).build⟩

/-! ## The phrases of the grammar -/

section Closes

variable (ended : Prop)

attribute [simp] Closes Kind.isClosing

@[simp]
theorem closes_orElse (first second : Phrase) :
    (first <|> second).Closes ended ↔ first.Closes ended ∧ second.Closes ended :=
  Iff.rfl

theorem block_closes : block.Closes ended := by
  simp [block, all]

theorem function_closes (rule : Rule) (isAsync : Bool) : (function rule isAsync).Closes ended := by
  simp [function, function.rest, functionBody, block_closes, all]

theorem classDefinition_closes (rule : Rule) : (classDefinition rule).Closes ended := by
  simp [classDefinition, classBody, all]

theorem arguments_closes : arguments.Closes ended := by
  simp [arguments, all]

theorem primary_closes : primary.Closes ended := by
  intro kind
  dsimp only
  split
  · simp [nameOrFunction, asyncFunction, function_closes, all]
  · rfl
  · rfl
  · rfl
  · exact function_closes _ _ _
  · exact classDefinition_closes _ _
  · simp [parenthesized, all]
  · simp [array, all]
  · simp [object, all]
  · trivial
  · exact .inr fun _ _ _ _ => id

theorem memberRound_closes (allowCall : Bool) (holds : ended) (again : Bool) :
    (memberRound allowCall again).Closes ended := by
  simp [memberRound, arguments_closes, holds, all]

/-- Behind a round that goes on stands the operand of the next one. -/
theorem memberRound_again (allowCall : Bool) : (memberRound allowCall true).Closes ended := by
  simp [memberRound, arguments_closes, all]

theorem memberChain_closes (allowCall : Bool) (holds : ended) :
    (loop (memberRound allowCall)).Closes ended :=
  memberRound_closes _ _ ⟨holds, memberRound_again _ _⟩ _

theorem construction_closes : construction.Closes ended := by
  have callee : ((ahead (·.isKeyword .newWord)).seq (.ask .construction) <|> primary).Closes
      False := ⟨nofun, primary_closes _⟩
  have chain := memberChain_closes _ false callee
  exact And.intro (arguments_closes False) chain

theorem leftHandSide_closes : leftHandSide.Closes ended :=
  memberChain_closes _ true ⟨construction_closes _, primary_closes _⟩

theorem unary_closes : unary.Closes ended := by
  intro kind
  dsimp only
  split
  · simp [prefixed, all]
  · simp [withPostfix, leftHandSide_closes, all]

theorem binaryRound_closes (level : Nat) (again : Bool) (holds : ended) :
    (binaryRound level again).Closes ended := by
  refine ⟨fun kind => ?_, .inl (.inl holds)⟩
  dsimp only
  split
  · simp [operation, all]
  · exact .inl holds

/-- Behind a round that goes on stands the left operand of the next one. -/
theorem binaryRound_again (level : Nat) : (binaryRound level true).Closes ended := by
  refine ⟨fun kind => ?_, .inr fun _ _ _ _ => nofun⟩
  dsimp only
  split
  · simp [operation, all]
  · exact .inr fun _ _ _ _ => id

theorem binary_closes (level : Nat) : (binary level).Closes ended :=
  binaryRound_closes _ level false ⟨unary_closes _, binaryRound_again _ level⟩

theorem assignment_closes : assignment.Closes ended := by
  have conditional : conditional.Closes ended := by
    simp [conditional, binary_closes, all]
  have assigned : assigned.Closes ended := by
    intro kind
    dsimp only
    split
    · simp [all]
    · exact conditional
  have arrow : arrow.Closes ended := by
    simp [arrow, arrowRest, functionBody, block_closes, all]
  exact ⟨arrow, assigned⟩

theorem expression_closes : expression.Closes ended := by
  simp [expression, sequenceRound, all, loop]

theorem ofGoal_closes {goal : Goal} (isOperand : goal ≠ .statement) :
    (ofGoal goal).Closes ended := by
  cases goal with
  | statement => exact absurd rfl isOperand
  | expression => exact expression_closes _
  | assignment => exact assignment_closes _
  | binary level => exact binary_closes _ level
  | unary => exact unary_closes _
  | leftHandSide => exact leftHandSide_closes _
  | construction => exact construction_closes _

end Closes

end Phrase

theorem Derives.ending (sized : settings.size = Text.size settings.source) {goal : Goal}
    {scope : Scope} {tree : SyntaxTree} (derives : Derives settings goal scope point tree last) :
    ending settings goal scope point tree last := by
  refine derives.induct (Grammar.ending settings) fun reads inText => ?_
  obtain ⟨lastAt, closes⟩ :=
    Phrase.closes_ended sized And.right reads inText fun never : False => never.elim
  refine ⟨lastAt, fun isOperand => ?_⟩
  obtain ⟨tree, isLast, follows⟩ := closes (Phrase.ofGoal_closes _ isOperand)
  cases isLast
  exact follows

end Grammar

end ScriptTree
