import ScriptTree.Proofs.Grammar.Inversion

/-!
# Which conditional an `else` belongs to

A statement is open if an `else` behind it could still belong to a conditional
at its right edge.  No `else` follows an open statement that was read, so each
`else` belongs to the nearest conditional that can take it.
-/

namespace ScriptTree

open Grammar

namespace Tree

def HasElse (tree : SyntaxTree) : Prop :=
  ∃ child ∈ tree.children, child.label = .fixed (.keyword .elseWord)

end Tree

/-- Statements that could take an `else` behind them: conditionals without
one, and what ends with such a statement.  The alternative of a conditional and
the body of a loop or label are the last children. -/
inductive IsOpen : SyntaxTree → Prop where
  | conditional {tree : SyntaxTree} (isConditional : tree.label = .rule .ifStatement)
      (noElse : ¬tree.HasElse) : IsOpen tree
  | alternate {tree last : SyntaxTree} (isConditional : tree.label = .rule .ifStatement)
      (hasElse : tree.HasElse) (isLast : tree.children.getLast? = some last)
      (isOpen : IsOpen last) : IsOpen tree
  | body {tree last : SyntaxTree}
      (isNested : tree.label ∈
        [Kind.rule .whileStatement, .rule .forStatement, .rule .labeledStatement])
      (isLast : tree.children.getLast? = some last) (isOpen : IsOpen last) : IsOpen tree

/-- The statement in front of the `else` of a conditional is not open. -/
def TakesNearest (node : SyntaxTree) : Prop :=
  node.label = .rule .ifStatement → node.HasElse →
    ∃ keyword test consequent otherwise alternate,
      node.children = [keyword, test, consequent, otherwise, alternate] ∧
      otherwise.label = .fixed (.keyword .elseWord) ∧ ¬IsOpen consequent

def openRules : List Rule :=
  [.ifStatement, .whileStatement, .forStatement, .labeledStatement]

/-- An open statement lacks an `else`, or ends with an open statement. -/
theorem IsOpen.cases_build {rule : Rule} {children : List SyntaxTree}
    (isOpen : IsOpen (build rule children)) :
    rule ∈ openRules ∧ (rule = .ifStatement ∧ ¬(build rule children).HasElse ∨
      ∃ last, children.getLast? = some last ∧ IsOpen last) := by
  cases isOpen with
  | conditional isConditional noElse =>
      cases isConditional
      exact ⟨by decide, .inl ⟨rfl, noElse⟩⟩
  | alternate isConditional hasElse isLast isOpen =>
      cases isConditional
      exact ⟨by decide, .inr ⟨_, isLast, isOpen⟩⟩
  | body isNested isLast isOpen =>
      refine ⟨?_, .inr ⟨_, isLast, isOpen⟩⟩
      have nested : rule = .whileStatement ∨ rule = .forStatement ∨ rule = .labeledStatement := by
        simpa [build] using isNested
      obtain rfl | rfl | rfl := nested <;> decide

namespace Grammar

variable {settings : Settings} {category : Category}

namespace Phrase

/-! ## What a phrase makes at its end -/

/-- A phrase makes one node at its end, and its rule passes a test. -/
def Finishes (test : Rule → Prop) : Phrase → Prop
  | .reduce rule => test rule
  | .seq _ second => second.Finishes test
  | .either first second => first.Finishes test ∧ second.Finishes test
  | .within _ inner => inner.Finishes test
  | .byKind family => ∀ kind, (family kind).Finishes test
  | _ => False

attribute [simp] Finishes

@[simp]
theorem finishes_orElse {test : Rule → Prop} (first second : Phrase) :
    (first <|> second).Finishes test ↔ first.Finishes test ∧ second.Finishes test :=
  Iff.rfl

theorem Finishes.build {test : Rule → Prop} {phrase : Phrase} (finishes : phrase.Finishes test)
    {scope : Scope} {point last : Point} {before trees : List SyntaxTree}
    (reads : phrase.Reads settings category scope point before last trees) :
    ∃ rule children, test rule ∧ trees = [build rule children] := by
  induction phrase generalizing scope point before with
  | reduce rule => exact ⟨rule, before, finishes, reads.2⟩
  | seq first second _ ih =>
      obtain ⟨middle, between, -, secondReads⟩ := reads
      exact ih finishes secondReads
  | either first second firstIh secondIh =>
      exact reads.elim (firstIh finishes.1) (secondIh finishes.2)
  | within change inner ih => exact ih finishes reads
  | byKind family ih =>
      obtain ⟨token, -, familyReads⟩ := reads
      exact ih _ (finishes token.kind) familyReads
  | _ => exact finishes.elim

abbrev Shuts (phrase : Phrase) : Prop :=
  phrase.Finishes (· ∉ openRules)

theorem Finishes.notOpen {phrase : Phrase} (shuts : phrase.Shuts) {scope : Scope}
    {point last : Point} {before : List SyntaxTree} {tree : SyntaxTree}
    (reads : phrase.Reads settings category scope point before last [tree]) : ¬IsOpen tree := by
  obtain ⟨rule, children, other, same⟩ := shuts.build reads
  obtain rfl := List.singleton_inj.mp same
  exact fun isOpen => other isOpen.cases_build.1

/-! ## Conditionals -/

theorem ifStatement_reads {scope : Scope} {point last : Point} {tree : SyntaxTree}
    (reads : ifStatement.Reads settings category scope point [] last [tree]) :
    ∃ opening test start consequent middle,
      opening.label = .fixed (.keyword .ifWord) ∧ test.label = .rule .parenthesizedExpression ∧
      category .statement scope start consequent middle ∧
      ((∃ token alternate, middle.next settings.dialect = .ok token ∧
          token.isKeyword .elseWord = true ∧
          category .statement scope (.after token) alternate last ∧
          tree = build .ifStatement [opening, test, consequent,
            .leaf (.fixed (.keyword .elseWord)) token.span, alternate]) ∨
        Sees settings middle (fun token => !token.isKeyword .elseWord) ∧ last = middle ∧
          tree = build .ifStatement [opening, test, consequent]) := by
  obtain ⟨_, _, ⟨keyword, -, -, rfl, rfl⟩, start, _, ⟨_, testReads, rfl⟩, middle, _,
    ⟨consequent, member, rfl⟩, rest⟩ := reads
  have finishes : parenthesized.Finishes (· = .parenthesizedExpression) := by
    simp [parenthesized, all]
  obtain ⟨_, inner, rfl, rfl⟩ := finishes.build testReads
  refine ⟨.leaf (.fixed (.keyword .ifWord)) keyword.span,
    Grammar.build .parenthesizedExpression inner, start, consequent, middle, rfl, rfl, member, ?_⟩
  obtain ⟨_, _, ⟨token, scanned, isElse, rfl, rfl⟩, _, _, ⟨alternate, otherMember, rfl⟩, rfl,
    same⟩ | ⟨_, _, ⟨sees, rfl, rfl⟩, rfl, same⟩ := rest
  · exact .inl ⟨token, alternate, scanned, isElse, otherMember, List.singleton_inj.mp same⟩
  · exact .inr ⟨sees, rfl, List.singleton_inj.mp same⟩

end Phrase

/-! ## What follows a statement -/

/-- The next token is not the word `else`. -/
def Unfollowed (settings : Settings) (point : Point) : Prop :=
  ∀ token, point.next settings.dialect = .ok token → token.isKeyword .elseWord = false

theorem Sees.unfollowed {point : Point}
    (sees : Sees settings point fun token => !token.isKeyword .elseWord) :
    Unfollowed settings point := by
  obtain ⟨token, scanned, other⟩ := sees
  intro found foundScanned
  obtain rfl := Except.ok.inj (scanned.symm.trans foundScanned)
  simpa using other

/-- Statements that are not followed by `else` if they are open. -/
def shutCategory (settings : Settings) : Category :=
  fun goal _ _ tree last => goal = .statement → IsOpen tree → Unfollowed settings last

/-- The derived trees of `shutCategory`. -/
abbrev derivedShut (settings : Settings) : Category :=
  fun goal scope point tree last =>
    Derives settings goal scope point tree last ∧ shutCategory settings goal scope point tree last

namespace Phrase

variable {scope : Scope} {point last : Point} {tree : SyntaxTree}

/-- A statement that ends with another is open only if that one is. -/
theorem unfollowed_of_last {rule : Rule} {children : List SyntaxTree} {body : SyntaxTree}
    (isOpen : IsOpen (build rule children))
    (member : derivedShut settings .statement scope point body last)
    (isLast : children.getLast? = some body)
    (hasElse : rule = .ifStatement → (build rule children).HasElse) :
    Unfollowed settings last := by
  obtain ⟨-, ⟨isConditional, noElse⟩ | ⟨found, isFound, foundOpen⟩⟩ := isOpen.cases_build
  · exact absurd (hasElse isConditional) noElse
  · obtain rfl := Option.some.inj (isLast.symm.trans isFound)
    exact member.2 rfl foundOpen

theorem ifStatement_unfollowed
    (reads : ifStatement.Reads settings (derivedShut settings) scope point [] last [tree])
    (isOpen : IsOpen tree) : Unfollowed settings last := by
  obtain ⟨opening, test, start, consequent, middle, -, -, -,
    ⟨token, alternate, -, -, member, rfl⟩ | ⟨sees, rfl, -⟩⟩ := ifStatement_reads reads
  · refine unfollowed_of_last isOpen member rfl fun _ => ?_
    exact ⟨.leaf (.fixed (.keyword .elseWord)) token.span, by simp [build], rfl⟩
  · exact sees.unfollowed

/-- A loop or a label ends with another statement. -/
theorem nested_unfollowed {first second : Phrase} {rule : Rule}
    (reads : (all [first, second, .ask .statement, .reduce rule]).Reads settings
      (derivedShut settings) scope point [] last [tree])
    (isOpen : IsOpen tree) (other : rule ≠ .ifStatement) : Unfollowed settings last := by
  obtain ⟨_, _, -, _, _, -, _, _, ⟨body, member, rfl⟩, rfl, same⟩ := reads
  obtain rfl := List.singleton_inj.mp same
  exact unfollowed_of_last isOpen member List.getLast?_concat fun isConditional =>
    absurd isConditional other

theorem expressionStatement_shuts : expressionStatement.Shuts := by
  simp [expressionStatement, all, openRules]

theorem nameStatement_unfollowed
    (reads : nameStatement.Reads settings (derivedShut settings) scope point [] last [tree])
    (isOpen : IsOpen tree) : Unfollowed settings last := by
  obtain reads | reads | reads := reads
  · exact nested_unfollowed reads isOpen (by decide)
  · have shuts : (asyncFunction .functionDeclaration).Shuts := by
      simp [asyncFunction, function, function.rest, all, openRules]
    exact absurd isOpen (shuts.notOpen reads)
  · exact absurd isOpen (expressionStatement_shuts.notOpen reads)

theorem keywordStatement_unfollowed {word : Keyword}
    (reads : (keywordStatement word).Reads settings (derivedShut settings) scope point [] last
      [tree]) (isOpen : IsOpen tree) : Unfollowed settings last := by
  have never {phrase : Phrase} (shuts : phrase.Shuts)
      (reads : phrase.Reads settings (derivedShut settings) scope point [] last [tree]) :
      Unfollowed settings last :=
    absurd isOpen (shuts.notOpen reads)
  have declaration (word : Keyword) : (declaration word).Shuts := by
    simp [declaration, all, openRules]
  have jump {rule : Rule} (word : Keyword) (other : rule ∉ openRules) :
      (jumpStatement rule word).Shuts := by
    simp [jumpStatement, all, other]
  unfold keywordStatement at reads
  split at reads
  case h_1 | h_2 | h_3 => exact never (declaration _) reads
  case h_4 => exact never (by simp [function, function.rest, all, openRules]) reads
  case h_5 => exact never (by simp [classDefinition, all, openRules]) reads
  case h_6 => exact ifStatement_unfollowed reads isOpen
  case h_7 => exact nested_unfollowed reads isOpen (by decide)
  case h_8 => exact never (by simp [doStatement, all, openRules]) reads
  case h_9 => exact nested_unfollowed reads isOpen (by decide)
  case h_10 => exact never (by simp [tryStatement, all, openRules]) reads
  case h_11 => exact never (by simp [switchStatement, all, openRules]) reads
  case h_12 => exact never (by simp [returnStatement, all, openRules]) reads
  case h_13 | h_14 => exact never (jump _ (by decide)) reads
  case h_15 => exact never (by simp [throwStatement, all, openRules]) reads
  case h_16 => exact never (by simp [all, openRules]) reads
  case h_17 => exact never expressionStatement_shuts reads

theorem statement_unfollowed
    (reads : statement.Reads settings (derivedShut settings) scope point [] last [tree])
    (isOpen : IsOpen tree) : Unfollowed settings last := by
  obtain ⟨token, -, reads⟩ := reads
  dsimp only at reads
  split at reads
  · have shuts : block.Shuts := by simp [block, all, openRules]
    exact absurd isOpen (shuts.notOpen reads)
  · have shuts : (all [sign .semicolon, .reduce .emptyStatement]).Shuts := by
      simp [all, openRules]
    exact absurd isOpen (shuts.notOpen reads)
  · exact keywordStatement_unfollowed reads isOpen
  · exact nameStatement_unfollowed reads isOpen
  · exact absurd isOpen (expressionStatement_shuts.notOpen reads)

end Phrase

/-- No `else` follows an open statement. -/
theorem Derives.unfollowed {scope : Scope} {point last : Point} {tree : SyntaxTree}
    (derives : Derives settings .statement scope point tree last) (isOpen : IsOpen tree) :
    Unfollowed settings last := by
  refine derives.induct (shutCategory settings) ?_ rfl isOpen
  rintro goal scope point tree last reads rfl isOpen
  exact Phrase.statement_unfollowed reads isOpen

/-! ## Whole texts -/

/-- A statement is not the word `else`. -/
theorem Derives.notElse {scope : Scope} {point last : Point} {tree : SyntaxTree}
    (derives : Derives settings .statement scope point tree last) :
    tree.label ≠ .fixed (.keyword .elseWord) := by
  have isStatement : tree.label.answers .statement = true := (allShaped_composes.derives derives).2
  intro isElse
  rw [isElse] at isStatement
  cases isStatement

theorem ifStatement_takesNearest {tree : SyntaxTree}
    (makes : Phrase.ifStatement.Makes settings tree) : TakesNearest tree := by
  obtain ⟨scope, point, last, -, reads⟩ := makes
  obtain ⟨opening, test, start, consequent, middle, isIf, isTest, derives,
    ⟨token, alternate, scanned, isElse, -, rfl⟩ | ⟨-, -, rfl⟩⟩ := Phrase.ifStatement_reads reads
  · intro _ _
    refine ⟨_, _, consequent, _, alternate, rfl, rfl, fun isOpen => ?_⟩
    have other := derives.unfollowed isOpen token scanned
    rw [isElse] at other
    cases other
  · rintro - ⟨child, isChild, isElse⟩
    have children : child = opening ∨ child = test ∨ child = consequent := by
      simpa [build] using isChild
    obtain rfl | rfl | rfl := children
    · rw [isIf] at isElse
      cases isElse
    · rw [isTest] at isElse
      cases isElse
    · exact absurd isElse derives.notElse

theorem Traced.takesNearest {tree : SyntaxTree} (traced : Traced settings tree) :
    TakesNearest tree := by
  intro isConditional hasElse
  have nonempty : tree.children ≠ [] := by
    obtain ⟨child, isChild, -⟩ := hasElse
    exact List.ne_nil_of_mem isChild
  obtain ⟨phrase, readBy, makes⟩ := traced _ isConditional rfl nonempty
  cases readBy with
  | ifStatement => exact ifStatement_takesNearest makes isConditional hasElse
  | function isFunction | asyncFunction isFunction => simp at isFunction

end Grammar

/-- In every text that is read, each `else` belongs to the nearest conditional
that can take it. -/
theorem parse_takesNearest (options : Options) (source : Text) (tree : SyntaxTree)
    (run : parse options source = .ok tree) : tree.Every TakesNearest := by
  obtain ⟨trees, rfl, known⟩ := parseWith_known run
  refine .node nofun fun child isChild => ?_
  exact (known child isChild).1.mono fun _ placed => placed.traced.takesNearest

/-- The first `else` closes the conditional below a label and a loop, so that
the second one can only belong to the outer conditional. -/
theorem parse_takesNearest_nested :
    ∃ tree, parse ⟨.script, .standard⟩ "if(a)l:while(b)if(c)d\nelse e\nelse f".toList = .ok tree ∧
      tree.Every TakesNearest := by
  obtain ⟨tree, parsed⟩ := exists_of_isOk ⟨.script, .standard⟩
    "if(a)l:while(b)if(c)d\nelse e\nelse f".toList (by decide +kernel)
  exact ⟨tree, parsed, parse_takesNearest _ _ _ parsed⟩

end ScriptTree
