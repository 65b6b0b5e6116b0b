import ScriptTree.Proofs.Grammar.Closing

/-!
# Reserved words are not names

A word is read as the name of a variable, a binding or a label only if the
scanner takes it for a name, and it does so only if the dialect does not
reserve the word.
-/

namespace ScriptTree

/-- The words that are reserved in a dialect: those of every dialect, and
`extends` in the typed one. -/
def Dialect.Reserves (dialect : Dialect) (word : Text) : Prop :=
  (∃ keyword ∈ Keyword.reserved, word = keyword.chars) ∨
    dialect = .typeScript ∧ word = Keyword.extendsWord.chars

theorem Keyword.ofChars?_eq_none {word : Text} (missing : ofChars? word = none) :
    ∀ keyword ∈ reserved, word ≠ keyword.chars := by
  rintro keyword isReserved rfl
  simpa using List.find?_eq_none.mp missing keyword isReserved

theorem Token.not_reserves_of_wordKind {dialect : Dialect} {word : Text}
    (isName : wordKind dialect word = .identifier) : ¬dialect.Reserves word := by
  unfold wordKind at isName
  split at isName
  case isTrue => cases isName
  case isFalse notMark =>
    split at isName
    case h_1 => cases isName
    case h_2 missing =>
      rintro (⟨keyword, isReserved, same⟩ | ⟨rfl, rfl⟩)
      · exact Keyword.ofChars?_eq_none missing keyword isReserved same
      · exact notMark (by decide)

/-- Labels of words that stand for variables or statements. -/
def Kind.isName : Kind → Bool
  | .rule .variableName | .rule .variableDefinition | .rule .label => true
  | _ => false

/-- A name covers a word that is not reserved. -/
def FreelyNamed (dialect : Dialect) (source : Text) (node : SyntaxTree) : Prop :=
  node.label.isName = true →
    ∃ text, node.span.text? source = some text ∧ ¬dialect.Reserves text

namespace Grammar

variable {settings : Settings} {point last : Point} {trees : List SyntaxTree}

/-- All names that are read between two points of a text are free. -/
def FreeBetween (settings : Settings) (point : Point) (trees : List SyntaxTree) (last : Point) :
    Prop :=
  point.InText settings →
    Sound settings (·.Every (FreelyNamed settings.dialect settings.source)) last trees

theorem leaf_free {dialect : Dialect} {source : Text} {kind : Kind} (span : Span)
    (other : kind.isName = false) : Tree.Every (FreelyNamed dialect source) (.leaf kind span) :=
  .leaf fun isName => absurd isName (by simpa using other)

theorem token_free (sized : settings.size = Text.size settings.source) {kind : Kind}
    {token : Token} (run : point.next settings.dialect = .ok token)
    (admits : kind.admits token = true) (inText : point.InText settings) :
    Tree.Every (FreelyNamed settings.dialect settings.source) (.leaf kind token.span) := by
  refine .leaf fun isName => ⟨token.text, ?_, ?_⟩
  · have isScanned := Token.scan_scanned run
    obtain ⟨skipped, toStart, -⟩ := Trivia.skip_reaches isScanned.skipped
    exact ((inText sized).after toStart).slice?_eq isScanned.covers
  · have isIdentifier : token.kind = .identifier := by
      unfold Kind.isName at isName
      split at isName
      case h_4 => cases isName
      all_goals
        rename_i same
        cases same
        exact beq_iff_eq.mp admits
    apply Token.not_reserves_of_wordKind
    rw [← Token.wordKind_scanned run (.inl isIdentifier), isIdentifier]

theorem piece_free {kind : Kind} (inText : point.InText settings) (span : Span)
    (other : kind.isName = false) :
    Sound settings (·.Every (FreelyNamed settings.dialect settings.source)) point
      [.leaf kind span] :=
  ⟨inText, by simpa using leaf_free span other⟩

theorem chunks_free {scope : Scope}
    (chunks : Chunks settings (madeOf (FreeBetween settings)) scope point trees last)
    (inText : point.InText settings) :
    Sound settings (·.Every (FreelyNamed settings.dialect settings.source)) last trees := by
  induction chunks with
  | close found => exact piece_free (inText.jump found false) _ rfl
  | text found later ih =>
      have inside := inText.jump found false
      exact (piece_free inside _ rfl).append (ih inside)
  | hole found filled scanned closes later ih =>
      have inside := inText.jump found true
      have filling := filled.1 inside
      have behind := filling.inText.after scanned
      exact (piece_free inside _ rfl).append
        (filling.append ((piece_free behind _ rfl).append (ih behind)))

theorem free_composes (sized : settings.size = Text.size settings.source) :
    Composes settings (FreeBetween settings) where
  none point inText := .nothing inText
  append first second inText :=
    (first inText).append (second (first inText).inText)
  token run admits terminal inText :=
    ⟨inText.after run, by simpa using token_free sized run admits inText⟩
  node {point last rule trees} takes free inText := by
    have below := free inText
    refine ⟨below.inText, ?_⟩
    have other : (Kind.rule rule).isName = false := by
      cases rule <;> first | rfl | cases takes
    have here : FreelyNamed settings.dialect settings.source (build rule trees) :=
      fun isName => absurd isName (Bool.eq_false_iff.mp other)
    simp only [List.mem_singleton, forall_eq]
    exact .branch here below.all
  template run opens chunks inText := by
    have below := chunks_free chunks (inText.after run)
    refine ⟨below.inText, ?_⟩
    simp only [List.mem_singleton, forall_eq]
    refine .branch nofun ?_
    simpa using ⟨leaf_free _ rfl, below.all⟩

/-- Every name of a text that is read is free. -/
theorem parse_free {options : Options} {source : Text} {tree : SyntaxTree}
    (parsed : parse options source = .ok tree) :
    ∃ trees, tree = .node (.rule .script) ⟨0, Text.size source⟩ trees ∧
      ∀ tree ∈ trees, tree.Every (FreelyNamed options.dialect source) := by
  obtain ⟨trees, last, token, rfl, free, -, -, -⟩ := (free_composes rfl).parseWith parsed
  exact ⟨trees, rfl, (free fun _ => .first source).all⟩

end Grammar

end ScriptTree
