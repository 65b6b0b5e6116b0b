import ScriptTree.Proofs.Lossless

/-!
# Spans nest

The spans of a tree that was read nest like its nodes.  The children of a node
lie one behind the other inside its span, a node with children reaches from
the first to the last of them, and a node without children is a single token
or a chunk of a template.  All spans begin and end between two characters.
-/

namespace ScriptTree

namespace Place

variable {source : Text} {first second : Place}

/-- Of two places of a text, the earlier one leads to the later one. -/
theorem On.reaches_of_le (onFirst : On source first) (onSecond : On source second)
    (le : first.offset ≤ second.offset) : ∃ text, first.Reaches text second := by
  obtain ⟨before, firstRest, firstOffset⟩ := onFirst
  obtain ⟨ahead, secondRest, secondOffset⟩ := onSecond
  have same : before ++ first.rest = ahead ++ second.rest := firstRest.symm.trans secondRest
  rcases List.append_eq_append_iff.mp same with ⟨middle, rfl, rest⟩ | ⟨middle, rfl, rest⟩
  · refine ⟨middle, rest, ?_⟩
    rw [secondOffset, firstOffset, Text.size_append]
    omega
  · -- What lies behind the second place and before the first covers no byte.
    have none : middle = [] := by
      by_contra some
      have := Text.size_pos some
      rw [Text.size_append] at firstOffset
      omega
    subst none
    refine ⟨[], rest.symm, ?_⟩
    rw [secondOffset, firstOffset, List.append_nil]
    rfl

theorem On.offset_le (on : On source first) : first.offset ≤ Text.size source := by
  have := on.offset_add
  omega

theorem On.ending (source : Text) : On source ⟨Text.size source, []⟩ :=
  ⟨source, (List.append_nil source).symm, (Nat.zero_add _).symm⟩

end Place

/-- An offset between two characters of a text, or at one of its ends. -/
def Boundary (source : Text) (offset : Nat) : Prop :=
  ∃ place, Place.On source place ∧ place.offset = offset

/-- Between two boundaries in order there is a text. -/
theorem Boundary.text? {source : Text} {start stop : Nat} (starts : Boundary source start)
    (stops : Boundary source stop) (le : start ≤ stop) :
    ∃ text, (Span.mk start stop).text? source = some text := by
  obtain ⟨first, onFirst, rfl⟩ := starts
  obtain ⟨second, onSecond, rfl⟩ := stops
  obtain ⟨text, reaches⟩ := onFirst.reaches_of_le onSecond le
  exact ⟨text, onFirst.slice?_eq reaches⟩

/-! ## Trees in a row -/

/-- Trees lie between two offsets, each behind the one before. -/
structure InRow (start : Nat) (trees : List SyntaxTree) (stop : Nat) : Prop where
  le : start ≤ stop
  inside : ∀ tree ∈ trees,
    start ≤ tree.span.start ∧ tree.span.start < tree.span.stop ∧ tree.span.stop ≤ stop
  ordered : trees.Pairwise fun earlier later => earlier.span.stop ≤ later.span.start

namespace InRow

variable {start middle stop : Nat} {first second trees : List SyntaxTree} {tree : SyntaxTree}

theorem nil (start : Nat) : InRow start [] start :=
  ⟨Nat.le_refl start, by simp, .nil⟩

theorem single (after : start ≤ tree.span.start) (nonempty : tree.span.start < tree.span.stop)
    (before : tree.span.stop ≤ stop) : InRow start [tree] stop := by
  refine ⟨by omega, ?_, List.pairwise_singleton _ _⟩
  intro other isTree
  obtain rfl := List.mem_singleton.mp isTree
  exact ⟨after, nonempty, before⟩

theorem append (earlier : InRow start first middle) (later : InRow middle second stop) :
    InRow start (first ++ second) stop := by
  have startLe := earlier.le
  have stopLe := later.le
  refine ⟨startLe.trans stopLe, ?_, List.pairwise_append.mpr ⟨earlier.ordered, later.ordered, ?_⟩⟩
  · intro tree isIn
    rcases List.mem_append.mp isIn with isFirst | isSecond
    · have := earlier.inside tree isFirst
      omega
    · have := later.inside tree isSecond
      omega
  · intro one isFirst two isSecond
    have := earlier.inside one isFirst
    have := later.inside two isSecond
    omega

/-- The same trees in front of a later offset. -/
theorem widen {outer : Nat} (row : InRow start trees stop) (further : stop ≤ outer) :
    InRow start trees outer := by
  refine ⟨row.le.trans further, ?_, row.ordered⟩
  intro tree isIn
  have := row.inside tree isIn
  omega

/-- No tree in a row begins before the first one. -/
theorem head_le (row : InRow start trees stop) (nonempty : trees ≠ []) :
    ∀ tree ∈ trees, (trees.head nonempty).span.start ≤ tree.span.start := by
  intro tree isIn
  cases trees with
  | nil => cases isIn
  | cons first rest =>
      change first.span.start ≤ tree.span.start
      have inside := row.inside first (by simp)
      rcases List.mem_cons.mp isIn with rfl | isLater
      · exact Nat.le_refl _
      · have := (List.pairwise_cons.mp row.ordered).1 tree isLater
        have := row.inside tree isIn
        omega

/-- No tree in a row ends behind the last one. -/
theorem le_getLast (row : InRow start trees stop) (nonempty : trees ≠ []) :
    ∀ tree ∈ trees, tree.span.stop ≤ (trees.getLast nonempty).span.stop := by
  intro tree isIn
  have ordered := row.ordered
  have inside := row.inside _ (List.getLast_mem nonempty)
  rw [← List.dropLast_append_getLast nonempty] at ordered isIn
  rcases List.mem_append.mp isIn with isEarlier | isLast
  · have := (List.pairwise_append.mp ordered).2.2 tree isEarlier _ (List.mem_singleton_self _)
    omega
  · rw [List.mem_singleton.mp isLast]

/-- Trees in a row lie between the start of the first and the end of the
last. -/
theorem tight (row : InRow start trees stop) (nonempty : trees ≠ []) :
    InRow (trees.head nonempty).span.start trees (trees.getLast nonempty).span.stop := by
  have reaches := row.le_getLast nonempty
  have firstInside := row.inside _ (List.head_mem nonempty)
  have firstStop := reaches _ (List.head_mem nonempty)
  refine ⟨by omega, ?_, row.ordered⟩
  intro tree isIn
  have := row.head_le nonempty tree isIn
  have := row.inside tree isIn
  have := reaches tree isIn
  omega

end InRow

/-! ## Nodes around their children -/

/-- The children of a node lie in a row inside its span, which covers some part
of the text. -/
structure Nests (source : Text) (node : SyntaxTree) : Prop where
  inside : InRow node.span.start node.children node.span.stop
  starts : Boundary source node.span.start
  stops : Boundary source node.span.stop
  covers : ∃ text, node.span.text? source = some text

theorem Nests.of_row {source : Text} {node : SyntaxTree}
    (inside : InRow node.span.start node.children node.span.stop)
    (starts : Boundary source node.span.start) (stops : Boundary source node.span.stop) :
    Nests source node :=
  ⟨inside, starts, stops, starts.text? stops inside.le⟩

/-- A leaf that is one token, or one chunk of a template with the label of its
mark. -/
inductive IsPiece (dialect : Dialect) (source : Text) : SyntaxTree → Prop where
  | token {place : Place} {patternAllowed : Bool} {token : Token} {kind : Kind}
      (on : Place.On source place) (scanned : Token.scan dialect place patternAllowed = .ok token)
      (admits : kind.admits token = true) : IsPiece dialect source (.leaf kind token.span)
  | chunk {place : Place} {mark : Mark} {stop : Nat} {kind : Kind} (on : Place.On source place)
      (found : (Recognizer.template (Probe.ofPlace (Text.size source) place)).verdict =
        some ⟨mark, stop⟩)
      (labelled : (mark, kind) ∈ [(.templateText, .rule .templateContent),
        (.holeOpen, .fixed .holeOpen), (.templateEnd, .fixed (.punctuator .backtick))]) :
      IsPiece dialect source (.leaf kind ⟨place.offset, stop⟩)

/-- A node with children reaches from the first to the last of them, and a node
without children is a piece of the text. -/
structure Fits (dialect : Dialect) (source : Text) (node : SyntaxTree) : Prop where
  first : ∀ child ∈ node.children.head?, node.span.start = child.span.start
  last : ∀ child ∈ node.children.getLast?, node.span.stop = child.span.stop
  piece : node.children = [] → IsPiece dialect source node

abbrev Nested (dialect : Dialect) (source : Text) (tree : SyntaxTree) : Prop :=
  tree.Every fun node => Nests source node ∧ Fits dialect source node

section Nested

variable {dialect : Dialect} {source : Text} {start stop : Nat} {trees : List SyntaxTree}
  {rule : Rule}

theorem IsPiece.nested {kind : Kind} {place later : Place} {text : Text}
    (piece : IsPiece dialect source (.leaf kind ⟨place.offset, later.offset⟩))
    (on : Place.On source place) (reaches : place.Reaches text later) (nonempty : text ≠ []) :
    Nested dialect source (.leaf kind ⟨place.offset, later.offset⟩) ∧
      InRow place.offset [.leaf kind ⟨place.offset, later.offset⟩] later.offset := by
  have lt := reaches.offset_lt nonempty
  refine ⟨.leaf ⟨.of_row ?_ ?_ ?_, ?_⟩, .single (Nat.le_refl _) lt (Nat.le_refl _)⟩
  · exact (InRow.nil place.offset).widen (Nat.le_of_lt lt)
  · exact ⟨place, on, rfl⟩
  · exact ⟨later, on.after reaches, rfl⟩
  · exact ⟨by simp, by simp, fun _ => piece⟩

/-- A node over nested trees in a row is nested and takes their place. -/
theorem build_nested (nonempty : trees ≠ []) (row : InRow start trees stop)
    (all : ∀ tree ∈ trees, Nested dialect source tree) :
    Nested dialect source (Grammar.build rule trees) ∧
      InRow start [Grammar.build rule trees] stop := by
  have isFirst := List.head?_eq_some_head nonempty
  have isLast := List.getLast?_eq_some_getLast nonempty
  have span : (Grammar.build rule trees).span =
      ⟨(trees.head nonempty).span.start, (trees.getLast nonempty).span.stop⟩ := by
    change Tree.covering trees = _
    unfold Tree.covering
    rw [isFirst, isLast]
    rfl
  have tight := row.tight nonempty
  have firstInside := row.inside _ (List.head_mem nonempty)
  have lastInside := row.inside _ (List.getLast_mem nonempty)
  have firstStop := row.le_getLast nonempty _ (List.head_mem nonempty)
  constructor
  · refine .branch ⟨.of_row ?_ ?_ ?_, ?_, ?_, fun none => absurd none nonempty⟩ all
    · change InRow (Grammar.build rule trees).span.start trees (Grammar.build rule trees).span.stop
      rw [span]
      exact tight
    · change Boundary source (Grammar.build rule trees).span.start
      rw [span]
      exact (all _ (List.head_mem nonempty)).here.1.starts
    · change Boundary source (Grammar.build rule trees).span.stop
      rw [span]
      exact (all _ (List.getLast_mem nonempty)).here.1.stops
    · intro child isChild
      change (Grammar.build rule trees).span.start = child.span.start
      rw [span, ← Option.some.inj (isFirst.symm.trans isChild)]
    · intro child isChild
      change (Grammar.build rule trees).span.stop = child.span.stop
      rw [span, ← Option.some.inj (isLast.symm.trans isChild)]
  · apply InRow.single
    · rw [span]
      exact firstInside.1
    · rw [span]
      change (trees.head nonempty).span.start < (trees.getLast nonempty).span.stop
      omega
    · rw [span]
      exact lastInside.2.2

end Nested

namespace Grammar

variable {settings : Settings} {point last : Point} {trees : List SyntaxTree}

/-- What is read between two points of a text is nested and lies in a row
between their offsets. -/
def NestedBetween (dialect : Dialect) (source : Text) (point : Point) (trees : List SyntaxTree)
    (last : Point) : Prop :=
  Place.On source point.place → Place.On source last.place ∧
    InRow point.place.offset trees last.place.offset ∧
    ∀ tree ∈ trees, Nested dialect source tree

theorem NestedBetween.append {dialect : Dialect} {source : Text} {middle : Point}
    {first second : List SyntaxTree} (earlier : NestedBetween dialect source point first middle)
    (later : NestedBetween dialect source middle second last) :
    NestedBetween dialect source point (first ++ second) last := by
  intro on
  obtain ⟨onMiddle, firstRow, firstNested⟩ := earlier on
  obtain ⟨onLast, secondRow, secondNested⟩ := later onMiddle
  refine ⟨onLast, firstRow.append secondRow, ?_⟩
  intro tree isIn
  rcases List.mem_append.mp isIn with isFirst | isSecond
  · exact firstNested tree isFirst
  · exact secondNested tree isSecond

theorem token_nested {kind : Kind} {token : Token}
    (run : point.next settings.dialect = .ok token) (admits : kind.admits token = true) :
    NestedBetween settings.dialect settings.source point [.leaf kind token.span]
      (.after token) := by
  intro on
  obtain ⟨gap, covers⟩ := scanned_covers false run admits
  obtain ⟨skipped, toStart, -⟩ := gap.reaches
  have onStart := on.after toStart
  have piece : IsPiece settings.dialect settings.source (.leaf kind token.span) :=
    .token on run admits
  obtain ⟨nested, row⟩ := piece.nested onStart covers.reaches covers.nonempty
  refine ⟨onStart.after covers.reaches, ⟨?_, ?_, row.ordered⟩, ?_⟩
  · exact toStart.offset_le.trans row.le
  · intro tree isLeaf
    have := row.inside tree isLeaf
    have := toStart.offset_le
    change point.place.offset ≤ _ ∧ _ ∧ _ ≤ token.stop.offset
    omega
  · intro tree isLeaf
    rw [List.mem_singleton.mp isLeaf]
    exact nested

theorem chunk_nested (sized : settings.size = Text.size settings.source) {mark : Mark}
    {stop : Nat} {kind : Kind} (patternAllowed : Bool)
    (found : point.chunk settings.size = some ⟨mark, stop⟩)
    (labelled : (mark, kind) ∈ [(.templateText, .rule .templateContent),
      (.holeOpen, .fixed .holeOpen), (.templateEnd, .fixed (.punctuator .backtick))]) :
    NestedBetween settings.dialect settings.source point
      [.leaf kind ⟨point.place.offset, stop⟩] (point.jump stop patternAllowed) := by
  intro on
  have inText := found
  unfold Point.chunk at inText
  rw [sized] at inText
  obtain ⟨text, chunk, offset⟩ := Recognizer.template_chunk on inText
  have piece : IsPiece settings.dialect settings.source
      (.leaf kind ⟨point.place.offset, (point.place.moveTo stop).offset⟩) := by
    rw [offset]
    exact .chunk on inText labelled
  obtain ⟨nested, row⟩ := piece.nested on chunk.covers chunk.nonempty
  rw [offset] at nested row
  refine ⟨on.after chunk.covers, ?_, by simpa using nested⟩
  change InRow _ _ (point.place.moveTo stop).offset
  rw [offset]
  exact row

theorem chunks_nested (sized : settings.size = Text.size settings.source) {scope : Scope}
    (chunks : Chunks settings (madeOf (NestedBetween settings.dialect settings.source)) scope
      point trees last) :
    NestedBetween settings.dialect settings.source point trees last := by
  induction chunks with
  | close found => exact chunk_nested sized false found (by simp)
  | text found later ih => exact (chunk_nested sized false found (by simp)).append ih
  | hole found filled scanned closes later ih =>
      refine (chunk_nested sized true found (by simp)).append (filled.1.append ?_)
      have admitted : (Kind.fixed (.punctuator .rightBrace)).admits _ = true := closes
      exact (token_nested scanned admitted).append ih

/-- Everything that is read is nested. -/
theorem nested_composes (sized : settings.size = Text.size settings.source) :
    Composes settings (NestedBetween settings.dialect settings.source) where
  none point on := ⟨on, .nil _, by simp⟩
  append := NestedBetween.append
  token run admits _ := token_nested run admits
  node takes nested on := by
    obtain ⟨onLast, row, all⟩ := nested on
    have labelled := Rule.Takes.nonempty takes
    obtain ⟨whole, single⟩ := build_nested (by simpa using labelled) row all
    exact ⟨onLast, single, by simpa using whole⟩
  template run opens chunks on := by
    have admitted : (Kind.fixed (.punctuator .backtick)).admits _ = true := opens
    obtain ⟨onLast, row, all⟩ :=
      ((token_nested run admitted).append (chunks_nested sized chunks)) on
    obtain ⟨whole, single⟩ := build_nested (by simp) row all
    exact ⟨onLast, single, by simpa using whole⟩

end Grammar

/-- The spans of a tree that is read nest, and its root spans the whole
text. -/
theorem parse_nests (options : Options) (source : Text) (tree : SyntaxTree)
    (parsed : Grammar.parse options source = .ok tree) :
    tree.span = ⟨0, Text.size source⟩ ∧ tree.Every (Nests source) ∧
      ∀ child ∈ tree.children, child.Every (Fits options.dialect source) := by
  obtain ⟨trees, last, token, rfl, nested, -, -, -⟩ :=
    (Grammar.nested_composes rfl).parseWith parsed
  have start := Place.On.first source
  obtain ⟨onLast, row, all⟩ := nested start
  refine ⟨rfl, .node (.of_row ?_ ?_ ?_) ?_, ?_⟩
  · exact row.widen onLast.offset_le
  · exact ⟨_, start, rfl⟩
  · exact ⟨_, .ending source, rfl⟩
  · intro child isChild
    exact (all child isChild).mono fun _ => And.left
  · intro child isChild
    exact (all child isChild).mono fun _ => And.right

/-- A template with a hole and text beyond ASCII. -/
theorem parse_nests_template :
    ∃ tree, Grammar.parse ⟨.script, .standard⟩ "f`é$\x7bx\x7dß\\\n`;".toList = .ok tree ∧
      tree.span = ⟨0, Text.size "f`é$\x7bx\x7dß\\\n`;".toList⟩ ∧
      tree.Every (Nests "f`é$\x7bx\x7dß\\\n`;".toList) ∧
      ∀ child ∈ tree.children, child.Every (Fits .script "f`é$\x7bx\x7dß\\\n`;".toList) := by
  obtain ⟨tree, parsed⟩ := Grammar.exists_of_isOk ⟨.script, .standard⟩
    "f`é$\x7bx\x7dß\\\n`;".toList (by decide +kernel)
  exact ⟨tree, parsed, parse_nests _ _ _ parsed⟩

end ScriptTree
