import Mathlib.Data.List.Chain
import ScriptTree.Proofs.Chunk
import ScriptTree.Proofs.Grammar.Children
import ScriptTree.Proofs.Scan

/-!
# Nothing is lost between a text and its tree

The leaves of a tree that was read cover its text but for trivia.  Between two
leaves lies exactly what the reader skips before a token, or nothing where the
text of a template goes on.
-/

namespace ScriptTree

/-! ## Leaves -/

/-- A node without children, and whether the text of a template goes on right
behind it. -/
structure Leaf where
  label : Kind
  span : Span
  opensText : Bool

namespace Kind

/-- Labels of the leaves of a template behind which its text goes on: the
opening backtick, a run of text, and the brace behind a hole. -/
def opensText : Kind → Bool
  | .fixed (.punctuator .backtick) | .rule .templateContent
  | .fixed (.punctuator .rightBrace) => true
  | _ => false

/-- The texts that a leaf can cover. -/
def Spells (kind : Kind) (text : Text) : Prop :=
  match kind with
  | .fixed spelling => text = spelling.chars
  | .rule .equals => text = Punctuator.equals.chars
  | .rule .star => text = Punctuator.star.chars
  | .rule .updateOp => text = Punctuator.increment.chars ∨ text = Punctuator.decrement.chars
  | _ => True

end Kind

namespace Tree

mutual

/-- The leaves of a tree from left to right. -/
def leaves (opensText : Bool) : SyntaxTree → List Leaf
  | .node label span children =>
      if children.isEmpty then
        [⟨label, span, opensText⟩]
      else
        leavesOf (label == .rule .templateString) children

/-- The leaves of some trees next to each other, which may be the parts of a
template.  The last part of a template is its closing backtick. -/
def leavesOf (inTemplate : Bool) : List SyntaxTree → List Leaf
  | [] => []
  | tree :: rest =>
      leaves (inTemplate && tree.label.opensText && !rest.isEmpty) tree ++
        leavesOf inTemplate rest

end

/-- The leaves below the topmost node. -/
def leavesBelow (tree : SyntaxTree) : List Leaf :=
  leavesOf (tree.label == .rule .templateString) tree.children

theorem leaves_leaf (opensText : Bool) (label : Kind) (span : Span) :
    leaves opensText (.leaf label span) = [⟨label, span, opensText⟩] := by
  simp [leaf, leaves]

theorem leaves_branch {opensText : Bool} {label : Kind} {children : List SyntaxTree}
    (nonempty : children ≠ []) :
    leaves opensText (.branch label children) =
      leavesOf (label == .rule .templateString) children := by
  simp [branch, leaves, nonempty]

theorem leavesOf_single (tree : SyntaxTree) : leavesOf false [tree] = leaves false tree := by
  simp [leavesOf]

theorem leavesOf_append (first second : List SyntaxTree) :
    leavesOf false (first ++ second) = leavesOf false first ++ leavesOf false second := by
  induction first with
  | nil => simp [leavesOf]
  | cons tree rest ih => simp [leavesOf, ih]

theorem leaves_of_mem {inTemplate : Bool} {trees : List SyntaxTree} {tree : SyntaxTree}
    (member : tree ∈ trees) :
    ∃ opensText, ∀ leaf ∈ leaves opensText tree, leaf ∈ leavesOf inTemplate trees := by
  induction trees with
  | nil => cases member
  | cons first rest ih =>
      rw [leavesOf]
      obtain rfl | later := List.mem_cons.mp member
      · exact ⟨_, fun leaf isLeaf => List.mem_append_left _ isLeaf⟩
      · obtain ⟨opensText, contained⟩ := ih later
        exact ⟨opensText, fun leaf isLeaf => List.mem_append_right _ (contained leaf isLeaf)⟩

/-- What holds of the leaves holds of every node without children. -/
theorem every_of_leaves (holds : Kind → Span → Prop) (tree : SyntaxTree) (opensText : Bool)
    (all : ∀ leaf ∈ tree.leaves opensText, holds leaf.label leaf.span) :
    tree.Every fun node => node.children = [] → holds node.label node.span := by
  induction tree using Tree.induct generalizing opensText with
  | node label span children ih =>
      rw [leaves] at all
      refine .node (fun isLeaf => ?_) fun child member => ?_
      · rw [show children = [] from isLeaf] at all
        exact all _ (List.mem_singleton_self _)
      · rw [if_neg (by simp [List.ne_nil_of_mem member])] at all
        obtain ⟨childOpens, contained⟩ := leaves_of_mem member
        exact ih child member childOpens fun leaf isLeaf => all leaf (contained leaf isLeaf)

end Tree

/-! ## Leaves along a text -/

structure Leaf.Covers (leaf : Leaf) (start : Place) (text : Text) (stop : Place) : Prop where
  reaches : start.Reaches text stop
  nonempty : text ≠ []
  spelled : leaf.label.Spells text
  span : leaf.span = ⟨start.offset, stop.offset⟩

/-- A leaf can start at a place behind another one. -/
def Place.GapTo (place : Place) (textFollows : Bool) (start : Place) : Prop :=
  if textFollows then start = place else ∃ gap, Trivia.skip place = .ok (start, gap)

theorem Place.gapTo_self (place : Place) : place.GapTo true place :=
  rfl

theorem Place.GapTo.reaches {place start : Place} {textFollows : Bool}
    (gap : place.GapTo textFollows start) :
    ∃ skipped, place.Reaches skipped start ∧ Trivia.IsTrivia skipped := by
  unfold GapTo at gap
  split at gap
  · subst gap
    exact ⟨[], .refl _, .none⟩
  · obtain ⟨gap, skipped⟩ := gap
    exact Trivia.skip_reaches skipped

/-- Leaves follow each other from one place to another.  The marks tell
whether the text of a template goes on at these places. -/
inductive Laid : Bool → Place → List Leaf → Bool → Place → Prop where
  | nil {textFollows : Bool} {place : Place} : Laid textFollows place [] textFollows place
  | cons {textFollows ending : Bool} {place start stop last : Place} {text : Text} {leaf : Leaf}
      {rest : List Leaf} (gap : place.GapTo textFollows start)
      (covers : leaf.Covers start text stop)
      (later : Laid leaf.opensText stop rest ending last) :
      Laid textFollows place (leaf :: rest) ending last

namespace Laid

variable {textFollows between ending : Bool} {place middle last : Place}
  {first second leaves : List Leaf} {source : Text}

theorem append (laid : Laid textFollows place first between middle)
    (later : Laid between middle second ending last) :
    Laid textFollows place (first ++ second) ending last := by
  induction laid with
  | nil => exact later
  | cons gap covers _ ih => exact .cons gap covers (ih later)

theorem single {start stop : Place} {text : Text} {leaf : Leaf}
    (gap : place.GapTo textFollows start) (covers : leaf.Covers start text stop) :
    Laid textFollows place [leaf] leaf.opensText stop :=
  .cons gap covers .nil

theorem on (laid : Laid textFollows place leaves ending last) (start : Place.On source place) :
    Place.On source last := by
  induction laid with
  | nil => exact start
  | cons gap covers _ ih =>
      obtain ⟨skipped, toStart, -⟩ := gap.reaches
      exact ih ((start.after toStart).after covers.reaches)

end Laid

namespace Grammar

variable {settings : Settings}

/-- The leaves of some trees follow each other between two points of a
text. -/
def LaidOut (source : Text) (point : Point) (trees : List SyntaxTree) (last : Point) : Prop :=
  Place.On source point.place → Laid false point.place (Tree.leavesOf false trees) false last.place

theorem admits_notEnd {kind : Kind} {token : Token} (admits : kind.admits token = true) :
    token.isEnd = false := by
  rw [← Bool.not_eq_true]
  intro ends
  have isEnd : token.kind = .endOfText := by simpa [Token.isEnd] using ends
  unfold Kind.admits at admits
  split at admits
  all_goals simp [isExtends, Token.isKeyword, Token.isPunctuator, Token.isWord, Token.isIdentifier,
    prefixKind?, assignmentKind?, BinaryOperator.ofToken?, isEnd] at admits

theorem admits_spells {kind : Kind} {token : Token}
    (spelled : Token.SpelledAs token.kind token.text)
    (admits : kind.admits token = true) : kind.Spells token.text := by
  have sign {sign : Punctuator} (isSign : token.isPunctuator sign = true) :
      token.text = sign.chars := by
    have same : token.kind = .punctuator sign := by simpa [Token.isPunctuator] using isSign
    rwa [same] at spelled
  have word {word : Keyword} (isWord : token.isKeyword word = true) : token.text = word.chars := by
    have same : token.kind = .keyword word := by simpa [Token.isKeyword] using isWord
    rwa [same] at spelled
  unfold Kind.admits at admits
  split at admits
  case h_1 =>
    simp only [isExtends, Bool.or_eq_true, Bool.and_eq_true, beq_iff_eq] at admits
    exact admits.elim word And.right
  case h_2 => exact word admits
  case h_3 => exact sign admits
  case h_4 =>
    simp only [Token.isWord, Bool.and_eq_true, beq_iff_eq] at admits
    exact admits.2
  case h_13 => exact sign admits
  case h_14 => exact sign admits
  case h_15 =>
    rw [Bool.or_eq_true] at admits
    exact admits.imp sign sign
  all_goals trivial

theorem scanned_covers {kind : Kind} {point : Point} {token : Token} (opensText : Bool)
    (run : point.next settings.dialect = .ok token) (admits : kind.admits token = true) :
    point.place.GapTo false token.start ∧
      (Leaf.mk kind token.span opensText).Covers token.start token.text token.stop := by
  have scanned := Token.scan_scanned run
  refine ⟨⟨_, scanned.skipped⟩, scanned.covers, ?_, admits_spells scanned.spelled admits, rfl⟩
  exact scanned.nonempty (admits_notEnd admits)

/-- A chunk of a template becomes a leaf that begins where the chunk does. -/
theorem chunk_covers (sized : settings.size = Text.size settings.source) {point : Point}
    {mark : Mark} {stop : Nat} (label : Kind) (opensText : Bool)
    (on : Place.On settings.source point.place)
    (found : point.chunk settings.size = some ⟨mark, stop⟩)
    (spells : ∀ text, Recognizer.Chunk point.place mark text (point.place.moveTo stop) →
      label.Spells text) :
    ∃ text, (Leaf.mk label ⟨point.place.offset, stop⟩ opensText).Covers point.place text
      (point.place.moveTo stop) := by
  unfold Point.chunk at found
  rw [sized] at found
  obtain ⟨text, chunk, offset⟩ := Recognizer.template_chunk on found
  exact ⟨text, chunk.covers, chunk.nonempty, spells text chunk, by rw [offset]⟩

theorem whole_opens {kind : Kind} (whole : kind.isWhole = true) : kind.opensText = false := by
  cases kind with
  | fixed spelling => cases whole
  | rule given => cases given <;> first | rfl | cases whole

theorem chunks_isEmpty {category : Category} {scope : Scope} {point last : Point}
    {trees : List SyntaxTree} (chunks : Chunks settings category scope point trees last) :
    trees.isEmpty = false := by
  cases chunks <;> rfl

theorem chunks_laid (sized : settings.size = Text.size settings.source) {scope : Scope}
    {point last : Point} {trees : List SyntaxTree}
    (chunks : Chunks settings (madeOf (LaidOut settings.source)) scope point trees last)
    (on : Place.On settings.source point.place) :
    Laid true point.place (Tree.leavesOf true trees) false last.place := by
  induction chunks with
  | @close point stop found =>
      obtain ⟨text, covers⟩ := chunk_covers sized (.fixed (.punctuator .backtick)) false on found
        fun text chunk => chunk.spelled
      rw [Tree.leavesOf, Tree.leavesOf, Tree.leaves_leaf]
      exact .single point.place.gapTo_self covers
  | @text point last stop rest found later ih =>
      obtain ⟨text, covers⟩ := chunk_covers sized (.rule .templateContent) true on found
        fun text chunk => trivial
      rw [Tree.leavesOf, Tree.leaves_leaf, chunks_isEmpty later]
      exact .cons point.place.gapTo_self covers (ih (on.after covers.reaches))
  | @hole point behind last stop inner brace rest found filled scanned closes later ih =>
      obtain ⟨text, opening⟩ := chunk_covers sized (.fixed .holeOpen) false on found
        fun text chunk => chunk.spelled
      have admits : Kind.admits (.fixed (.punctuator .rightBrace)) brace = true := closes
      obtain ⟨gap, closing⟩ := scanned_covers true scanned admits
      have inside := (Laid.single point.place.gapTo_self opening).append
        (filled.1 (on.after opening.reaches))
      have laid := inside.append (.single gap closing)
      have whole := laid.append (ih (laid.on on))
      rw [Tree.leavesOf_single] at whole
      rw [Tree.leavesOf, Tree.leaves_leaf, Tree.leavesOf,
        whole_opens (Kind.isWhole_of_answers filled.2), Tree.leavesOf, Tree.leaves_leaf,
        chunks_isEmpty later]
      simpa [Kind.opensText] using whole

/-- Leaves follow each other in everything that is read. -/
theorem laidOut_composes (sized : settings.size = Text.size settings.source) :
    Composes settings (LaidOut settings.source) where
  none point _ := .nil
  append first second on := by
    rw [Tree.leavesOf_append]
    exact (first on).append (second ((first on).on on))
  token run admits _ _ := by
    obtain ⟨gap, covers⟩ := scanned_covers false run admits
    rw [Tree.leavesOf_single, Tree.leaves_leaf]
    exact .single gap covers
  node takes laid on := by
    have other : (Kind.rule _ == Kind.rule .templateString) = false :=
      beq_eq_false_iff_ne.mpr fun same => Rule.Takes.notTemplate takes (Kind.rule.inj same)
    rw [Tree.leavesOf_single, build, Tree.leaves_branch (by simpa using Rule.Takes.nonempty takes),
      other]
    exact laid on
  template run opens chunks on := by
    have admits : Kind.admits (.fixed (.punctuator .backtick)) _ = true := opens
    obtain ⟨gap, covers⟩ := scanned_covers true run admits
    have laid := Laid.single gap covers
    rw [Tree.leavesOf_single, build, Tree.leaves_branch (by simp), BEq.rfl, Tree.leavesOf,
      Tree.leaves_leaf, chunks_isEmpty chunks]
    exact laid.append (chunks_laid sized chunks (laid.on on))

/-- The leaves of a text that is read follow each other from its beginning to
the trivia at its end. -/
theorem parse_laid {options : Options} {source : Text} {tree : SyntaxTree}
    (parsed : parse options source = .ok tree) :
    ∃ place gap ending, Laid false (Place.first source) tree.leavesBelow false place ∧
      Trivia.skip place = .ok (ending, gap) ∧ ending.rest = [] := by
  obtain ⟨trees, last, token, rfl, laid, -, scanned, ends⟩ :=
    (laidOut_composes rfl).parseWith parsed
  have isScanned := Token.scan_scanned scanned
  exact ⟨last.place, token.gap, token.start, laid (.first source), isScanned.skipped,
    isScanned.ends ends⟩

end Grammar

/-! ## Lossless trees -/

/-- The gap between two offsets: nothing where the text of a template goes on,
and otherwise the trivia that is skipped before a token. -/
def IsGap (source : Text) (textFollows : Bool) (stop start : Nat) : Prop :=
  if textFollows then
    start = stop
  else
    ∃ skipped gap, source.slice? stop start = some skipped ∧ Trivia.IsTrivia skipped ∧
      Trivia.skip (Place.ofOffset source stop) = .ok (Place.ofOffset source start, gap)

/-- Leaves cover a text but for the gaps between them. -/
structure Lossless (source : Text) (leaves : List Leaf) : Prop where
  nonempty : ∀ leaf ∈ leaves, leaf.span.start < leaf.span.stop
  ordered : leaves.Pairwise fun earlier later => earlier.span.stop ≤ later.span.start
  first : IsGap source false 0 (leaves.head?.elim (Text.size source) (·.span.start))
  gaps : leaves.IsChain fun earlier later =>
    IsGap source earlier.opensText earlier.span.stop later.span.start
  last : IsGap source false (leaves.getLast?.elim 0 (·.span.stop)) (Text.size source)
  spelled : ∀ leaf ∈ leaves, ∃ text, leaf.span.text? source = some text ∧ leaf.label.Spells text
  /-- The text is put together from the leaves and trivia before and behind
  them. -/
  whole : ∃ (parts : List (Text × Text)) (rest : Text),
    List.Forall₂ (fun leaf part => Trivia.IsTrivia part.1 ∧ leaf.span.text? source = some part.2)
      leaves parts ∧ Trivia.IsTrivia rest ∧
    source = parts.flatMap (fun part => part.1 ++ part.2) ++ rest

namespace Laid

variable {textFollows ending : Bool} {place last : Place} {leaves : List Leaf} {source : Text}

theorem isGap {start : Place} (gap : place.GapTo textFollows start) (on : Place.On source place) :
    IsGap source textFollows place.offset start.offset := by
  cases textFollows with
  | true => exact congrArg Place.offset gap
  | false =>
      obtain ⟨skipped, reaches, trivia⟩ := gap.reaches
      obtain ⟨gap, skips⟩ := gap
      refine ⟨skipped, gap, on.slice?_eq reaches, trivia, ?_⟩
      rw [on.ofOffset_eq, (on.after reaches).ofOffset_eq, skips]

theorem offset_le (laid : Laid textFollows place leaves ending last) :
    ∀ leaf ∈ leaves, place.offset ≤ leaf.span.start := by
  induction laid with
  | nil => simp
  | cons gap covers later ih =>
      obtain ⟨skipped, toStart, -⟩ := gap.reaches
      have := toStart.offset_le
      have := covers.reaches.offset_le
      simp only [List.mem_cons, forall_eq_or_imp, covers.span]
      exact ⟨by omega, fun leaf member => by have := ih leaf member; omega⟩

theorem nonempty (laid : Laid textFollows place leaves ending last) :
    ∀ leaf ∈ leaves, leaf.span.start < leaf.span.stop := by
  induction laid with
  | nil => simp
  | cons gap covers later ih =>
      simp only [List.mem_cons, forall_eq_or_imp, covers.span]
      exact ⟨covers.reaches.offset_lt covers.nonempty, ih⟩

theorem ordered (laid : Laid textFollows place leaves ending last) :
    leaves.Pairwise fun earlier later => earlier.span.stop ≤ later.span.start := by
  induction laid with
  | nil => exact .nil
  | cons gap covers later ih =>
      refine .cons ?_ ih
      rw [covers.span]
      exact later.offset_le

/-- The gaps between the leaves, and those at both ends. -/
theorem gaps (laid : Laid textFollows place leaves ending last) (on : Place.On source place) :
    leaves.IsChain (fun earlier later =>
        IsGap source earlier.opensText earlier.span.stop later.span.start) ∧
      (∀ leaf ∈ leaves.head?, IsGap source textFollows place.offset leaf.span.start) ∧
      last.offset = leaves.getLast?.elim place.offset (·.span.stop) := by
  induction laid with
  | nil => simp
  | @cons _ _ place start stop last text leaf rest gap covers later ih =>
      obtain ⟨skipped, toStart, -⟩ := gap.reaches
      have onStop := (on.after toStart).after covers.reaches
      obtain ⟨chain, head, final⟩ := ih onStop
      refine ⟨?_, ?_, ?_⟩
      · rw [List.isChain_cons]
        refine ⟨?_, chain⟩
        rw [covers.span]
        exact head
      · simpa [covers.span] using isGap gap on
      · rw [final]
        cases rest with
        | nil => simp [covers.span]
        | cons next others => simp [List.getLast?_cons]

theorem spelled (laid : Laid textFollows place leaves ending last) (on : Place.On source place) :
    ∀ leaf ∈ leaves, ∃ text, leaf.span.text? source = some text ∧ leaf.label.Spells text := by
  induction laid with
  | nil => simp
  | cons gap covers later ih =>
      obtain ⟨skipped, toStart, -⟩ := gap.reaches
      have onStart := on.after toStart
      simp only [List.mem_cons, forall_eq_or_imp, covers.span]
      exact ⟨⟨_, onStart.slice?_eq covers.reaches, covers.spelled⟩,
        ih (onStart.after covers.reaches)⟩

theorem whole (laid : Laid textFollows place leaves ending last) (on : Place.On source place) :
    ∃ parts : List (Text × Text), List.Forall₂ (fun leaf part => Trivia.IsTrivia part.1 ∧
        leaf.span.text? source = some part.2) leaves parts ∧
      place.Reaches (parts.flatMap fun part => part.1 ++ part.2) last := by
  induction laid with
  | nil => exact ⟨[], .nil, .refl _⟩
  | @cons _ _ place start stop last text leaf rest gap covers later ih =>
      obtain ⟨skipped, toStart, trivia⟩ := gap.reaches
      have onStart := on.after toStart
      obtain ⟨parts, matched, reaches⟩ := ih (onStart.after covers.reaches)
      refine ⟨(skipped, text) :: parts, .cons ⟨trivia, ?_⟩ matched,
        (toStart.trans covers.reaches).trans reaches⟩
      rw [covers.span]
      exact onStart.slice?_eq covers.reaches

end Laid

/-- Reading loses nothing of a text. -/
theorem parse_lossless (options : Options) (source : Text) (tree : SyntaxTree)
    (parsed : Grammar.parse options source = .ok tree) : Lossless source tree.leavesBelow := by
  obtain ⟨place, gap, final, laid, skipped, atEnd⟩ := Grammar.parse_laid parsed
  have start := Place.On.first source
  have onPlace := laid.on start
  have lastGap : place.GapTo false final := ⟨gap, skipped⟩
  obtain ⟨rest, toFinal, trivia⟩ := lastGap.reaches
  have size : final.offset = Text.size source := (onPlace.after toFinal).offset_of_end atEnd
  obtain ⟨chain, head, stop⟩ := laid.gaps start
  have ends := Laid.isGap lastGap onPlace
  rw [stop, size] at ends
  refine ⟨laid.nonempty, laid.ordered, ?_, chain, ends, laid.spelled start, ?_⟩
  · cases same : tree.leavesBelow with
    | nil =>
        rw [same] at ends
        exact ends
    | cons leaf others => exact head leaf (by simp [same])
  · obtain ⟨parts, matched, reaches⟩ := laid.whole start
    refine ⟨parts, rest, matched, trivia, ?_⟩
    have together := (reaches.trans toFinal).rest
    rwa [atEnd, List.append_nil] at together

/-- A comment in front of a template with a hole and text behind it. -/
theorem parse_lossless_template :
    ∃ tree, Grammar.parse ⟨.script, .standard⟩
        ['/', '*', '*', '/', '\x60', '$', '\x7b', 'x', '\x7d', 'y', '\x60'] = .ok tree ∧
      Lossless ['/', '*', '*', '/', '\x60', '$', '\x7b', 'x', '\x7d', 'y', '\x60']
        tree.leavesBelow := by
  obtain ⟨tree, parsed⟩ := Grammar.exists_of_isOk ⟨.script, .standard⟩
    ['/', '*', '*', '/', '\x60', '$', '\x7b', 'x', '\x7d', 'y', '\x60'] (by decide +kernel)
  exact ⟨tree, parsed, parse_lossless _ _ _ parsed⟩

end ScriptTree
