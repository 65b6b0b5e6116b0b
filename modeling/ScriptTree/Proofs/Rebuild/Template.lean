import ScriptTree.Proofs.Nesting
import ScriptTree.Proofs.Rebuild.Agreement
import ScriptTree.Proofs.Rebuild.Content

/-!
# Templates are rebuilt from the text between their delimiters

A template is read in chunks that may end at any line break.  The chunks are
normalized one by one, merged and decoded again.  What comes out is the same as
if the text between two delimiters had been decoded at once.
-/

namespace ScriptTree

open Estree Rebuild

/-! ## Delimiters -/

namespace Template

/-- The spans of text between the delimiters of a template, given the parts
behind its opening backtick and the offset where they begin. -/
def textSpans (start : Nat) : List SyntaxTree → List Span
  | .node (.fixed .holeOpen) span _ :: _ :: closing :: rest =>
      ⟨start, span.start⟩ :: textSpans closing.span.stop rest
  | .node (.fixed (.punctuator .backtick)) span _ :: _ => [⟨start, span.start⟩]
  | _ :: rest => textSpans start rest
  | [] => []

/-- The expressions in the holes of a template, given the parts behind its
opening backtick. -/
def holes : List SyntaxTree → List SyntaxTree
  | .node (.fixed .holeOpen) _ _ :: inner :: _ :: rest => inner :: holes rest
  | _ :: rest => holes rest
  | [] => []

/-- The parts of a template behind a place: chunks of text, holes, and the
closing backtick, without a gap in front of any of them. -/
inductive Pieces (source : Text) : Place → List SyntaxTree → Prop where
  | close {place later : Place} {text : Text} (on : Place.On source place)
      (reaches : place.Reaches text later) :
      Pieces source place [.leaf (.fixed (.punctuator .backtick)) ⟨place.offset, later.offset⟩]
  | text {place later : Place} {text : Text} {rest : List SyntaxTree}
      (on : Place.On source place) (reaches : place.Reaches text later) (nonempty : text ≠ [])
      (seam : text.getLast? = some '\r' → later.rest.head? ≠ some '\n')
      (further : Pieces source later rest) :
      Pieces source place
        (.leaf (.rule .templateContent) ⟨place.offset, later.offset⟩ :: rest)
  | hole {place later behind : Place} {text : Text} {start : Nat} {inner : SyntaxTree}
      {rest : List SyntaxTree} (on : Place.On source place) (reaches : place.Reaches text later)
      (onBehind : Place.On source behind) (further : Pieces source behind rest) :
      Pieces source place
        (.leaf (.fixed .holeOpen) ⟨place.offset, later.offset⟩ :: inner ::
          .leaf (.fixed (.punctuator .rightBrace)) ⟨start, behind.offset⟩ :: rest)

/-- There is one more text between delimiters than there are holes. -/
theorem Pieces.balanced {source : Text} {place : Place} {rest : List SyntaxTree}
    (pieces : Pieces source place rest) (start : Nat) :
    (textSpans start rest).length = (holes rest).length + 1 := by
  induction pieces generalizing start with
  | close => rfl
  | text on reaches nonempty seam further ih => exact ih start
  | @hole _ _ behind _ _ _ rest on reaches onBehind further ih =>
      change (textSpans behind.offset rest).length + 1 = (holes rest).length + 1 + 1
      rw [ih]

end Template

open Template

/-- A template that was read has its parts behind the opening backtick. -/
def Pieced (source : Text) (node : SyntaxTree) : Prop :=
  node.label = .rule .templateString → ∃ start place rest,
    node.children = .leaf (.fixed (.punctuator .backtick)) ⟨start, place.offset⟩ :: rest ∧
      Place.On source place ∧ Pieces source place rest

namespace Grammar

variable {settings : Settings} {point last : Point} {trees : List SyntaxTree}

/-- All templates that are read between two points of a text have their
parts. -/
def PiecedBetween (source : Text) (point : Point) (trees : List SyntaxTree) (last : Point) : Prop :=
  Place.On source point.place → Place.On source last.place ∧
    ∀ tree ∈ trees, tree.Every (Pieced source)

theorem leaf_pieced {source : Text} {kind : Kind} (span : Span)
    (other : kind ≠ .rule .templateString) : Tree.Every (Pieced source) (.leaf kind span) :=
  .leaf fun same => absurd same other

theorem chunks_pieced (sized : settings.size = Text.size settings.source) {scope : Scope}
    (chunks : Chunks settings (madeOf (PiecedBetween settings.source)) scope point trees last)
    (on : Place.On settings.source point.place) :
    Place.On settings.source last.place ∧ Pieces settings.source point.place trees ∧
      ∀ tree ∈ trees, tree.Every (Pieced settings.source) := by
  have chunk_at {point : Point} {mark : Mark} {stop : Nat}
      (on : Place.On settings.source point.place)
      (found : point.chunk settings.size = some ⟨mark, stop⟩) :
      ∃ text, Recognizer.Chunk point.place mark text (point.place.moveTo stop) ∧
        (point.place.moveTo stop).offset = stop := by
    unfold Point.chunk at found
    rw [sized] at found
    exact Recognizer.template_chunk on found
  induction chunks with
  | @close point stop found =>
      obtain ⟨text, chunk, offset⟩ := chunk_at on found
      have pieces := Pieces.close on chunk.covers
      rw [offset] at pieces
      refine ⟨on.after chunk.covers, pieces, ?_⟩
      have mark : Tree.Every (Pieced settings.source)
          (.leaf (.fixed (.punctuator .backtick)) ⟨point.place.offset, stop⟩) :=
        leaf_pieced _ nofun
      simpa using mark
  | @text point last stop rest found later ih =>
      obtain ⟨text, chunk, offset⟩ := chunk_at on found
      obtain ⟨onLast, further, all⟩ := ih (on.after chunk.covers)
      have pieces := Pieces.text on chunk.covers chunk.nonempty chunk.seam further
      rw [offset] at pieces
      exact ⟨onLast, pieces, by simpa using ⟨leaf_pieced _ nofun, all⟩⟩
  | @hole point behind last stop inner brace rest found filled scanned closes later ih =>
      obtain ⟨text, chunk, offset⟩ := chunk_at on found
      obtain ⟨onInner, innerPieced⟩ := filled.1 (on.after chunk.covers)
      have scannedBrace := Token.scan_scanned scanned
      obtain ⟨skipped, toBrace, -⟩ := Trivia.skip_reaches scannedBrace.skipped
      have onBehind := (onInner.after toBrace).after scannedBrace.covers
      obtain ⟨onLast, further, all⟩ := ih onBehind
      have pieces : Pieces settings.source point.place
          (.leaf (.fixed .holeOpen) _ :: inner :: .leaf (.fixed (.punctuator .rightBrace))
            ⟨brace.start.offset, _⟩ :: rest) :=
        .hole on chunk.covers onBehind further
      rw [offset] at pieces
      refine ⟨onLast, pieces, ?_⟩
      simpa using ⟨leaf_pieced _ nofun, innerPieced inner (by simp), leaf_pieced _ nofun, all⟩

theorem pieced_composes (sized : settings.size = Text.size settings.source) :
    Composes settings (PiecedBetween settings.source) where
  none point on := ⟨on, by simp⟩
  append first second on := by
    obtain ⟨onMiddle, firstPieced⟩ := first on
    obtain ⟨onLast, secondPieced⟩ := second onMiddle
    refine ⟨onLast, ?_⟩
    intro tree isIn
    rcases List.mem_append.mp isIn with isFirst | isSecond
    · exact firstPieced tree isFirst
    · exact secondPieced tree isSecond
  token {point kind token} run admits terminal on := by
    have scanned := Token.scan_scanned run
    obtain ⟨skipped, toStart, -⟩ := Trivia.skip_reaches scanned.skipped
    refine ⟨(on.after toStart).after scanned.covers, ?_⟩
    have other : kind ≠ .rule .templateString := by
      rintro rfl
      cases terminal
    simpa using leaf_pieced _ other
  node {point last rule trees} takes pieced on := by
    obtain ⟨onLast, all⟩ := pieced on
    refine ⟨onLast, ?_⟩
    have other : Pieced settings.source (build rule trees) :=
      fun same => absurd (Kind.rule.inj same) (Rule.Takes.notTemplate takes)
    simp only [List.mem_singleton, forall_eq]
    exact .branch other all
  template run opens chunks on := by
    have scanned := Token.scan_scanned run
    obtain ⟨skipped, toStart, -⟩ := Trivia.skip_reaches scanned.skipped
    have onOpen := (on.after toStart).after scanned.covers
    obtain ⟨onLast, pieces, all⟩ := chunks_pieced sized chunks onOpen
    refine ⟨onLast, ?_⟩
    simp only [List.mem_singleton, forall_eq]
    refine .branch (fun _ => ⟨_, _, _, rfl, onOpen, pieces⟩) ?_
    simpa using ⟨leaf_pieced _ nofun, all⟩

end Grammar

/-! ## Runs and holes, the first one first -/

/-- How the parts of a template change while its runs and holes are taken. -/
inductive TemplateRun : TemplateParts → List Fragment → TemplateParts → Prop
  | nil (parts : TemplateParts) : TemplateRun parts [] parts
  | text {parts last : TemplateParts} {items : List Fragment} (value : TemplateText)
      (isTail : Bool)
      (later : TemplateRun { parts with text := parts.text ++ value.raw } items last) :
      TemplateRun parts (.node (.templateElement value isTail) :: items) last
  | hole {parts last : TemplateParts} {items : List Fragment} (inner : Node)
      (later : TemplateRun
        { parts.closeText false with expressions := parts.expressions.push inner } items last) :
      TemplateRun parts (.token "$\x7b" :: .node inner :: .token "\x7d" :: items) last

theorem TemplateRun.append {parts middle last : TemplateParts} {first second : List Fragment}
    (earlier : TemplateRun parts first middle) (later : TemplateRun middle second last) :
    TemplateRun parts (first ++ second) last := by
  induction earlier with
  | nil => exact later
  | text value isTail _ ih => exact .text value isTail (ih later)
  | hole inner _ ih => exact .hole inner (ih later)

theorem Rebuild.TemplateItems.run {items : List Fragment} {parts : TemplateParts}
    (isItems : TemplateItems items parts) : TemplateRun ⟨#[], #[], ""⟩ items parts := by
  induction isItems with
  | nil => exact .nil _
  | text value isTail _ ih => exact ih.append (.text value isTail (.nil _))
  | hole inner _ ih => exact ih.append (.hole inner (.nil _))

/-! ## What the parts become -/

section

variable {source : Text} {limit : Option Nat} {depth : Nat}

theorem fixed_fold {spelling : Spelling} {span : Span} {fragment : Fragment}
    (run : (rebuilder source limit).fold depth (Tree.leaf (Kind.fixed spelling) span) =
      .ok fragment) : fragment = .token spelling.text := by
  obtain ⟨below, -, left⟩ := Visitor.fold_ok run
  obtain ⟨arguments, -, dispatched⟩ := leave_ok left
  exact token_of_dispatch dispatched

theorem content_fold {span : Span} {text : Text} {fragment : Fragment}
    (covers : span.text? source = some text)
    (run : (rebuilder source limit).fold depth (Tree.leaf (Kind.rule .templateContent) span) =
      .ok fragment) : fragment = .node (.templateElement (.ofText text) false) := by
  obtain ⟨below, -, left⟩ := Visitor.fold_ok run
  obtain ⟨arguments, given, dispatched⟩ := leave_ok left
  have isLeaf : (Tree.leaf (Kind.rule .templateContent) span).children = [] := rfl
  rw [argumentsOf_leaf isLeaf covers] at given
  cases given
  change dispatch Rule.templateContent.name _ = _ at dispatched
  rw [dispatch_rule] at dispatched
  cases Rule.builds_of_process dispatched with
  | templateContent => rw [String.toList_ofList]
  | literal isLiteral => simp at isLiteral
  | name isName => simp at isName
  | operator isOperator => simp at isOperator

end

namespace Template

/-- The elements of a template with the given texts.  Only the last one is the
tail. -/
def elements : List Text → List Node
  | [] => []
  | [text] => [.templateElement (.ofText text) true]
  | text :: rest => .templateElement (.ofText text) false :: elements rest

theorem elements_cons (text : Text) {rest : List Text} (nonempty : rest ≠ []) :
    elements (text :: rest) = .templateElement (.ofText text) false :: elements rest := by
  cases rest with
  | nil => exact absurd rfl nonempty
  | cons next rest => rfl

/-- Chunks are merged, closed at the delimiters, and decoded as if they had
never been cut. -/
theorem Pieces.rebuilt {source : Text} {limit : Option Nat} {depth : Nat} {start place : Place}
    {passed : Text} {rest : List SyntaxTree} {items : List Fragment} {parts last : TemplateParts}
    (pieces : Pieces source place rest) (on : Place.On source start)
    (reaches : start.Reaches passed place)
    (seam : passed.getLast? = some '\r' → place.rest.head? ≠ some '\n')
    (pending : parts.text = String.ofList (Escape.normalizeNewlines passed))
    (folded : (rebuilder source limit).foldAll depth rest = .ok (items ++ [.token "\x60"]))
    (taken : TemplateRun parts items last) :
    ∃ texts inners,
      List.Forall₂ (fun span text => span.text? source = some text)
        (textSpans start.offset rest) texts ∧
      (last.closeText true).quasis.toList = parts.quasis.toList ++ elements texts ∧
      List.Forall₂
        (fun hole inner => (rebuilder source limit).fold depth hole = .ok (.node inner))
        (holes rest) inners ∧
      last.expressions.toList = parts.expressions.toList ++ inners := by
  induction pieces generalizing start passed items parts with
  | @close place later text onPlace further =>
      obtain ⟨first, none, leaf, foldedRest, same⟩ := Visitor.foldAll_cons_ok folded
      cases foldedRest
      obtain rfl : items = [] := by
        have := congrArg List.length same
        simpa using this
      cases taken
      have covers : (Span.mk start.offset place.offset).text? source = some passed :=
        on.slice?_eq reaches
      refine ⟨[passed], [], .cons covers .nil, ?_, .nil, by simp⟩
      simp [TemplateParts.closeText, elements, pending, TemplateText.ofText_normalizeNewlines]
  | @text place later text rest onPlace further nonempty seamLater morePieces ih =>
      obtain ⟨first, more, leaf, foldedRest, same⟩ := Visitor.foldAll_cons_ok folded
      have covers : (Span.mk place.offset later.offset).text? source = some text :=
        onPlace.slice?_eq further
      obtain rfl := content_fold covers leaf
      cases taken with
      | nil => simp at same
      | hole => simp at same
      | @text _ _ items value isTail taken =>
          simp only [List.cons_append, List.cons.injEq, Fragment.node.injEq,
            Node.templateElement.injEq] at same
          obtain ⟨⟨rfl, rfl⟩, rfl⟩ := same
          -- The new chunk is glued to the text since the last delimiter.
          have glued : Escape.normalizeNewlines (passed ++ text) =
              Escape.normalizeNewlines passed ++ Escape.normalizeNewlines text := by
            apply Escape.normalizeNewlines_append
            intro ends
            have starts := seam ends
            rw [further.rest, List.head?_append_of_ne_nil _ nonempty] at starts
            exact starts
          have ends : (passed ++ text).getLast? = some '\r' → later.rest.head? ≠ some '\n' := by
            rw [List.getLast?_append_of_ne_nil _ nonempty]
            exact seamLater
          let longer : TemplateParts :=
            { parts with text := parts.text ++ (TemplateText.ofText text).raw }
          have merged :
              longer.text = String.ofList (Escape.normalizeNewlines (passed ++ text)) := by
            change parts.text ++ (TemplateText.ofText text).raw = _
            rw [pending, glued, String.ofList_append]
            rfl
          have rebuilt := ih on (reaches.trans further) ends merged foldedRest taken
          exact rebuilt
  | @hole place later behind text stop inner rest onPlace further onBehind morePieces ih =>
      obtain ⟨first, behindFirst, leaf, fromInner, same⟩ := Visitor.foldAll_cons_ok folded
      obtain ⟨second, behindSecond, filled, fromBrace, rfl⟩ := Visitor.foldAll_cons_ok fromInner
      obtain ⟨third, more, brace, foldedRest, rfl⟩ := Visitor.foldAll_cons_ok fromBrace
      obtain rfl := fixed_fold leaf
      obtain rfl := fixed_fold brace
      cases taken with
      | nil => simp at same
      | text => simp at same
      | @hole _ _ items node taken =>
          simp only [List.cons_append, List.cons.injEq] at same
          obtain ⟨-, rfl, -, rfl⟩ := same
          obtain ⟨texts, inners, spans, quasis, folds, expressions⟩ :=
            ih onBehind (.refl _) (by simp) rfl foldedRest taken
          have covers : (Span.mk start.offset place.offset).text? source = some passed :=
            on.slice?_eq reaches
          have some : texts ≠ [] := by
            rintro rfl
            have := spans.length_eq
            rw [morePieces.balanced] at this
            cases this
          refine ⟨passed :: texts, node :: inners, .cons covers spans, ?_, .cons filled folds, ?_⟩
          · rw [quasis, elements_cons _ some]
            simp [TemplateParts.closeText, pending, TemplateText.ofText_normalizeNewlines]
          · rw [expressions]
            simp

end Template

/-- A template is rebuilt from the texts between its delimiters and the
expressions in its holes: there is one text more than there are holes, and
every element is decoded from the whole of its text. -/
structure Templated (source : Text) (limit : Option Nat) (depth : Nat) (node : SyntaxTree)
    (fragment : Fragment) (opening : SyntaxTree) (parts : List SyntaxTree) (texts : List Text)
    (expressions : List Node) : Prop where
  children : node.children = opening :: parts
  opens : opening.label = .fixed (.punctuator .backtick)
  balanced : (textSpans opening.span.stop parts).length = (holes parts).length + 1
  covers : List.Forall₂ (fun span text => span.text? source = some text)
    (textSpans opening.span.stop parts) texts
  filled : List.Forall₂
    (fun hole inner => (rebuilder source limit).fold (depth + 1) hole = .ok (.node inner))
    (holes parts) expressions
  result : fragment = .node (.templateLiteral (elements texts) expressions)

theorem Pieced.templated {source : Text} {limit : Option Nat} {depth : Nat} {node : SyntaxTree}
    {fragment : Fragment} (pieced : Pieced source node)
    (isTemplate : node.label = .rule .templateString)
    (run : (rebuilder source limit).fold depth node = .ok fragment) :
    ∃ opening parts texts expressions,
      Templated source limit depth node fragment opening parts texts expressions := by
  obtain ⟨start, place, parts, children, on, pieces⟩ := pieced isTemplate
  obtain ⟨below, folded, left⟩ := Visitor.fold_ok run
  obtain ⟨arguments, given, dispatched⟩ := leave_ok left
  rw [argumentsOf_children (by simp [children])] at given
  cases given
  have named : node.name = Rule.templateString.name := by
    change Named.name node.label = _
    rw [isTemplate]
    rfl
  rw [named, dispatch_rule] at dispatched
  rw [children] at folded
  obtain ⟨first, behind, leaf, foldedParts, rfl⟩ := Visitor.foldAll_cons_ok folded
  cases Rule.builds_of_process dispatched with
  | @templateString items last isItems =>
      obtain ⟨texts, inners, covers, quasis, filled, expressions⟩ :=
        pieces.rebuilt on (.refl place) (by simp) rfl foldedParts isItems.run
      refine ⟨_, parts, texts, inners, children, rfl, pieces.balanced _, covers, filled, ?_⟩
      rw [quasis, expressions]
      rfl
  | unaryUpdate isUnary => simp at isUnary
  | unary isUnary => simp at isUnary
  | updateAfter isUnary => simp at isUnary
  | literal isLiteral => simp at isLiteral
  | name isName => simp at isName
  | operator isOperator => simp at isOperator

/-- Every template of a text that is rebuilt becomes the literal of the texts
between its delimiters and of the expressions in its holes. -/
theorem transform_templates (options : Options) (source : Text) (program : Node)
    (transformed : transform options source = .ok program) :
    ∃ tree, Grammar.parse options source = .ok tree ∧
      (rebuilder source options.bounds.limit).fold 0 tree = .ok (.node program) ∧
      ∀ entry ∈ tree.preorder, entry.2.label = .rule .templateString →
        ∃ fragment opening parts texts expressions,
          (rebuilder source options.bounds.limit).fold entry.1 entry.2 = .ok fragment ∧
            Templated source options.bounds.limit entry.1 entry.2 fragment opening parts texts
              expressions := by
  obtain ⟨tree, parsed, folded⟩ := transform_ok transformed
  obtain ⟨trees, last, token, rfl, pieced, -, -, -⟩ :=
    (Grammar.pieced_composes rfl).parseWith parsed
  have all := (pieced (Place.On.first source)).2
  refine ⟨_, parsed, folded, ?_⟩
  intro entry isIn isTemplate
  obtain ⟨fragment, run⟩ := Tree.fold_of_listed folded entry isIn
  have root : (Tree.node (.rule .script) ⟨0, Text.size source⟩ trees).Every (Pieced source) :=
    .node (fun same => nomatch same) all
  have every : entry.2.Every (Pieced source) :=
    Tree.holds_of_listed (motive := fun _ node => node.Every (Pieced source))
      (fun _ _ here => here.of_child) root entry isIn
  obtain ⟨opening, parts, texts, expressions, templated⟩ := every.here.templated isTemplate run
  exact ⟨fragment, opening, parts, texts, expressions, run, templated⟩

/-- Text on two lines, and a template in a hole of another. -/
theorem transform_templates_nested :
    ∃ program tree,
      transform ⟨.script, .standard⟩ "\x60é\r\n$\x7b\x60$\x7bx\x7d\x60\x7d\x60".toList =
          .ok program ∧
        Grammar.parse ⟨.script, .standard⟩ "\x60é\r\n$\x7b\x60$\x7bx\x7d\x60\x7d\x60".toList =
          .ok tree ∧
        ∀ entry ∈ tree.preorder, entry.2.label = .rule .templateString →
          ∃ fragment opening parts texts expressions,
            Templated "\x60é\r\n$\x7b\x60$\x7bx\x7d\x60\x7d\x60".toList
              Bounds.standard.limit entry.1 entry.2 fragment opening parts texts expressions := by
  have rebuilt : (transform ⟨.script, .standard⟩
      "\x60é\r\n$\x7b\x60$\x7bx\x7d\x60\x7d\x60".toList).isOk = true := by
    decide +kernel
  cases run : transform ⟨.script, .standard⟩
      "\x60é\r\n$\x7b\x60$\x7bx\x7d\x60\x7d\x60".toList with
  | error error =>
      rw [run] at rebuilt
      cases rebuilt
  | ok program =>
      obtain ⟨tree, parsed, -, templates⟩ := transform_templates _ _ _ run
      refine ⟨program, tree, rfl, parsed, ?_⟩
      intro entry isIn isTemplate
      obtain ⟨fragment, opening, parts, texts, expressions, -, templated⟩ :=
        templates entry isIn isTemplate
      exact ⟨fragment, opening, parts, texts, expressions, templated⟩

end ScriptTree
