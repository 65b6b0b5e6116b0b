import ScriptTree.Proofs.Estree.Writing
import ScriptTree.Proofs.Grammar.Layers
import ScriptTree.Proofs.Grammar.Precedence
import ScriptTree.Proofs.Grammar.Words
import ScriptTree.Proofs.Rebuild.Means

/-!
# Groups

The parts of a written expression stand in parentheses.  A group is read
through any layer, whatever is inside, once its inside is read as an
expression.  That no arrow function starts with it is seen behind its first
tokens, or behind its end.
-/

namespace ScriptTree

namespace Grammar

open Estree

/-- A tree means an expression, and can be assigned to if the expression can. -/
structure Conveys (source : Text) (tree : SyntaxTree) (expression : Node) : Prop where
  means : Means source tree (.node expression)
  assignable : expression.IsTarget → isAssignable source tree = true

abbrev within (steps : Nat) : Descent :=
  ⟨steps, read steps⟩

/-- The words of an expression are read as an expression in front of a closing
parenthesis or a semicolon. -/
def Reads (settings : Settings) (expression : Node) : Prop :=
  ∀ ⦃steps : Nat⦄ ⦃point last : Point⦄ ⦃closer : Token⦄,
    2 * expression.words.length + 2 ≤ steps → point.InText settings →
    Words settings point expression.words last → last.next settings.dialect = .ok closer →
    closer.kind = .punctuator .rightParen ∨ closer.kind = .punctuator .semicolon →
    ∃ tree, Conveys settings.source tree expression ∧
      Arrives settings (Grammar.expression (within steps)) point tree last

/-- The tokens that start a written expression, unless it is a name. -/
def startsWriting : TokenKind → Bool
  | .punctuator .leftParen | .punctuator .leftBracket | .punctuator .bang | .punctuator .tilde
  | .punctuator .plus | .punctuator .minus | .punctuator .increment | .punctuator .decrement
  | .keyword .typeofWord | .keyword .voidWord | .keyword .deleteWord => true
  | _ => false

theorem startsWriting_heads (dialect : Dialect) :
    ∀ first ∈ heads, startsWriting (Token.kindOf dialect first) = true := by
  cases dialect <;> decide +kernel

theorem startsWriting_other {kind : TokenKind} (starts : startsWriting kind = true) :
    kind ≠ .identifier ∧ kind ≠ .punctuator .rightParen ∧ kind ≠ .punctuator .ellipsis := by
  unfold startsWriting at starts
  split at starts <;> first | contradiction | exact ⟨nofun, nofun, nofun⟩

variable {settings : Settings} {point middle last : Point} {token : Token} {expression : Node}
  {steps level : Nat}

/-! ## What tokens mean -/

section

variable (sized : settings.size = Text.size settings.source) (inText : point.InText settings)
  (next : point.next settings.dialect = .ok token)

include sized inText next

/-- A sign means its text. -/
theorem means_sign {sign : Punctuator} (kind : token.kind = .punctuator sign) :
    Means settings.source (.leaf (.fixed (.punctuator sign)) token.span)
      (.token (String.ofList sign.chars)) := by
  have spelled := (Token.scan_scanned next).spelled
  rw [kind] at spelled
  have covers := token_text sized inText next
  rw [show token.text = sign.chars from spelled] at covers
  exact .copied covers (beq_self_eq_true sign.chars)

/-- An operator means its text. -/
theorem means_operator {kind : Kind} {operator : String}
    (is : token.Is settings.dialect operator.toList)
    (isCopied : kind.isCopied operator.toList = true) :
    Means settings.source (.leaf kind token.span) (.token operator) := by
  have covers := token_text sized inText next
  rw [is.spelling] at covers
  have means := Means.copied covers isCopied
  rwa [String.ofList_toList] at means

end

/-! ## Groups -/

theorem Words.grouped_cases {words : List Text} (all : Words settings point (grouped words) last) :
    ∃ opening inner closing, point.next settings.dialect = .ok opening ∧
      opening.kind = .punctuator .leftParen ∧ Words settings (.after opening) words inner ∧
      inner.next settings.dialect = .ok closing ∧ closing.kind = .punctuator .rightParen ∧
      last = .after closing := by
  obtain ⟨opening, next, kind, rest⟩ := all.sign_cases .leftParen
  obtain ⟨inner, inside, behind⟩ := rest.append_cases
  obtain ⟨closing, follows, closes, same⟩ := behind.last_sign .rightParen
  exact ⟨opening, inner, closing, next, kind, inside, follows, closes, same⟩

section

variable (sized : settings.size = Text.size settings.source) (reads : Reads settings expression)
  (enough : 2 * expression.words.length + 3 ≤ steps) (inText : point.InText settings)
  (words : Words settings point (grouped expression.words) last)

include sized reads enough inText words

/-- A group is an operand that means what is inside it. -/
theorem group_primary :
    ∃ tree, Conveys settings.source tree expression ∧
      Arrives settings (primary (within steps)) point tree last := by
  obtain ⟨opening, inner, closing, next, opens, inside, follows, closes, rfl⟩ := words.grouped_cases
  obtain ⟨fewer, rfl⟩ : ∃ fewer, steps = fewer + 1 := ⟨steps - 1, by omega⟩
  have inInner := inText.after next
  obtain ⟨tree, conveys, arrives⟩ :=
    reads (by omega : _ ≤ fewer) inInner inside follows (.inl closes)
  refine ⟨build .parenthesizedExpression [.leaf (.fixed (.punctuator .leftParen)) opening.span,
    tree, .leaf (.fixed (.punctuator .rightParen)) closing.span], ⟨?_, conveys.assignable⟩, ?_⟩
  · exact .build (.cons (means_sign sized inText next opens) (.cons conveys.means
      (.cons (means_sign sized (inside.inText inInner) follows closes) .nil))) (by simp) rfl
  · unfold primary
    refine .bind (.peek next) ?_
    rw [opens]
    exact .withIn (.bind (.expect next (isPunctuator_true opens)) (.bind arrives
      (.bind (.expect follows (isPunctuator_true closes)) (.pure _))))

/-- A group is an operand of its own if nothing behind it belongs to it. -/
theorem group_leftHandSide (behind : last.next settings.dialect = .ok token)
    (alone : belongsToOperand token.kind = false) :
    ∃ tree, Conveys settings.source tree expression ∧
      Arrives settings (leftHandSide (within steps)) point tree last := by
  obtain ⟨opening, -, -, next, opens, -⟩ := words.grouped_cases
  obtain ⟨tree, conveys, arrives⟩ := group_primary sized reads enough inText words
  have chain : Arrives settings (memberChain (within steps) true tree) last tree last :=
    .memberChain_done (by simp only; omega) behind alone tree
  exact ⟨tree, conveys, .leftHandSide next (isKeyword_of_punctuator opens _) arrives chain⟩

theorem group_unary (behind : last.next settings.dialect = .ok token)
    (leaves : leavesName token.kind = true) :
    ∃ tree, Conveys settings.source tree expression ∧
      Arrives settings (unary (within steps)) point tree last := by
  obtain ⟨opening, -, -, next, opens, -⟩ := words.grouped_cases
  obtain ⟨tree, conveys, arrives⟩ := group_leftHandSide sized reads enough inText words behind
    (belongsToOperand_of_leaves leaves)
  exact ⟨tree, conveys,
    .unary_plain next (by rw [opens]; rfl) (.withPostfix_plain arrives behind leaves)⟩

theorem group_binary (behind : last.next settings.dialect = .ok token)
    (leaves : leavesName token.kind = true)
    (ends : BinaryOperator.ofToken? token.kind false = none) :
    ∃ tree, Conveys settings.source tree expression ∧
      Arrives settings (binary (within steps) level) point tree last := by
  obtain ⟨tree, conveys, arrives⟩ := group_unary sized reads enough inText words behind leaves
  exact ⟨tree, conveys, .binary_plain (by simp only; omega) arrives behind ends⟩

theorem group_conditional (behind : last.next settings.dialect = .ok token)
    (leaves : leavesName token.kind = true)
    (ends : BinaryOperator.ofToken? token.kind false = none)
    (notQuestion : token.kind ≠ .punctuator .question) :
    ∃ tree, Conveys settings.source tree expression ∧
      Arrives settings (conditional (within steps)) point tree last := by
  obtain ⟨tree, conveys, arrives⟩ :=
    group_binary sized reads enough inText words behind leaves ends
  exact ⟨tree, conveys, .conditional_plain arrives behind (isPunctuator_false notQuestion)⟩

end

/-! ## No arrow functions -/

theorem IsName.kindOf {dialect : Dialect} {text : Text} (isName : IsName dialect text) :
    Token.kindOf dialect text = .identifier :=
  (if_pos (Bool.and_eq_true_iff.mpr ⟨isName.starts, isName.parts⟩)).trans isName.free

/-- No arrow function starts with a group, unless an arrow stands behind it. -/
theorem group_arrow {descent : Descent} (rounds : 0 < descent.rounds)
    (isExpression : IsExpression settings.dialect expression)
    (words : Words settings point (grouped expression.words) last)
    (behind : last.next settings.dialect = .ok token) (notArrow : token.kind ≠ .punctuator .arrow) :
    Arrives settings (arrow? descent) point none point := by
  obtain ⟨opening, inner, closing, next, opens, inside, follows, closes, rfl⟩ := words.grouped_cases
  have isOpening := isPunctuator_true opens
  refine .arrow_refused next isOpening ?_
  obtain ⟨name, rfl, isName⟩ | ⟨first, more, same, isHead⟩ := isExpression.head
  · rw [Node.words] at inside
    obtain ⟨found, foundNext, is, rest⟩ := inside.cons_cases
    cases rest
    have isIdentifier : found.isIdentifier = true := by
      rw [Token.isIdentifier, is.kind, IsName.kindOf isName]
      rfl
    exact .head_named rounds next isOpening foundNext isIdentifier follows
      (isPunctuator_true closes) behind
      (isPunctuator_false notArrow)
  · rw [same] at inside
    obtain ⟨found, foundNext, is, -⟩ := inside.cons_cases
    obtain ⟨notName, notClosing, notDots⟩ :=
      startsWriting_other (is.kind ▸ startsWriting_heads settings.dialect first isHead)
    exact .head_nameless rounds next isOpening foundNext (beq_false_of_ne notName)
      (isPunctuator_false notClosing) (isPunctuator_false notDots)

/-- A group is read as an assignment in front of a sign that ends it. -/
theorem group_assignment (unbounded : settings.limit = none)
    (sized : settings.size = Text.size settings.source)
    (isExpression : IsExpression settings.dialect expression) (reads : Reads settings expression)
    (enough : 2 * expression.words.length + 3 ≤ steps) (inText : point.InText settings)
    (words : Words settings point (grouped expression.words) last)
    (behind : last.next settings.dialect = .ok token) (ends : endsOperand token.kind = true) :
    ∃ tree, Conveys settings.source tree expression ∧
      Arrives settings (assignment (within steps)) point tree last := by
  obtain ⟨leaves, notOperator, notAssignment, notQuestion, notArrow⟩ := endsOperand_other ends
  obtain ⟨tree, conveys, arrives⟩ :=
    group_conditional sized reads enough inText words behind leaves notOperator notQuestion
  have noArrow : Arrives settings (arrow? (within steps)) point none point :=
    group_arrow (by simp only; omega) isExpression words behind notArrow
  exact ⟨tree, conveys, .assignment_plain unbounded noArrow arrives behind notAssignment⟩

end Grammar

end ScriptTree
