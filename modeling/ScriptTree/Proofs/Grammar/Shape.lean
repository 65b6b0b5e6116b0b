import ScriptTree.Proofs.Grammar.Statement
import ScriptTree.Proofs.Tree

/-!
# Which children a node can have

For every rule there is a language of label sequences, and the children of
each node that is read are labelled by a sequence of the language of its rule.
The phrases are checked against these languages by computing, for a property
of the labels collected at the end, what must hold of those collected before.
-/

namespace ScriptTree

/-! ## Sorts of labels -/

namespace Rule

/-- Rules whose trees stand for a whole statement, expression, name or
literal. -/
def isWhole : Rule → Bool
  | .script | .classBody | .forSpec | .forInSpec | .forOfSpec | .catchClause | .finallyClause
  | .switchBody | .caseLabel | .defaultLabel | .argList | .paramList | .templateContent
  | .arithOp | .compareOp | .logicOp | .bitOp | .updateOp | .assignOp | .equals | .star => false
  | _ => true

def isStatement : Rule → Bool
  | .expressionStatement | .variableDeclaration | .functionDeclaration | .classDeclaration
  | .returnStatement | .ifStatement | .whileStatement | .doStatement | .forStatement | .block
  | .breakStatement | .continueStatement | .throwStatement | .tryStatement | .switchStatement
  | .labeledStatement | .emptyStatement | .debuggerStatement => true
  | _ => false

/-- Rules whose trees stand for an expression. -/
def isExpression : Rule → Bool
  | .parenthesizedExpression | .arrayExpression | .objectExpression | .templateString
  | .taggedTemplateExpression | .memberExpression | .callExpression | .newExpression
  | .unaryExpression | .postfixExpression | .awaitExpression | .binaryExpression
  | .conditionalExpression | .assignmentExpression | .sequenceExpression | .arrowFunction
  | .functionExpression | .classExpression | .number | .string | .regExp | .variableName => true
  | _ => false

/-- Rules whose trees are single tokens. -/
def isTerminal : Rule → Bool
  | .number | .string | .regExp | .variableName | .variableDefinition | .propertyName
  | .propertyDefinition | .label | .templateContent | .arithOp | .compareOp | .logicOp | .bitOp
  | .updateOp | .assignOp | .equals | .star => true
  | _ => false

end Rule

namespace Kind

/-- Labels of whole statements, expressions, names and literals. -/
def isWhole : Kind → Bool
  | .rule given => given.isWhole
  | .fixed _ => false

def isStatement : Kind → Bool
  | .rule given => given.isStatement
  | .fixed _ => false

/-- Labels of expressions. -/
def isExpression : Kind → Bool
  | .rule given => given.isExpression
  | .fixed _ => false

/-- Labels of what operators are applied to, unless it is put in
parentheses. -/
def isOperand (kind : Kind) : Bool :=
  kind.isExpression && kind != .rule .binaryExpression

/-- Labels of what can be an element of an array or an argument of a call. -/
def isElement (kind : Kind) : Bool :=
  kind.isExpression || kind == .rule .spread

def isEntry (kind : Kind) : Bool :=
  kind == .rule .property || kind == .rule .spread

/-- Labels of keys that are not computed. -/
def isKey (kind : Kind) : Bool :=
  kind == .rule .propertyDefinition || kind == .rule .string || kind == .rule .number

/-- Labels of the trees that answer a goal. -/
def answers (kind : Kind) : Grammar.Goal → Bool
  | .statement => kind.isStatement
  | .unary | .leftHandSide | .construction => kind.isOperand
  | _ => kind.isExpression

/-- Labels of single tokens. -/
def isTerminal : Kind → Bool
  | .rule given => given.isTerminal
  | .fixed _ => true

/-- Labels of operators that are written between or before operands. -/
def isOperator : Kind → Bool
  | .rule .arithOp | .rule .compareOp | .rule .logicOp | .rule .bitOp => true
  | .fixed (.keyword _) => true
  | _ => false

theorem isWhole_of_isExpression {kind : Kind} (isExpression : kind.isExpression = true) :
    kind.isWhole = true := by
  cases kind with
  | fixed spelling => cases isExpression
  | rule given => cases given <;> first | rfl | cases isExpression

theorem isWhole_of_isStatement {kind : Kind} (isStatement : kind.isStatement = true) :
    kind.isWhole = true := by
  cases kind with
  | fixed spelling => cases isStatement
  | rule given => cases given <;> first | rfl | cases isStatement

theorem isExpression_of_isOperand {kind : Kind} (isOperand : kind.isOperand = true) :
    kind.isExpression = true :=
  (Bool.and_eq_true_iff.mp isOperand).1

theorem isWhole_of_answers {kind : Kind} {goal : Grammar.Goal}
    (answers : kind.answers goal = true) : kind.isWhole = true := by
  cases goal with
  | statement => exact isWhole_of_isStatement answers
  | unary | leftHandSide | construction =>
      exact isWhole_of_isExpression (isExpression_of_isOperand answers)
  | _ => exact isWhole_of_isExpression answers

theorem isWhole_of_isElement {kind : Kind} (isElement : kind.isElement = true) :
    kind.isWhole = true := by
  simp only [Kind.isElement, Bool.or_eq_true, beq_iff_eq] at isElement
  rcases isElement with isExpression | rfl
  · exact isWhole_of_isExpression isExpression
  · rfl

theorem isWhole_of_isEntry {kind : Kind} (isEntry : kind.isEntry = true) :
    kind.isWhole = true := by
  simp only [Kind.isEntry, Bool.or_eq_true, beq_iff_eq] at isEntry
  rcases isEntry with rfl | rfl <;> rfl

theorem isWhole_of_isKey {kind : Kind} (isKey : kind.isKey = true) : kind.isWhole = true := by
  simp only [Kind.isKey, Bool.or_eq_true, beq_iff_eq] at isKey
  rcases isKey with (rfl | rfl) | rfl <;> rfl

end Kind

namespace Shape

/-- Languages of label sequences. -/
abbrev Language : Type :=
  List Kind → Prop

abbrev sign (sign : Punctuator) : Kind :=
  .fixed (.punctuator sign)

/-- The label of a keyword. -/
abbrev word (word : Keyword) : Kind :=
  .fixed (.keyword word)

abbrev contextual (word : ContextualWord) : Kind :=
  .fixed (.contextual word)

/-- The ways to write a label that may be missing. -/
abbrev maybe (kind : Kind) : List (List Kind) :=
  [[], [kind]]

def One (sort : Kind → Bool) : Language :=
  fun kinds => ∃ kind, sort kind = true ∧ kinds = [kind]

/-- One label of some sort, or the given separator. -/
def OneOr (sort : Kind → Bool) (separator : Kind) : Language :=
  fun kinds => One sort kinds ∨ kinds = [separator]

def Many (item : Language) : Language :=
  fun kinds => ∃ items : List (List Kind), (∀ part ∈ items, item part) ∧ kinds = items.flatten

def Between (opening closing : Punctuator) (item : Language) : Language :=
  fun kinds => ∃ inner, Many item inner ∧ kinds = sign opening :: (inner ++ [sign closing])

def Separated (item : Language) : Language :=
  fun kinds => ∃ earlier last, Many (fun part => ∃ kept, item kept ∧ part = kept ++ [sign .comma])
    earlier ∧ item last ∧ kinds = earlier ++ last

/-- A bound name that may have a value. -/
def Declarator : Language :=
  fun kinds => kinds = [.rule .variableDefinition] ∨
    ∃ value, value.isExpression = true ∧
      kinds = [.rule .variableDefinition, .rule .equals, value]

def Parameter : Language :=
  fun kinds => kinds = [sign .comma] ∨ Declarator kinds

def RestParameter : Language :=
  fun kinds => kinds = [sign .ellipsis, .rule .variableDefinition]

/-- Words that can stand before the key of a method. -/
def modifiers : List (List Kind) :=
  [[], [.rule .star], [contextual .asyncWord], [contextual .asyncWord, .rule .star],
    [contextual .getWord], [contextual .setWord]]

def Key : Language :=
  fun kinds => ∃ key, key.isKey = true ∧ kinds = [key] ∨
    key.isExpression = true ∧ kinds = [sign .leftBracket, key, sign .rightBracket]

def Piece : Language :=
  fun kinds => kinds = [.rule .templateContent] ∨ ∃ inner, inner.isExpression = true ∧
    kinds = [.fixed .holeOpen, inner, sign .rightBrace]

def Template : Language :=
  Between .backtick .backtick Piece

/-- The labels and statements of a switch. -/
def Cases : Language :=
  fun kinds => kinds = [] ∨ ∃ label rest, (label = .rule .caseLabel ∨ label = .rule .defaultLabel) ∧
    (∀ kind ∈ rest, kind.isStatement = true ∨ kind = .rule .caseLabel ∨
      kind = .rule .defaultLabel) ∧
    kinds = label :: rest

end Shape

open Shape in
/-- The label sequences that the children of a node can have, unless it is a
template. -/
def Rule.Takes (rule : Rule) (kinds : List Kind) : Prop :=
  match rule with
  | .expressionStatement => ∃ value, value.isExpression = true ∧
      ∃ ending ∈ maybe (sign .semicolon), kinds = value :: ending
  | .variableDeclaration => ∃ keyword ∈ [word .varWord, word .letWord, word .constWord],
      ∃ inner, Separated Declarator inner ∧ ∃ ending ∈ maybe (sign .semicolon),
        kinds = keyword :: (inner ++ ending)
  | .functionDeclaration | .functionExpression =>
      ∃ modifier ∈ maybe (contextual .asyncWord), ∃ star ∈ maybe (.rule .star),
        ∃ name ∈ maybe (.rule .variableDefinition), (rule = .functionDeclaration → name ≠ []) ∧
          kinds = modifier ++ word .functionWord ::
            (star ++ name ++ [.rule .paramList, .rule .block])
  | .classDeclaration | .classExpression =>
      ∃ name ∈ maybe (.rule .variableDefinition), (rule = .classDeclaration → name ≠ []) ∧
        ∃ heritage, (heritage = [] ∨ ∃ parent, parent.isExpression = true ∧
          heritage = [word .extendsWord, parent]) ∧
        kinds = word .classWord :: (name ++ heritage ++ [.rule .classBody])
  | .classBody => Between .leftBrace .rightBrace
      (OneOr (· == .rule .methodDeclaration) (sign .semicolon)) kinds
  | .methodDeclaration => ∃ static ∈ maybe (contextual .staticWord), ∃ words ∈ modifiers,
      ∃ key, Key key ∧ kinds = static ++ words ++ key ++ [.rule .paramList, .rule .block]
  | .returnStatement | .breakStatement | .continueStatement =>
      ∃ keyword target sort, (rule, keyword, sort) ∈
          [(.returnStatement, Keyword.returnWord, Kind.isExpression),
            (.breakStatement, .breakWord, (· == .rule .label)),
            (.continueStatement, .continueWord, (· == .rule .label))] ∧
        (target = [] ∨ One sort target) ∧ ∃ ending ∈ maybe (sign .semicolon),
        kinds = word keyword :: (target ++ ending)
  | .ifStatement => ∃ test consequent, test.isExpression = true ∧ consequent.isStatement = true ∧
      (kinds = [word .ifWord, test, consequent] ∨ ∃ alternate, alternate.isStatement = true ∧
        kinds = [word .ifWord, test, consequent, word .elseWord, alternate])
  | .whileStatement => ∃ test body, test.isExpression = true ∧ body.isStatement = true ∧
      kinds = [word .whileWord, test, body]
  | .doStatement => ∃ body test, body.isStatement = true ∧ test.isExpression = true ∧
      ∃ ending ∈ maybe (sign .semicolon),
        kinds = [word .doWord, body, word .whileWord, test] ++ ending
  | .forStatement => ∃ head ∈ [Kind.rule .forSpec, .rule .forInSpec, .rule .forOfSpec],
      ∃ body, body.isStatement = true ∧ kinds = [word .forWord, head, body]
  | .forSpec => ∃ init test update, (init = [] ∨ One Kind.isExpression init ∨
        init = [.rule .variableDeclaration]) ∧
      (test = [] ∨ One Kind.isExpression test) ∧ (update = [] ∨ One Kind.isExpression update) ∧
      kinds = sign .leftParen :: (init ++ sign .semicolon :: (test ++ sign .semicolon ::
        (update ++ [sign .rightParen])))
  | .forInSpec | .forOfSpec => ∃ target subject, subject.isExpression = true ∧
      (One Kind.isExpression target ∨ ∃ keyword ∈ [word .varWord, word .letWord, word .constWord],
        target = [keyword, .rule .variableDefinition]) ∧
      kinds = sign .leftParen :: (target ++
        [if rule = .forInSpec then word .inWord else contextual .ofWord, subject,
          sign .rightParen])
  | .block => Between .leftBrace .rightBrace (One Kind.isStatement) kinds
  | .throwStatement => ∃ value, value.isExpression = true ∧
      ∃ ending ∈ maybe (sign .semicolon), kinds = word .throwWord :: value :: ending
  | .tryStatement => ∃ handler ∈ maybe (.rule .catchClause),
      ∃ finalizer ∈ maybe (.rule .finallyClause), handler ++ finalizer ≠ [] ∧
        kinds = word .tryWord :: .rule .block :: (handler ++ finalizer)
  | .catchClause => ∃ bound, (bound = [] ∨
        bound = [sign .leftParen, .rule .variableDefinition, sign .rightParen]) ∧
      kinds = word .catchWord :: (bound ++ [.rule .block])
  | .finallyClause => kinds = [word .finallyWord, .rule .block]
  | .switchStatement => ∃ subject, subject.isExpression = true ∧
      kinds = [word .switchWord, subject, .rule .switchBody]
  | .switchBody => ∃ inner, Cases inner ∧
      kinds = sign .leftBrace :: (inner ++ [sign .rightBrace])
  | .caseLabel => ∃ test, test.isExpression = true ∧ kinds = [word .caseWord, test, sign .colon]
  | .defaultLabel => kinds = [word .defaultWord, sign .colon]
  | .labeledStatement => ∃ body, body.isStatement = true ∧
      kinds = [.rule .label, sign .colon, body]
  | .emptyStatement => kinds = [sign .semicolon]
  | .debuggerStatement => ∃ ending ∈ maybe (sign .semicolon),
      kinds = word .debuggerWord :: ending
  | .parenthesizedExpression => ∃ inner, inner.isExpression = true ∧
      kinds = [sign .leftParen, inner, sign .rightParen]
  | .arrayExpression =>
      Between .leftBracket .rightBracket (OneOr Kind.isElement (sign .comma)) kinds
  | .objectExpression => Between .leftBrace .rightBrace (OneOr Kind.isEntry (sign .comma)) kinds
  | .argList => Between .leftParen .rightParen (OneOr Kind.isElement (sign .comma)) kinds
  | .paramList => ∃ inner rest, Many Parameter inner ∧ (rest = [] ∨ RestParameter rest) ∧
      kinds = sign .leftParen :: (inner ++ rest ++ [sign .rightParen])
  | .property => ∃ words ∈ modifiers, ∃ key, Key key ∧
      (kinds = words ++ key ++ [.rule .paramList, .rule .block] ∨
        words = [] ∧ (kinds = key ∨ ∃ value, value.isExpression = true ∧
          kinds = key ++ [sign .colon, value]))
  | .spread => ∃ value, value.isExpression = true ∧ kinds = [sign .ellipsis, value]
  | .taggedTemplateExpression =>
      ∃ tag, tag.isExpression = true ∧ kinds = [tag, .rule .templateString]
  | .memberExpression => ∃ operand, operand.isExpression = true ∧
      (kinds = [operand, sign .dot, .rule .propertyName] ∨ ∃ key, key.isExpression = true ∧
        kinds = [operand, sign .leftBracket, key, sign .rightBracket])
  | .callExpression => ∃ callee, callee.isExpression = true ∧ kinds = [callee, .rule .argList]
  | .newExpression => ∃ callee, callee.isExpression = true ∧
      ∃ inputs ∈ maybe (.rule .argList), kinds = word .newWord :: callee :: inputs
  | .unaryExpression => ∃ operator operand, (operator.isOperator = true ∨
      operator = .rule .updateOp) ∧ operand.isExpression = true ∧ kinds = [operator, operand]
  | .postfixExpression => ∃ operand, operand.isExpression = true ∧
      kinds = [operand, .rule .updateOp]
  | .awaitExpression => ∃ operand, operand.isExpression = true ∧
      kinds = [contextual .awaitWord, operand]
  | .binaryExpression => ∃ left operator right, left.isExpression = true ∧
      operator.isOperator = true ∧ right.isExpression = true ∧ kinds = [left, operator, right]
  | .conditionalExpression => ∃ test consequent alternate, test.isExpression = true ∧
      consequent.isExpression = true ∧ alternate.isExpression = true ∧
      kinds = [test, sign .question, consequent, sign .colon, alternate]
  | .assignmentExpression => ∃ target operator value, target.isExpression = true ∧
      (operator = .rule .equals ∨ operator = .rule .assignOp) ∧ value.isExpression = true ∧
      kinds = [target, operator, value]
  | .sequenceExpression => Separated (One Kind.isExpression) kinds
  | .arrowFunction => ∃ modifier ∈ maybe (contextual .asyncWord), ∃ inputs body,
      (inputs = .rule .variableDefinition ∨ inputs = .rule .paramList) ∧
      (body.isExpression = true ∨ body = .rule .block) ∧
      kinds = modifier ++ [inputs, sign .arrow, body]
  | _ => False

theorem Rule.Takes.nonempty {rule : Rule} {kinds : List Kind} (takes : rule.Takes kinds) :
    kinds ≠ [] := by
  rintro rfl
  cases rule
  all_goals simp [Rule.Takes, Shape.Between, Shape.Separated, Shape.One, Shape.Key] at takes

theorem Rule.Takes.notTemplate {rule : Rule} {kinds : List Kind} (takes : rule.Takes kinds) :
    rule ≠ .templateString := by
  rintro rfl
  exact takes

namespace Grammar

open Shape

/-! ## Labels collected along a phrase -/

namespace Phrase

/-- What must hold of the labels collected so far, for a property to hold of
those collected at the end of a phrase. -/
def Leads : Phrase → Language → Language
  | .done, goal, kinds => goal kinds
  | .take kind, goal, kinds => kind.isTerminal = true ∧ goal (kinds ++ [kind])
  | .ask asked, goal, kinds => ∀ kind : Kind, kind.answers asked = true → goal (kinds ++ [kind])
  | .sub inner, goal, kinds => inner.Leads (fun added => goal (kinds ++ added)) []
  | .reduce rule, goal, kinds => rule.Takes kinds ∧ goal [.rule rule]
  | .seq first second, goal, kinds => first.Leads (second.Leads goal) kinds
  | .either first second, goal, kinds => first.Leads goal kinds ∧ second.Leads goal kinds
  | .many inner, goal, kinds =>
      ∃ invariant : Language, invariant kinds ∧ (∀ between, invariant between → goal between) ∧
        ∀ between, invariant between → inner.Leads invariant between
  | .within _ inner, goal, kinds => inner.Leads goal kinds
  | .given holds, goal, kinds =>
      (∃ settings scope point trees, holds settings scope point trees ∧
        trees.map Tree.label = kinds) → goal kinds
  | .byKind family, goal, kinds => ∀ kind, (family kind).Leads goal kinds
  | .template, goal, kinds => goal (kinds ++ [.rule .templateString])

end Phrase

variable {settings : Settings} {holds : Point → List SyntaxTree → Point → Prop}

/-- The trees that a relation between two points and what is read between them
allows. -/
def madeOf (holds : Point → List SyntaxTree → Point → Prop) : Category :=
  fun goal _ point tree last => holds point [tree] last ∧ tree.label.answers goal = true

/-- A relation between two points and the trees read between them that goes
from the parts of a text to the whole. -/
structure Composes (settings : Settings) (holds : Point → List SyntaxTree → Point → Prop) :
    Prop where
  none : ∀ point, holds point [] point
  append : ∀ {point middle last : Point} {first second : List SyntaxTree},
    holds point first middle → holds middle second last → holds point (first ++ second) last
  token : ∀ {point : Point} {kind : Kind} {token : Token},
    point.next settings.dialect = .ok token → kind.admits token = true → kind.isTerminal = true →
    holds point [.leaf kind token.span] (.after token)
  node : ∀ {point last : Point} {rule : Rule} {trees : List SyntaxTree},
    rule.Takes (trees.map Tree.label) → holds point trees last →
    holds point [build rule trees] last
  template : ∀ {scope : Scope} {point last : Point} {token : Token} {rest : List SyntaxTree},
    point.next settings.dialect = .ok token → token.isPunctuator .backtick = true →
    Chunks settings (madeOf holds) scope (.after token) rest last →
    holds point [build .templateString
      (.leaf (.fixed (.punctuator .backtick)) token.span :: rest)] last

namespace Phrase

/-- What a phrase collects is related if what was collected before is. -/
theorem reads_holds {phrase : Phrase} {goal : Language} {scope : Scope}
    {origin point last : Point} {before trees : List SyntaxTree}
    (composes : Composes settings holds) (leads : phrase.Leads goal (before.map Tree.label))
    (related : holds origin before point)
    (reads : phrase.Reads settings (madeOf holds) scope point before last trees) :
    holds origin trees last ∧ goal (trees.map Tree.label) := by
  induction phrase generalizing goal scope origin point last before trees with
  | done =>
      obtain ⟨rfl, rfl⟩ := reads
      exact ⟨related, leads⟩
  | take kind =>
      obtain ⟨token, scanned, admits, rfl, rfl⟩ := reads
      refine ⟨composes.append related (composes.token scanned admits leads.1), ?_⟩
      simpa using leads.2
  | ask asked =>
      obtain ⟨tree, member, rfl⟩ := reads
      exact ⟨composes.append related member.1, by simpa using leads _ member.2⟩
  | sub inner ih =>
      obtain ⟨added, innerReads, rfl⟩ := reads
      have inside : inner.Leads (fun added => goal (before.map Tree.label ++ added))
          (([] : List SyntaxTree).map Tree.label) := leads
      obtain ⟨addedRelated, met⟩ := ih inside (composes.none point) innerReads
      exact ⟨composes.append related addedRelated, by simpa using met⟩
  | reduce rule =>
      obtain ⟨rfl, rfl⟩ := reads
      exact ⟨composes.node leads.1 related, leads.2⟩
  | seq first second firstIh secondIh =>
      obtain ⟨middle, between, firstReads, secondReads⟩ := reads
      obtain ⟨betweenRelated, met⟩ := firstIh leads related firstReads
      exact secondIh met betweenRelated secondReads
  | either first second firstIh secondIh =>
      obtain firstReads | secondReads := reads
      · exact firstIh leads.1 related firstReads
      · exact secondIh leads.2 related secondReads
  | many inner ih =>
      obtain ⟨invariant, start, done, round⟩ := leads
      suffices holds origin trees last ∧ invariant (trees.map Tree.label) from
        ⟨this.1, done _ this.2⟩
      -- The invariant is carried along the rounds.
      induction reads using Reads.rounds with
      | start => exact ⟨related, start⟩
      | round _ step earlier =>
          obtain ⟨roundRelated, met⟩ := earlier
          exact ih (round _ met) roundRelated step
  | within change inner ih => exact ih leads related reads
  | given condition =>
      obtain ⟨met, rfl, rfl⟩ := reads
      exact ⟨related, leads ⟨_, _, _, _, met, rfl⟩⟩
  | byKind family ih =>
      obtain ⟨token, -, familyReads⟩ := reads
      exact ih _ (leads _) related familyReads
  | template =>
      obtain ⟨token, rest, scanned, opens, chunks, rfl⟩ := reads
      change goal _ at leads
      refine ⟨composes.append related (composes.template scanned opens chunks), ?_⟩
      simpa [build] using leads

end Phrase

/-! ## Shaped trees -/

/-- A node is a single token or a template, or its children are labelled as
its rule demands. -/
def Shaped (tree : SyntaxTree) : Prop :=
  match tree.label with
  | .fixed _ => tree.children = []
  | .rule rule => (tree.children = [] ∧ rule.isTerminal = true) ∨
      (rule = .templateString ∧ Template (tree.children.map Tree.label)) ∨
      rule.Takes (tree.children.map Tree.label)

theorem leaf_shaped {kind : Kind} (terminal : kind.isTerminal = true) (span : Span) :
    Tree.Every Shaped (.leaf kind span) := by
  refine .leaf ?_
  cases kind with
  | fixed spelling => exact rfl
  | rule given => exact Or.inl ⟨rfl, terminal⟩

theorem chunks_pieces {scope : Scope} {point last : Point} {trees : List SyntaxTree}
    (chunks : Chunks settings (madeOf holds) scope point trees last) :
    ∃ inner, Many Piece inner ∧ trees.map Tree.label = inner ++ [sign .backtick] := by
  induction chunks with
  | close found => exact ⟨[], ⟨[], by simp, rfl⟩, rfl⟩
  | text found later ih =>
      obtain ⟨inner, ⟨pieces, allPieces, rfl⟩, same⟩ := ih
      refine ⟨_, ⟨[.rule .templateContent] :: pieces, ?_, rfl⟩, by simp [same]⟩
      simpa using ⟨Or.inl rfl, allPieces⟩
  | @hole _ _ _ _ filler _ _ found filled scanned closes later ih =>
      obtain ⟨inner, ⟨pieces, allPieces, rfl⟩, same⟩ := ih
      refine ⟨_, ⟨[.fixed .holeOpen, filler.label, sign .rightBrace] :: pieces, ?_, rfl⟩,
        by simp [same]⟩
      simpa using ⟨Or.inr ⟨_, filled.2, rfl⟩, allPieces⟩

def AllShaped (_ : Point) (trees : List SyntaxTree) (_ : Point) : Prop :=
  ∀ tree ∈ trees, tree.Every Shaped

theorem chunks_shaped {scope : Scope} {point last : Point} {trees : List SyntaxTree}
    (chunks : Chunks settings (madeOf AllShaped) scope point trees last) :
    ∀ tree ∈ trees, tree.Every Shaped := by
  induction chunks with
  | close found => simpa using leaf_shaped rfl _
  | text found later ih => simpa using ⟨leaf_shaped rfl _, ih⟩
  | hole found filled scanned closes later ih =>
      simpa using ⟨leaf_shaped rfl _, filled.1 _ (by simp), leaf_shaped rfl _, ih⟩

theorem allShaped_composes : Composes settings AllShaped where
  none := by simp [AllShaped]
  append first second := by
    simp only [AllShaped, List.mem_append, or_imp, forall_and]
    exact ⟨first, second⟩
  token _ _ terminal := by simpa [AllShaped] using leaf_shaped terminal _
  node takes shaped := by simpa [AllShaped] using .branch (.inr (.inr takes)) shaped
  template _ _ chunks := by
    obtain ⟨inner, pieces, same⟩ := chunks_pieces chunks
    simp only [AllShaped, List.mem_singleton, forall_eq]
    refine .branch (.inr (.inl ⟨rfl, inner, pieces, by simp [same]⟩)) ?_
    simpa using ⟨leaf_shaped rfl _, chunks_shaped chunks⟩

end Grammar

end ScriptTree
