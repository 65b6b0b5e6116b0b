import ScriptTree.Proofs.Terminator

/-!
# Grouping by binary operators

Climbing through the levels groups operands so that no operator binds less
tightly than the one it stands below, but for `**`, which groups to the right.
A chain of operands and operators has no more than one such grouping.
-/

namespace ScriptTree

open Grammar

namespace Spelling

/-- The binary operator that is spelled in some way. -/
def operator? : Spelling → Option BinaryOperator
  | .punctuator sign => BinaryOperator.ofToken? (.punctuator sign) false
  | .keyword word => BinaryOperator.ofToken? (.keyword word) false
  | _ => none

/-- How tightly a binary operator binds. -/
def level (spelling : Spelling) : Nat :=
  (spelling.operator?.map BinaryOperator.level).getD 0

/-- The operator that groups to the right. -/
abbrev power : Spelling :=
  .punctuator .power

end Spelling

namespace Tree

/-- The operator of a binary expression as it is written in a text. -/
def operation? (source : Text) : SyntaxTree → Option Spelling
  | .node (.rule .binaryExpression) _ [_, sign, _] =>
      (sign.span.text? source).bind Spelling.ofChars?
  | _ => none

end Tree

/-- A binary expression stands below no operator that binds more tightly than
its own, nor as tightly unless it is the left operand, or the right one of
`**`. -/
def Grouped (source : Text) (node : SyntaxTree) : Prop :=
  node.label = .rule .binaryExpression → ∃ left sign right spelling,
    node.children = [left, sign, right] ∧ node.operation? source = some spelling ∧
    spelling.operator?.isSome = true ∧
    (left.label = .rule .binaryExpression → spelling ≠ .power ∧
      ∃ inner, left.operation? source = some inner ∧ spelling.level ≤ inner.level) ∧
    (right.label = .rule .binaryExpression →
      ∃ inner, right.operation? source = some inner ∧
        (spelling.level < inner.level ∨ spelling.level = inner.level ∧ spelling = .power))

/-! ## Operators and their spellings -/

structure Spelling.Operates (spelling : Spelling) (operator : BinaryOperator) : Prop where
  found : spelling.operator? = some operator
  ofChars : Spelling.ofChars? spelling.chars = some spelling
  power : operator.groupsRight = true ↔ spelling = .power
  highest : operator.groupsRight = true ↔ operator.level = 11
  lowest : BinaryOperator.lowest ≤ operator.level
  bounded : operator.level ≤ 11

namespace Spelling.Operates

variable {spelling : Spelling} {operator : BinaryOperator}

theorem of_found (found : spelling.operator? = some operator) : spelling.Operates operator := by
  refine ⟨found, ?_, ?_, ?_, ?_, ?_⟩
  all_goals
    cases spelling with
    | punctuator sign =>
        cases sign
        all_goals first
          | (cases found; done)
          | (cases found; decide)
    | keyword word =>
        cases word
        all_goals first
          | (cases found; done)
          | (cases found; decide)
    | _ => cases found

theorem level_eq (operates : spelling.Operates operator) : spelling.level = operator.level := by
  rw [Spelling.level, operates.found]
  rfl

end Spelling.Operates

namespace Grammar

variable {settings : Settings} {scope : Scope} {point last : Point} {level : Nat}

/-- The token of an operator is spelled as the operator. -/
theorem operator_operates {kind : TokenKind} {noIn : Bool} {operator : BinaryOperator}
    (found : BinaryOperator.ofToken? kind noIn = some operator) :
    ∃ spelling : Spelling, spelling.Operates operator ∧
      ∀ text, Token.SpelledAs kind text → text = spelling.chars := by
  cases kind with
  | punctuator sign => exact ⟨.punctuator sign, .of_found found, fun _ same => same⟩
  | keyword word =>
      refine ⟨.keyword word, .of_found ?_, fun _ same => same⟩
      cases word
      case inWord =>
        cases noIn with
        | true => cases found
        | false => exact found
      all_goals exact found
  | _ => cases found

/-- The span of a token covers its text. -/
theorem token_text {token : Token} (sized : settings.size = Text.size settings.source)
    (inText : point.InText settings) (run : point.next settings.dialect = .ok token) :
    token.span.text? settings.source = some token.text := by
  have scanned := Token.scan_scanned run
  obtain ⟨skipped, reaches, -⟩ := Trivia.skip_reaches scanned.skipped
  exact ((inText sized).after reaches).slice?_eq scanned.covers

/-- The operator of a node can be read off the text of its sign. -/
theorem operation_operates {token : Token} {operator : BinaryOperator} {left right : SyntaxTree}
    (sized : settings.size = Text.size settings.source) (inText : point.InText settings)
    (run : point.next settings.dialect = .ok token)
    (found : BinaryOperator.ofToken? token.kind scope.noIn = some operator) :
    ∃ spelling : Spelling, spelling.Operates operator ∧
      (build .binaryExpression [left, .leaf operator.kind token.span, right]).operation?
        settings.source = some spelling := by
  obtain ⟨spelling, operates, spelled⟩ := operator_operates found
  refine ⟨spelling, operates, ?_⟩
  change (token.span.text? settings.source).bind Spelling.ofChars? = _
  rw [token_text sized inText run, spelled _ (Token.scan_scanned run).spelled]
  exact operates.ofChars

/-! ## Climbing -/

/-- No operator of the given level or a tighter one follows a point. -/
def EndsLevel (settings : Settings) (scope : Scope) (last : Point) (level : Nat) : Prop :=
  ∃ token, last.next settings.dialect = .ok token ∧
    ∀ operator, BinaryOperator.ofToken? token.kind scope.noIn = some operator →
      operator.level < level

/-- A binary expression was put together by an operator of at least some level,
whose right operand has ended. -/
structure Joined (settings : Settings) (scope : Scope) (level : Nat) (last : Point)
    (tree : SyntaxTree) (operator : BinaryOperator) : Prop where
  spelled : settings.size = Text.size settings.source → ∃ spelling : Spelling,
    spelling.Operates operator ∧ tree.operation? settings.source = some spelling
  tight : level ≤ operator.level
  ended : EndsLevel settings scope last operator.operandLevel

/-- What is read at a level is an operand, or was put together by operators of
that level. -/
def Climbed (settings : Settings) (scope : Scope) (level : Nat) (last : Point)
    (tree : SyntaxTree) : Prop :=
  tree.label = .rule .binaryExpression → ∃ operator, Joined settings scope level last tree operator

theorem binary_ends {tree : SyntaxTree}
    (derives : Derives settings (.binary level) scope point tree last) :
    EndsLevel settings scope last level := by
  obtain ⟨middle, between, -, behind, trees, -, final⟩ := derives.reads
  obtain ⟨impossible, -⟩ | ⟨-, ends, rfl, -⟩ := Phrase.binaryRound_reads final
  · cases impossible
  · exact ends

/-- A round puts the operand before it below its operator. -/
theorem round_joined {left : List SyntaxTree} {trees : List SyntaxTree}
    (inText : point.InText settings) (one : ∃ tree, left = [tree])
    (reads : (Phrase.binaryRound level true).Reads settings (Derives settings) scope point left last
      trees) :
    ∃ tree operator, trees = [tree] ∧ Joined settings scope level last tree operator ∧
      last.InText settings := by
  obtain ⟨operand, rfl⟩ := one
  obtain ⟨-, token, operator, right, run, found, tight, member, rfl⟩ | ⟨impossible, -⟩ :=
    Phrase.binaryRound_reads reads
  · exact ⟨_, operator, rfl,
      ⟨fun sized => operation_operates sized inText run found, tight, binary_ends member⟩,
      (member.known (inText.after run)).inText⟩
  · cases impossible

/-- Rounds keep one tree, which was put together by the last of them. -/
theorem operands_climbed {trees : List SyntaxTree} (inText : point.InText settings)
    (reads : (Phrase.operands level).Reads settings (Derives settings) scope point [] last trees) :
    ∃ tree, trees = [tree] ∧ Climbed settings scope level last tree ∧ last.InText settings := by
  obtain ⟨middle, between, unaryReads, rounds⟩ := reads
  obtain ⟨operand, rfl, isOperand, -, behind⟩ := reads_one Phrase.unary_leads unaryReads inText
  induction rounds using Phrase.Reads.rounds with
  | start =>
      refine ⟨operand, rfl, fun isBinary => ?_, behind⟩
      rw [isBinary] at isOperand
      cases isOperand
  | round _ step ih =>
      obtain ⟨left, isLeft, -, here⟩ := ih
      obtain ⟨tree, operator, rfl, joined, there⟩ := round_joined here ⟨left, isLeft⟩ step
      exact ⟨tree, rfl, fun _ => ⟨operator, joined⟩, there⟩

theorem binary_climbed {tree : SyntaxTree} (inText : point.InText settings)
    (derives : Derives settings (.binary level) scope point tree last) :
    Climbed settings scope level last tree := by
  obtain ⟨middle, between, unaryReads, behind, trees, rounds, final⟩ := derives.reads
  obtain ⟨found, rfl, climbed, -⟩ := operands_climbed inText ⟨middle, between, unaryReads, rounds⟩
  obtain ⟨impossible, -⟩ | ⟨-, -, rfl, same⟩ := Phrase.binaryRound_reads final
  · cases impossible
  · cases same
    exact climbed

/-- The operator before an operand binds no less tightly than the one behind
it, which is not `**`. -/
theorem left_level {inner : BinaryOperator} {spelling innerSpelling : Spelling}
    {operator : BinaryOperator} (operates : spelling.Operates operator)
    (innerOperates : innerSpelling.Operates inner) (ended : operator.level < inner.operandLevel) :
    spelling ≠ .power ∧ spelling.level ≤ innerSpelling.level := by
  rw [operates.level_eq, innerOperates.level_eq]
  have bounded := innerOperates.bounded
  unfold BinaryOperator.operandLevel at ended
  split at ended
  case isTrue groups =>
    have highest := innerOperates.highest.mp groups
    refine ⟨fun isPower => ?_, by omega⟩
    have same := operates.highest.mp (operates.power.mpr isPower)
    omega
  case isFalse groups =>
    have other : inner.level ≠ 11 := fun highest => groups (innerOperates.highest.mpr highest)
    refine ⟨fun isPower => ?_, by omega⟩
    have same := operates.highest.mp (operates.power.mpr isPower)
    omega

/-- The operators of a right operand bind more tightly, or they are all
`**`. -/
theorem right_level {inner : BinaryOperator} {spelling innerSpelling : Spelling}
    {operator : BinaryOperator} (operates : spelling.Operates operator)
    (innerOperates : innerSpelling.Operates inner) (tight : operator.operandLevel ≤ inner.level) :
    spelling.level < innerSpelling.level ∨
      spelling.level = innerSpelling.level ∧ spelling = .power := by
  rw [operates.level_eq, innerOperates.level_eq]
  unfold BinaryOperator.operandLevel at tight
  split at tight
  case isTrue groups =>
    have highest := operates.highest.mp groups
    have bounded := innerOperates.bounded
    exact .inr ⟨by omega, operates.power.mp groups⟩
  case isFalse => exact .inl (by omega)

/-- A binary expression that was read is grouped. -/
theorem operated_grouped (sized : settings.size = Text.size settings.source) {tree : SyntaxTree}
    (makes : (Phrase.operated level).Makes settings tree) : Grouped settings.source tree := by
  intro _
  obtain ⟨scope, point, last, inText, middle, between, operandReads, round⟩ := makes
  obtain ⟨left, rfl, climbed, behind⟩ := operands_climbed inText operandReads
  obtain ⟨-, token, operator, right, run, isOperator, -, member, made⟩ | ⟨impossible, -⟩ :=
    Phrase.binaryRound_reads round
  · obtain rfl := List.singleton_inj.mp made
    obtain ⟨spelling, operates, spelled⟩ := operation_operates sized behind run isOperator
    refine ⟨left, _, right, spelling, rfl, spelled, by rw [operates.found]; rfl, fun isBinary => ?_,
      fun isBinary => ?_⟩
    · obtain ⟨inner, joined⟩ := climbed isBinary
      obtain ⟨innerSpelling, innerOperates, innerText⟩ := joined.spelled sized
      obtain ⟨next, nextRun, ends⟩ := joined.ended
      obtain rfl : token = next := Except.ok.inj (run.symm.trans nextRun)
      obtain ⟨notPower, loose⟩ := left_level operates innerOperates (ends operator isOperator)
      exact ⟨notPower, innerSpelling, innerText, loose⟩
    · obtain ⟨inner, joined⟩ := binary_climbed (behind.after run) member isBinary
      obtain ⟨innerSpelling, innerOperates, innerText⟩ := joined.spelled sized
      exact ⟨innerSpelling, innerText, right_level operates innerOperates joined.tight⟩
  · cases impossible

/-- Every binary expression of a text that is read is grouped. -/
theorem parseWith_grouped (sized : settings.size = Text.size settings.source) {tree : SyntaxTree}
    (run : parseWith settings = .ok tree) : tree.Every (Grouped settings.source) := by
  have below (tree : SyntaxTree) (placed : tree.Every (Placed settings))
      (shaped : tree.Every Shaped) : tree.Every (Grouped settings.source) := by
    induction tree using Tree.induct with
    | node label span children ih =>
        refine .node (fun isBinary => ?_) fun child isChild =>
          ih child isChild (placed.of_child child isChild) (shaped.of_child child isChild)
        have branches := shaped.here.branches _ isBinary rfl
        obtain ⟨phrase, readBy, makes⟩ := placed.here.traced _ isBinary rfl branches
        cases readBy with
        | operated level => exact operated_grouped sized makes isBinary
        | function isFunction | asyncFunction isFunction => simp at isFunction
  obtain ⟨trees, rfl, known⟩ := parseWith_known run
  obtain ⟨_, _, _, same, shaped, -, -, -⟩ := allShaped_composes.parseWith run
  cases same
  exact .node nofun fun child isChild => below child (known child isChild).1 (shaped child isChild)

end Grammar

/-! ## Chains -/

/-- An operator and the operand behind it. -/
structure Link where
  kind : Kind
  sign : Span
  operand : Span

/-- The operator of a link as it is written in a text. -/
def Link.operation? (source : Text) (link : Link) : Option Spelling :=
  (link.sign.text? source).bind Spelling.ofChars?

/-- A tree joins a variable with others by binary operators, in their order. -/
inductive Joins : Span → List Link → SyntaxTree → Prop where
  | operand (first : Span) : Joins first [] (.leaf (.rule .variableName) first)
  | join {first : Span} {before after links : List Link} {left right : SyntaxTree} (link : Link)
      (leftJoins : Joins first before left) (rightJoins : Joins link.operand after right)
      (same : links = before ++ link :: after) :
      Joins first links
        (build .binaryExpression [left, .leaf link.kind link.sign, right])

def chainLeaves (first : Span) (links : List Link) : List Leaf :=
  ⟨.rule .variableName, first, false⟩ :: links.flatMap fun link =>
    [⟨link.kind, link.sign, false⟩, ⟨.rule .variableName, link.operand, false⟩]

theorem chainLeaves_append (first : Span) (before : List Link) (link : Link) (after : List Link) :
    chainLeaves first (before ++ link :: after) =
      chainLeaves first before ++
        ⟨link.kind, link.sign, false⟩ :: chainLeaves link.operand after := by
  simp [chainLeaves]

namespace Joins

variable {source : Text} {first : Span} {links : List Link} {tree other : SyntaxTree}

theorem leaves_eq (joins : Joins first links tree) :
    tree.leaves false = chainLeaves first links := by
  induction joins with
  | operand first => simp [chainLeaves, Tree.leaves_leaf]
  | @join first before after links left right link leftJoins rightJoins same leftIh rightIh =>
      have outside : (Kind.rule .binaryExpression == Kind.rule .templateString) = false := rfl
      rw [build, Tree.leaves_branch (by simp), same, chainLeaves_append, ← leftIh, ← rightIh,
        outside]
      simp [Tree.leavesOf, Tree.leaf, Tree.leaves]

theorem label_or_nil (joins : Joins first links tree) :
    tree.label = .rule .binaryExpression ∨ links = [] := by
  cases joins with
  | operand => exact .inr rfl
  | join => exact .inl rfl

/-- The operator at the top of a grouped chain binds no more tightly than the
others. -/
theorem level_le (joins : Joins first links tree) (grouped : tree.Every (Grouped source))
    {spelling : Spelling} (top : tree.operation? source = some spelling) :
    ∀ link ∈ links, ∃ inner, link.operation? source = some inner ∧
      inner.operator?.isSome = true ∧ spelling.level ≤ inner.level := by
  induction joins generalizing spelling with
  | operand first => nofun
  | @join first before after links left right link leftJoins rightJoins same leftIh rightIh =>
      obtain ⟨_, _, _, found, isChildren, isTop, isOperator, loose, tight⟩ := grouped.here rfl
      cases isChildren
      obtain rfl : spelling = found := Option.some.inj (top.symm.trans isTop)
      have below := grouped.of_child
      intro other member
      rw [same, List.mem_append, List.mem_cons] at member
      obtain isBefore | rfl | isAfter := member
      · have isBinary := leftJoins.label_or_nil.resolve_right (List.ne_nil_of_mem isBefore)
        obtain ⟨-, inner, isInner, le⟩ := loose isBinary
        obtain ⟨deeper, isDeeper, operates, further⟩ :=
          leftIh (below left (by simp [build])) isInner other isBefore
        exact ⟨deeper, isDeeper, operates, by omega⟩
      · exact ⟨spelling, top, isOperator, le_rfl⟩
      · have isBinary := rightJoins.label_or_nil.resolve_right (List.ne_nil_of_mem isAfter)
        obtain ⟨inner, isInner, le⟩ := tight isBinary
        obtain ⟨deeper, isDeeper, operates, further⟩ :=
          rightIh (below right (by simp [build])) isInner other isAfter
        exact ⟨deeper, isDeeper, operates, by omega⟩

/-- A list that is cut at two of its links is cut at the same one, or at one
after the other. -/
theorem split_cases {before after farBefore farAfter : List Link} {link farLink : Link}
    (same : before ++ link :: after = farBefore ++ farLink :: farAfter) :
    (before = farBefore ∧ link = farLink ∧ after = farAfter) ∨
    (∃ between, farBefore = before ++ link :: between ∧ after = between ++ farLink :: farAfter) ∨
    ∃ between, before = farBefore ++ farLink :: between ∧ farAfter = between ++ link :: after := by
  induction before generalizing farBefore with
  | nil =>
      cases farBefore with
      | nil => simpa using same
      | cons other rest =>
          obtain ⟨rfl, rfl⟩ := List.cons.inj same
          exact .inr (.inl ⟨rest, rfl, rfl⟩)
  | cons first before ih =>
      cases farBefore with
      | nil =>
          obtain ⟨rfl, rfl⟩ := List.cons.inj same
          exact .inr (.inr ⟨before, rfl, rfl⟩)
      | cons other rest =>
          obtain ⟨rfl, later⟩ := List.cons.inj same
          simpa using ih later

/-- The top of one grouping of a chain cannot lie left of that of another: its
operator would be below the other's, and the other's below it. -/
theorem not_crossing {before after between : List Link} {one two : Link}
    {left right farLeft farRight : SyntaxTree}
    (rightJoins : Joins one.operand (between ++ two :: after) right)
    (leftJoins : Joins first (before ++ one :: between) farLeft)
    (grouped : (build .binaryExpression [left, .leaf one.kind one.sign, right]).Every
      (Grouped source))
    (farGrouped : (build .binaryExpression [farLeft, .leaf two.kind two.sign, farRight]).Every
      (Grouped source)) : False := by
  obtain ⟨_, _, _, spelling, isChildren, top, isOperator, -, tight⟩ := grouped.here rfl
  cases isChildren
  obtain ⟨_, _, _, farSpelling, isChildren, farTop, farIsOperator, loose, -⟩ := farGrouped.here rfl
  cases isChildren
  have rightBinary := rightJoins.label_or_nil.resolve_right (by simp)
  have leftBinary := leftJoins.label_or_nil.resolve_right (by simp)
  obtain ⟨inner, isInner, innerTight⟩ := tight rightBinary
  obtain ⟨notPower, farInner, isFarInner, farLoose⟩ := loose leftBinary
  obtain ⟨_, isTwo, -, innerLe⟩ := rightJoins.level_le (grouped.of_child right (by simp [build]))
    isInner two (by simp)
  obtain ⟨_, isOne, -, farInnerLe⟩ := leftJoins.level_le
    (farGrouped.of_child farLeft (by simp [build])) isFarInner one (by simp)
  cases Option.some.inj (isTwo.symm.trans farTop)
  cases Option.some.inj (isOne.symm.trans top)
  obtain strict | ⟨same, isPower⟩ := innerTight
  · omega
  · obtain ⟨operator, found⟩ := Option.isSome_iff_exists.mp farIsOperator
    have operates := Spelling.Operates.of_found found
    have bounded := operates.bounded
    have highest : spelling.level = 11 := by
      rw [isPower]
      decide
    rw [← operates.level_eq] at bounded
    refine notPower (operates.power.mp (operates.highest.mpr ?_))
    rw [← operates.level_eq]
    omega

/-- A chain has at most one grouping. -/
theorem unique (joins : Joins first links tree) (otherJoins : Joins first links other)
    (grouped : tree.Every (Grouped source)) (otherGrouped : other.Every (Grouped source)) :
    tree = other := by
  induction joins generalizing other with
  | operand first =>
      cases otherJoins with
      | operand => rfl
      | join link leftJoins rightJoins same => simp at same
  | @join first before after links left right link leftJoins rightJoins same leftIh rightIh =>
      cases otherJoins with
      | operand => simp at same
      | @join _ farBefore farAfter _ farLeft farRight farLink farLeftJoins farRightJoins farSame =>
          obtain ⟨rfl, rfl, rfl⟩ | ⟨between, rfl, rfl⟩ | ⟨between, rfl, rfl⟩ :=
            split_cases (same.symm.trans farSame)
          · have below := grouped.of_child
            have farBelow := otherGrouped.of_child
            rw [leftIh farLeftJoins (below left (by simp [build]))
                (farBelow farLeft (by simp [build])),
              rightIh farRightJoins (below right (by simp [build]))
                (farBelow farRight (by simp [build]))]
          · exact (not_crossing rightJoins farLeftJoins grouped otherGrouped).elim
          · exact (not_crossing farRightJoins leftJoins otherGrouped grouped).elim

end Joins

end ScriptTree
