import ScriptTree.Proofs.Grammar.Shape

/-!
# Where the names of members stand

The name of a member may be any word, reserved or not.  It stands behind an
object and a dot, or in front of a value or of parameters, or it is an entry of
an object by itself.  Below all other rules there are no such names.
-/

namespace ScriptTree

/-! ## Labels -/

/-- Labels of the names of members. -/
def Kind.isMemberName : Kind → Bool
  | .rule .propertyName | .rule .propertyDefinition => true
  | _ => false

namespace Kind

variable {kind : Kind}

@[simp, grind =]
theorem isMemberName_fixed (spelling : Spelling) : (Kind.fixed spelling).isMemberName = false :=
  rfl

@[simp, grind =]
theorem isMemberName_rule (rule : Rule) : (Kind.rule rule).isMemberName =
    (rule == .propertyName || rule == .propertyDefinition) := by
  cases rule <;> rfl

@[grind →]
theorem not_memberName_of_isExpression (isExpression : kind.isExpression = true) :
    kind.isMemberName = false := by
  cases kind with
  | fixed spelling => rfl
  | rule rule => cases rule <;> first | rfl | cases isExpression

@[grind →]
theorem not_memberName_of_isStatement (isStatement : kind.isStatement = true) :
    kind.isMemberName = false := by
  cases kind with
  | fixed spelling => rfl
  | rule rule => cases rule <;> first | rfl | cases isStatement

@[grind →]
theorem not_memberName_of_isOperator (isOperator : kind.isOperator = true) :
    kind.isMemberName = false := by
  cases kind with
  | fixed spelling => rfl
  | rule rule => cases rule <;> first | rfl | cases isOperator

theorem not_memberName_of_isElement (isElement : kind.isElement = true) :
    kind.isMemberName = false := by
  simp only [Kind.isElement, Bool.or_eq_true, beq_iff_eq] at isElement
  rcases isElement with isExpression | rfl
  · exact not_memberName_of_isExpression isExpression
  · rfl

theorem not_memberName_of_isEntry (isEntry : kind.isEntry = true) :
    kind.isMemberName = false := by
  simp only [Kind.isEntry, Bool.or_eq_true, beq_iff_eq] at isEntry
  rcases isEntry with rfl | rfl <;> rfl

end Kind

/-! ## Languages without names -/

namespace Shape

def Nameless (kinds : List Kind) : Prop :=
  ∀ kind ∈ kinds, kind.isMemberName = false

@[simp, grind .]
theorem nameless_nil : Nameless [] :=
  nofun

@[simp, grind =]
theorem nameless_cons (kind : Kind) (rest : List Kind) :
    Nameless (kind :: rest) ↔ kind.isMemberName = false ∧ Nameless rest :=
  List.forall_mem_cons

@[simp, grind =]
theorem nameless_append (first second : List Kind) :
    Nameless (first ++ second) ↔ Nameless first ∧ Nameless second :=
  List.forall_mem_append

section Position

variable {before after first second : List Kind} {kind : Kind}

/-- A name is found behind labels that are no names. -/
theorem Nameless.behind (nameless : Nameless first) (isMemberName : kind.isMemberName = true)
    (same : before ++ kind :: after = first ++ second) :
    ∃ between, before = first ++ between ∧ between ++ kind :: after = second := by
  obtain ⟨inside, rfl, cut⟩ | ⟨between, rfl, cut⟩ := List.append_eq_append_iff.mp same
  · cases inside with
    | nil => exact ⟨[], by simp, cut⟩
    | cons label rest =>
        cases cut
        have isFree := nameless kind (by simp)
        rw [isMemberName] at isFree
        cases isFree
  · exact ⟨between, rfl, cut.symm⟩

theorem Nameless.missing (nameless : Nameless first) (isMemberName : kind.isMemberName = true)
    (same : before ++ kind :: after = first) : False := by
  have isFree := nameless kind (by simp [← same])
  rw [isMemberName] at isFree
  cases isFree

/-- The only name around a key is the key. -/
theorem key_position {key : List Kind} (isKey : Key key) (words : Nameless first)
    (rest : Nameless second) (isMemberName : kind.isMemberName = true)
    (same : before ++ kind :: after = first ++ key ++ second) :
    before = first ∧ after = second := by
  obtain ⟨label, ⟨isPlain, rfl⟩ | ⟨isExpression, rfl⟩⟩ := isKey
  · rw [List.append_assoc] at same
    obtain ⟨between, rfl, later⟩ := words.behind isMemberName same
    obtain ⟨rfl, found⟩ | ⟨more, rfl, found⟩ := List.append_eq_cons_iff.mp later
    · cases found
      exact ⟨List.append_nil _, rfl⟩
    · exact (rest.missing isMemberName found.symm).elim
  · have free := Kind.not_memberName_of_isExpression isExpression
    have nameless :
        Nameless (first ++ [sign .leftBracket, label, sign .rightBracket] ++ second) := by
      simp [words, rest, free]
    exact (nameless.missing isMemberName same).elim

end Position

variable {item : Language} {kinds : List Kind} {sort : Kind → Bool}

theorem nameless_modifiers (isWords : kinds ∈ modifiers) : Nameless kinds := by
  revert isWords
  simp +contextual [modifiers, or_imp]

theorem nameless_one (nameless : ∀ kind, sort kind = true → kind.isMemberName = false)
    (one : One sort kinds) : Nameless kinds := by
  obtain ⟨kind, isSort, rfl⟩ := one
  simpa using nameless kind isSort

theorem nameless_oneOr {separator : Kind}
    (nameless : ∀ kind, sort kind = true → kind.isMemberName = false)
    (separates : separator.isMemberName = false) (one : OneOr sort separator kinds) :
    Nameless kinds := by
  rcases one with one | rfl
  · exact nameless_one nameless one
  · simpa using separates

theorem nameless_many (nameless : ∀ part, item part → Nameless part) (many : Many item kinds) :
    Nameless kinds := by
  obtain ⟨parts, all, rfl⟩ := many
  intro kind isIn
  obtain ⟨part, isPart, inPart⟩ := List.mem_flatten.mp isIn
  exact nameless part (all part isPart) kind inPart

theorem nameless_between {opening closing : Punctuator}
    (nameless : ∀ part, item part → Nameless part) (between : Between opening closing item kinds) :
    Nameless kinds := by
  obtain ⟨inner, many, rfl⟩ := between
  simpa using nameless_many nameless many

theorem nameless_separated (nameless : ∀ part, item part → Nameless part)
    (separated : Separated item kinds) : Nameless kinds := by
  obtain ⟨earlier, last, many, isLast, rfl⟩ := separated
  refine (nameless_append _ _).mpr ⟨nameless_many ?_ many, nameless last isLast⟩
  rintro _ ⟨kept, isKept, rfl⟩
  simpa using nameless kept isKept

theorem nameless_declarator (declarator : Declarator kinds) : Nameless kinds := by
  rcases declarator with rfl | ⟨value, isExpression, rfl⟩
  · simp
  · simpa using Kind.not_memberName_of_isExpression isExpression

theorem nameless_parameter (parameter : Parameter kinds) : Nameless kinds := by
  rcases parameter with rfl | declarator
  · simp
  · exact nameless_declarator declarator

theorem nameless_piece (piece : Piece kinds) : Nameless kinds := by
  rcases piece with rfl | ⟨inner, isExpression, rfl⟩
  · simp
  · simpa using Kind.not_memberName_of_isExpression isExpression

theorem nameless_cases (cases : Cases kinds) : Nameless kinds := by
  rcases cases with rfl | ⟨label, rest, isLabel, all, rfl⟩
  · simp
  · refine (nameless_cons _ _).mpr ⟨by rcases isLabel with rfl | rfl <;> rfl, ?_⟩
    intro kind isIn
    rcases all kind isIn with isStatement | rfl | rfl
    · exact Kind.not_memberName_of_isStatement isStatement
    all_goals rfl

end Shape

/-! ## Rules -/

open Shape

/-- Labels in a row, with or without separators. -/
theorem Rule.Takes.nameless_listed {rule : Rule} {kinds : List Kind}
    (isListed : rule ∈ [Rule.variableDeclaration, .sequenceExpression, .block, .arrayExpression,
      .argList, .objectExpression, .classBody, .switchBody, .paramList])
    (takes : rule.Takes kinds) : Nameless kinds := by
  cases rule
  case variableDeclaration =>
    obtain ⟨keyword, isKeyword, inner, separated, ending, isEnding, rfl⟩ := takes
    have inside := nameless_separated (fun _ => nameless_declarator) separated
    grind
  case sequenceExpression =>
    exact nameless_separated
      (fun _ => nameless_one fun _ => Kind.not_memberName_of_isExpression) takes
  case block =>
    exact nameless_between (fun _ => nameless_one fun _ => Kind.not_memberName_of_isStatement) takes
  case arrayExpression | argList =>
    exact nameless_between
      (fun _ => nameless_oneOr (fun _ => Kind.not_memberName_of_isElement) rfl) takes
  case objectExpression =>
    exact nameless_between
      (fun _ => nameless_oneOr (fun _ => Kind.not_memberName_of_isEntry) rfl) takes
  case classBody =>
    refine nameless_between (fun _ => nameless_oneOr ?_ rfl) takes
    simp
  case switchBody =>
    obtain ⟨inner, cases, rfl⟩ := takes
    simpa using nameless_cases cases
  case paramList =>
    obtain ⟨inner, rest, many, isRest, rfl⟩ := takes
    have inside := nameless_many (fun _ => nameless_parameter) many
    rcases isRest with rfl | rfl <;> simpa using inside
  all_goals simp at isListed

/-- A keyword with what may follow it in the same line. -/
theorem Rule.Takes.nameless_jump {rule : Rule} {kinds : List Kind}
    (isJump : rule ∈ [Rule.returnStatement, .breakStatement, .continueStatement])
    (takes : rule.Takes kinds) : Nameless kinds := by
  have parts : ∃ keyword target sort, (sort = Kind.isExpression ∨ sort = (· == .rule .label)) ∧
      (target = [] ∨ One sort target) ∧ ∃ ending ∈ maybe (sign .semicolon),
        kinds = word keyword :: (target ++ ending) := by
    simp only [List.mem_cons, List.not_mem_nil, or_false] at isJump
    rcases isJump with rfl | rfl | rfl
    all_goals
      obtain ⟨keyword, target, sort, isForm, rest⟩ := takes
      simp only [List.mem_cons, Prod.mk.injEq, reduceCtorEq, false_and, true_and, or_false,
        false_or, List.not_mem_nil] at isForm
      exact ⟨keyword, target, sort, by simp [isForm.2], rest⟩
  obtain ⟨keyword, target, sort, isSort, isTarget, ending, isEnding, rfl⟩ := parts
  have nameless : Nameless target := by
    rcases isTarget with rfl | one
    · simp
    · refine nameless_one (fun kind fits => ?_) one
      rcases isSort with rfl | rfl
      · exact Kind.not_memberName_of_isExpression fits
      · rw [beq_iff_eq.mp fits]
        rfl
  grind

/-- A row of which some labels may be missing. -/
theorem Rule.Takes.nameless_optional {rule : Rule} {kinds : List Kind}
    (isOptional : rule ∈ [Rule.functionDeclaration, .functionExpression, .classDeclaration,
      .classExpression, .expressionStatement, .ifStatement, .doStatement, .forSpec, .forInSpec,
      .forOfSpec, .throwStatement, .tryStatement, .catchClause, .debuggerStatement])
    (takes : rule.Takes kinds) : Nameless kinds := by
  simp only [List.mem_cons, List.not_mem_nil, or_false] at isOptional
  rcases isOptional with rfl | rfl | rfl | rfl | rfl | rfl | rfl | rfl | rfl | rfl | rfl | rfl |
    rfl | rfl
  all_goals grind [Rule.Takes, Shape.One]

theorem Rule.Takes.nameless {rule : Rule} {kinds : List Kind}
    (plain : rule ∉ [Rule.memberExpression, .property, .methodDeclaration])
    (takes : rule.Takes kinds) : Nameless kinds := by
  cases rule
  case memberExpression | property | methodDeclaration => simp at plain
  case variableDeclaration | sequenceExpression | block | arrayExpression | argList |
      objectExpression | classBody | switchBody | paramList =>
    exact takes.nameless_listed (by decide)
  case returnStatement | breakStatement | continueStatement =>
    exact takes.nameless_jump (by decide)
  case functionDeclaration | functionExpression | classDeclaration | classExpression |
      expressionStatement | ifStatement | doStatement | forSpec | forInSpec | forOfSpec |
      throwStatement | tryStatement | catchClause | debuggerStatement =>
    exact takes.nameless_optional (by decide)
  all_goals first
    | exact absurd takes id
    | grind [Rule.Takes, Shape.One]

/-- Where the name of a member can stand among the labels below a rule: behind
an object and a dot, or in front of a value or of parameters, or on its own. -/
def Rule.NamesMember (rule : Rule) (before after : List Kind) : Prop :=
  (rule = .memberExpression ∧ before.length = 2 ∧ after = []) ∨
    (rule = .property ∨ rule = .methodDeclaration) ∧
      (before = [] ∧ after = [] ∨
        ∃ rest, after = .rule .paramList :: rest ∨ after = sign .colon :: rest)

theorem Rule.Takes.namesMember {rule : Rule} {before after : List Kind} {kind : Kind}
    (isMemberName : kind.isMemberName = true) (takes : rule.Takes (before ++ kind :: after)) :
    rule.NamesMember before after := by
  by_cases plain : rule ∈ [Rule.memberExpression, .property, .methodDeclaration]
  · simp only [List.mem_cons, List.not_mem_nil, or_false] at plain
    rcases plain with rfl | rfl | rfl
    · obtain ⟨operand, isOperand, same | ⟨key, isKey, same⟩⟩ := takes
      · have nameless : Nameless [operand, sign .dot] := by
          simp [Kind.not_memberName_of_isExpression isOperand]
        obtain ⟨between, rfl, later⟩ := nameless.behind isMemberName same
        obtain ⟨rfl, found⟩ | ⟨_, rfl, found⟩ := List.append_eq_cons_iff.mp later
        · cases found
          exact .inl ⟨rfl, rfl, rfl⟩
        · simp at found
      · have nameless : Nameless [operand, sign .leftBracket, key, sign .rightBracket] := by
          simp [Kind.not_memberName_of_isExpression isOperand,
            Kind.not_memberName_of_isExpression isKey]
        exact (nameless.missing isMemberName same).elim
    · obtain ⟨words, isWords, key, isKey, same | ⟨rfl, same | ⟨value, isValue, same⟩⟩⟩ := takes
      · obtain ⟨-, rfl⟩ := key_position isKey (nameless_modifiers isWords)
          (by simp) isMemberName same
        exact .inr ⟨.inl rfl, .inr ⟨_, .inl rfl⟩⟩
      · have alone : before ++ kind :: after = [] ++ key ++ [] := by simpa using same
        obtain ⟨rfl, rfl⟩ := key_position isKey nameless_nil nameless_nil isMemberName alone
        exact .inr ⟨.inl rfl, .inl ⟨rfl, rfl⟩⟩
      · have valueFree := Kind.not_memberName_of_isExpression isValue
        obtain ⟨-, rfl⟩ := key_position isKey nameless_nil
          (by simp [valueFree]) isMemberName same
        exact .inr ⟨.inl rfl, .inr ⟨_, .inr rfl⟩⟩
    · obtain ⟨static, isStatic, words, isWords, key, isKey, same⟩ := takes
      have wordsFree := nameless_modifiers isWords
      have nameless : Nameless (static ++ words) := by
        simp only [List.mem_cons, List.not_mem_nil, or_false] at isStatic
        rcases isStatic with rfl | rfl <;> simpa using wordsFree
      obtain ⟨-, rfl⟩ := key_position isKey nameless (by simp) isMemberName same
      exact .inr ⟨.inr rfl, .inr ⟨_, .inl rfl⟩⟩
  · have nameless := takes.nameless plain kind (by simp)
    rw [isMemberName] at nameless
    cases nameless

end ScriptTree
