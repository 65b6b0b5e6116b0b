import ScriptTree.Proofs.Rebuild.Accepts
import ScriptTree.Rebuild.Process

/-!
# What the rules handle

Every rule uses up whatever its children can turn into, and its own fragment
is one that its label can yield.
-/

namespace ScriptTree

open Estree Shape

namespace Rule

/-- A rule uses up all fragments that children with some labels can yield, and
gives a fragment that its own label can yield. -/
def Handles (rule : Rule) (kinds : List Kind) : Prop :=
  Take.Accepts (Rebuild.handler rule) kinds fun fragment left =>
    left = [] ∧ Kind.Yields (.rule rule) fragment

section

open Take.Accepts

variable {kinds : List Kind}

theorem is_fixed {spelling : Spelling} (fragment : Fragment)
    (yields : Kind.Yields (.fixed spelling) fragment) : fragment = .token spelling.text :=
  yields

theorem is_star (fragment : Fragment) (yields : Kind.Yields (.rule .star) fragment) :
    fragment = .token "*" :=
  yields

theorem is_equals (fragment : Fragment) (yields : Kind.Yields (.rule .equals) fragment) :
    fragment = .token "=" :=
  yields

theorem is_list {rule : Rule} (isList : rule = .argList ∨ rule = .paramList ∨ rule = .switchBody)
    (fragment : Fragment) (yields : Kind.Yields (.rule rule) fragment) :
    ∃ nodes, fragment = .list nodes := by
  obtain rfl | rfl | rfl := isList <;> exact yields

/-! ## Statements -/

theorem expressionStatement_handles (takes : expressionStatement.Takes kinds) :
    expressionStatement.Handles kinds := by
  obtain ⟨value, isWhole, ending, isEnding, rfl⟩ := takes
  exact expression isWhole fun _ => eat_last isEnding is_fixed fun _ => returns ⟨rfl, _, rfl⟩

theorem debuggerStatement_handles (takes : debuggerStatement.Takes kinds) :
    debuggerStatement.Handles kinds := by
  obtain ⟨ending, isEnding, rfl⟩ := takes
  exact expect is_fixed (eat_last isEnding is_fixed fun _ => returns ⟨rfl, _, rfl⟩)

theorem emptyStatement_handles (takes : emptyStatement.Takes kinds) :
    emptyStatement.Handles kinds := by
  obtain rfl := takes
  exact expect is_fixed (returns ⟨rfl, _, rfl⟩)

theorem labeledStatement_handles (takes : labeledStatement.Takes kinds) :
    labeledStatement.Handles kinds := by
  obtain ⟨body, isBody, rfl⟩ := takes
  exact whole rfl fun _ => expect is_fixed (statement isBody fun _ => returns ⟨rfl, _, rfl⟩)

theorem ifStatement_handles (takes : ifStatement.Takes kinds) : ifStatement.Handles kinds := by
  obtain ⟨test, consequent, isTest, isConsequent, rfl | ⟨alternate, isAlternate, rfl⟩⟩ := takes
  · exact expect is_fixed (expression isTest fun _ => statement isConsequent fun _ =>
      pass rfl (returns ⟨rfl, _, rfl⟩))
  · exact expect is_fixed (expression isTest fun _ => statement isConsequent fun _ =>
      eat is_fixed (statement isAlternate fun _ => returns ⟨rfl, _, rfl⟩))

theorem whileStatement_handles (takes : whileStatement.Takes kinds) :
    whileStatement.Handles kinds := by
  obtain ⟨test, body, isTest, isBody, rfl⟩ := takes
  exact expect is_fixed (expression isTest fun _ => statement isBody fun _ =>
    returns ⟨rfl, _, rfl⟩)

theorem doStatement_handles (takes : doStatement.Takes kinds) : doStatement.Handles kinds := by
  obtain ⟨body, test, isBody, isTest, ending, isEnding, rfl⟩ := takes
  exact expect is_fixed (statement isBody fun _ => expect is_fixed (expression isTest fun _ =>
    eat_last isEnding is_fixed fun _ => returns ⟨rfl, _, rfl⟩))

theorem throwStatement_handles (takes : throwStatement.Takes kinds) :
    throwStatement.Handles kinds := by
  obtain ⟨value, isValue, ending, isEnding, rfl⟩ := takes
  exact expect is_fixed (expression isValue fun _ =>
    eat_last isEnding is_fixed fun _ => returns ⟨rfl, _, rfl⟩)

theorem optional_isNode {sort : Kind → Bool} {target : List Kind}
    (wholes : ∀ kind, sort kind = true → kind.isWhole = true)
    (isTarget : target = [] ∨ One sort target) :
    target = [] ∨ ∃ kind, kind.isNode = true ∧ target = [kind] :=
  isTarget.imp id fun ⟨kind, isSort, same⟩ =>
    ⟨kind, Kind.isNode_of_isWhole (wholes kind isSort), same⟩

theorem optional_expression {target : List Kind}
    (isTarget : target = [] ∨ One Kind.isExpression target) :
    target = [] ∨ ∃ kind, kind.isNode = true ∧ target = [kind] :=
  optional_isNode (fun _ => Kind.isWhole_of_isExpression) isTarget

theorem isWhole_of_beq {rule : Rule} (isWhole : rule.isWhole = true) (kind : Kind)
    (same : (kind == .rule rule) = true) : kind.isWhole = true := by
  rw [eq_of_beq same]
  exact isWhole

theorem noNode_maybe {present : List Kind} {spelling : Spelling}
    (isPresent : present ∈ maybe (.fixed spelling)) : Take.noNode present = true := by
  simp only [List.mem_cons, List.not_mem_nil, or_false] at isPresent
  obtain rfl | rfl := isPresent <;> rfl

/-- Statements that jump, possibly with a target or value. -/
theorem jump_accepts {rule : Rule} {keyword : Keyword} {spelling : String}
    {build : Option Node → Node} {target ending : List Kind}
    (same : (Spelling.keyword keyword).text = spelling)
    (isTarget : target = [] ∨ ∃ kind, kind.isNode = true ∧ target = [kind])
    (isEnding : ending ∈ maybe (sign .semicolon))
    (yields : ∀ target, Kind.Yields (.rule rule) (.node (build target))) :
    Take.Accepts (Rebuild.jump spelling build) (word keyword :: (target ++ ending))
      fun fragment left => left = [] ∧ Kind.Yields (.rule rule) fragment := by
  subst same
  exact expect is_fixed (node?_maybe isTarget (noNode_maybe isEnding) fun _ =>
    eat_last isEnding is_fixed fun _ => returns ⟨rfl, yields _⟩)

theorem returnStatement_handles (takes : returnStatement.Takes kinds) :
    returnStatement.Handles kinds := by
  obtain ⟨keyword, target, sort, isJump, isTarget, ending, isEnding, rfl⟩ := takes
  obtain ⟨rfl, rfl⟩ : keyword = .returnWord ∧ sort = Kind.isExpression := by simpa using isJump
  exact jump_accepts rfl (optional_expression isTarget) isEnding fun _ => ⟨_, rfl⟩

theorem breakStatement_handles (takes : breakStatement.Takes kinds) :
    breakStatement.Handles kinds := by
  obtain ⟨keyword, target, sort, isJump, isTarget, ending, isEnding, rfl⟩ := takes
  obtain ⟨rfl, rfl⟩ : keyword = .breakWord ∧ sort = (· == .rule .label) := by simpa using isJump
  exact jump_accepts rfl (optional_isNode (isWhole_of_beq rfl) isTarget) isEnding
    fun _ => ⟨_, rfl⟩

theorem continueStatement_handles (takes : continueStatement.Takes kinds) :
    continueStatement.Handles kinds := by
  obtain ⟨keyword, target, sort, isJump, isTarget, ending, isEnding, rfl⟩ := takes
  obtain ⟨rfl, rfl⟩ : keyword = .continueWord ∧ sort = (· == .rule .label) := by simpa using isJump
  exact jump_accepts rfl (optional_isNode (isWhole_of_beq rfl) isTarget) isEnding
    fun _ => ⟨_, rfl⟩

/-! ## Loops -/

theorem forStatement_handles (takes : forStatement.Takes kinds) : forStatement.Handles kinds := by
  obtain ⟨head, isHead, body, isBody, rfl⟩ := takes
  refine expect is_fixed (loopHead ?_ fun _ => statement isBody fun _ => returns ⟨rfl, _, rfl⟩)
  intro fragment yields
  simp only [List.mem_cons, List.not_mem_nil, or_false] at isHead
  obtain rfl | rfl | rfl := isHead <;> exact yields

theorem forSpec_handles (takes : forSpec.Takes kinds) : forSpec.Handles kinds := by
  obtain ⟨init, test, update, isInit, isTest, isUpdate, rfl⟩ := takes
  have isInit : init = [] ∨ ∃ kind, kind.isNode = true ∧ init = [kind] := by
    obtain none | isExpression | rfl := isInit
    · exact .inl none
    · exact optional_expression (.inr isExpression)
    · exact .inr ⟨_, rfl, rfl⟩
  exact expect is_fixed (node?_maybe isInit rfl fun _ => expect is_fixed
    (node?_maybe (optional_expression isTest) rfl fun _ => expect is_fixed
      (node?_maybe (optional_expression isUpdate) rfl fun _ => expect is_fixed
        (returns ⟨rfl, _, rfl⟩))))

/-- The keywords of declarations start them. -/
theorem declares_keyword {keyword : Kind}
    (isKeyword : keyword ∈ [word .varWord, word .letWord, word .constWord]) :
    ∃ spelling kind, keyword = .fixed spelling ∧
      VariableKind.ofKeyword? spelling.text = some kind := by
  simp only [List.mem_cons, List.not_mem_nil, or_false] at isKeyword
  obtain rfl | rfl | rfl := isKeyword
  · exact ⟨_, .var, rfl, by decide⟩
  · exact ⟨_, .letKind, rfl, by decide⟩
  · exact ⟨_, .const, rfl, by decide⟩

section

variable {Value : Type} {post : Value → List Kind → Prop} {rest : List Kind}

theorem peekVariableKind_some {spelling : Spelling} {kind : VariableKind}
    {next : Option VariableKind → Take Value}
    (found : VariableKind.ofKeyword? spelling.text = some kind)
    (leads : Take.Accepts (next (some kind)) (.fixed spelling :: rest) post) :
    Take.Accepts (Rebuild.peekVariableKind >>= next) (.fixed spelling :: rest) post := by
  refine bind (peek nofun fun _ _ _ same yields => ?_)
  cases same
  cases yields
  exact returns (found ▸ leads)

theorem peekVariableKind_none {kind : Kind} {next : Option VariableKind → Take Value}
    (isWhole : kind.isWhole = true)
    (leads : Take.Accepts (next none) (kind :: rest) post) :
    Take.Accepts (Rebuild.peekVariableKind >>= next) (kind :: rest) post := by
  refine bind (peek nofun fun _ _ _ same yields => ?_)
  cases same
  obtain ⟨node, rfl⟩ := yields.isNode (Kind.isNode_of_isWhole isWhole)
  exact returns leads

theorem iterationTarget_accepts {target : List Kind} {next : Node → Take Value}
    (isTarget : One Kind.isExpression target ∨
      ∃ keyword ∈ [word .varWord, word .letWord, word .constWord],
        target = [keyword, .rule .variableDefinition])
    (leads : ∀ node, Take.Accepts (next node) rest post) :
    Take.Accepts (Rebuild.iterationTarget >>= next) (target ++ rest) post := by
  refine bind ?_
  obtain ⟨kind, isExpression, rfl⟩ | ⟨keyword, isKeyword, rfl⟩ := isTarget
  · have isWhole := Kind.isWhole_of_isExpression isExpression
    exact peekVariableKind_none isWhole (last (whole isWhole fun _ => returns (leads _)))
  · obtain ⟨spelling, kind, rfl, found⟩ := declares_keyword isKeyword
    exact peekVariableKind_some found
      (Take.Accepts.takes fun _ _ => whole rfl fun _ => returns (leads _))

end

theorem iterationSpec_accepts {rule : Rule} {spelling : Spelling} {text : String}
    {build : Node → Node → LoopHead} {target : List Kind} {subject : Kind}
    (same : spelling.text = text) (isSubject : subject.isExpression = true)
    (isTarget : One Kind.isExpression target ∨
      ∃ keyword ∈ [word .varWord, word .letWord, word .constWord],
        target = [keyword, .rule .variableDefinition])
    (yields : ∀ head, Kind.Yields (.rule rule) (.loop head)) :
    Take.Accepts (Rebuild.iterationSpec text build)
      (sign .leftParen :: (target ++ [.fixed spelling, subject, sign .rightParen]))
      fun fragment left => left = [] ∧ Kind.Yields (.rule rule) fragment := by
  subst same
  exact expect is_fixed (iterationTarget_accepts isTarget fun _ => expect is_fixed
    (expression isSubject fun _ => expect is_fixed (returns ⟨rfl, yields _⟩)))

theorem forInSpec_handles (takes : forInSpec.Takes kinds) : forInSpec.Handles kinds := by
  obtain ⟨target, subject, isSubject, isTarget, rfl⟩ := takes
  exact iterationSpec_accepts rfl isSubject isTarget fun head => ⟨head, rfl⟩

theorem forOfSpec_handles (takes : forOfSpec.Takes kinds) : forOfSpec.Handles kinds := by
  obtain ⟨target, subject, isSubject, isTarget, rfl⟩ := takes
  exact iterationSpec_accepts rfl isSubject isTarget fun head => ⟨head, rfl⟩

/-! ## Exceptions and switches -/

theorem handler?_some {Value : Type} {post : Value → List Kind → Prop} {rest : List Kind}
    {next : Option Node → Take Value}
    (leads : ∀ node, Take.Accepts (next (some node)) rest post) :
    Take.Accepts (Rebuild.handler? >>= next) (.rule .catchClause :: rest) post := by
  refine bind (peek nofun fun _ _ _ same yields => ?_)
  cases same
  obtain ⟨param, body, rfl⟩ := yields
  exact last (node?_some rfl fun node => returns (leads node))

theorem handler?_none {Value : Type} {post : Value → List Kind → Prop} {finalizer : List Kind}
    {next : Option Node → Take Value} (isFinalizer : finalizer ∈ maybe (.rule .finallyClause))
    (leads : Take.Accepts (next none) finalizer post) :
    Take.Accepts (Rebuild.handler? >>= next) finalizer post := by
  simp only [List.mem_cons, List.not_mem_nil, or_false] at isFinalizer
  refine bind (peek (fun none => ?_) fun _ _ _ same yields => ?_)
  · exact returns (none ▸ leads)
  · obtain rfl | rfl := isFinalizer
    · cases same
    · cases same
      obtain ⟨body, rfl⟩ := yields
      exact returns leads

theorem tryStatement_handles (takes : tryStatement.Takes kinds) : tryStatement.Handles kinds := by
  obtain ⟨handler, isHandler, finalizer, isFinalizer, any, rfl⟩ := takes
  refine expect is_fixed (whole rfl fun block => ?_)
  have isHandler : handler = [] ∨ handler = [.rule .catchClause] := by simpa using isHandler
  have isOptional : finalizer = [] ∨ finalizer = [.rule .finallyClause] := by
    simpa using isFinalizer
  obtain rfl | rfl := isHandler
  · refine handler?_none isFinalizer ?_
    obtain rfl | rfl := isOptional
    · exact absurd rfl any
    · exact node?_some rfl fun _ => returns ⟨rfl, _, rfl⟩
  · refine handler?_some fun _ => ?_
    obtain rfl | rfl := isOptional
    · exact node?_none rfl (returns ⟨rfl, _, rfl⟩)
    · exact node?_some rfl fun _ => returns ⟨rfl, _, rfl⟩

theorem catchClause_handles (takes : catchClause.Takes kinds) : catchClause.Handles kinds := by
  obtain ⟨bound, rfl | rfl, rfl⟩ := takes
  · exact expect is_fixed (pass rfl (whole rfl fun _ => returns ⟨rfl, _, _, rfl⟩))
  · exact expect is_fixed (eat is_fixed (whole rfl fun _ => expect is_fixed
      (whole rfl fun _ => returns ⟨rfl, _, _, rfl⟩)))

theorem finallyClause_handles (takes : finallyClause.Takes kinds) :
    finallyClause.Handles kinds := by
  obtain rfl := takes
  refine expect is_fixed (node rfl fun body isBlock => returns ⟨rfl, isBlock⟩)

theorem switchStatement_handles (takes : switchStatement.Takes kinds) :
    switchStatement.Handles kinds := by
  obtain ⟨subject, isSubject, rfl⟩ := takes
  exact expect is_fixed (expression isSubject fun _ => list (is_list (.inr (.inr rfl))) fun _ =>
    returns ⟨rfl, _, rfl⟩)

theorem caseLabel_handles (takes : caseLabel.Takes kinds) : caseLabel.Handles kinds := by
  obtain ⟨test, isTest, rfl⟩ := takes
  exact expect is_fixed (expression isTest fun _ => expect is_fixed (returns ⟨rfl, _, _, rfl⟩))

theorem defaultLabel_handles (takes : defaultLabel.Takes kinds) : defaultLabel.Handles kinds := by
  obtain rfl := takes
  exact expect is_fixed (expect is_fixed (returns ⟨rfl, _, _, rfl⟩))

/-! ## Bodies and lists -/

theorem block_handles (takes : block.Takes kinds) : block.Handles kinds := by
  obtain ⟨inner, many, rfl⟩ := takes
  refine expect is_fixed (manyUntil many is_fixed
    (fun _ => starts_one fun _ => Kind.isWhole_of_isStatement) ?_ fun _ => returns ⟨rfl, _, rfl⟩)
  rintro - body behind ⟨kind, isStatement, rfl⟩ -
  exact statement isStatement fun _ => returns rfl

theorem classBody_handles (takes : classBody.Takes kinds) : classBody.Handles kinds := by
  obtain ⟨inner, many, rfl⟩ := takes
  exact expect is_fixed (nodesUntil many (isWhole_of_beq rfl) is_fixed is_fixed (by decide)
    fun _ =>
    returns ⟨rfl, _, rfl⟩)

theorem objectExpression_handles (takes : objectExpression.Takes kinds) :
    objectExpression.Handles kinds := by
  obtain ⟨inner, many, rfl⟩ := takes
  exact expect is_fixed (nodesUntil many (fun _ => Kind.isWhole_of_isEntry) is_fixed is_fixed
    (by decide) fun _ =>
    returns ⟨rfl, _, rfl⟩)

theorem argList_handles (takes : argList.Takes kinds) : argList.Handles kinds := by
  obtain ⟨inner, many, rfl⟩ := takes
  exact expect is_fixed (nodesUntil many (fun _ => Kind.isWhole_of_isElement) is_fixed is_fixed
    (by decide) fun _ =>
    returns ⟨rfl, _, rfl⟩)

theorem arrayExpression_handles (takes : arrayExpression.Takes kinds) :
    arrayExpression.Handles kinds := by
  obtain ⟨inner, many, rfl⟩ := takes
  refine expect is_fixed (manyUntil many is_fixed ?_ ?_ fun _ => returns ⟨rfl, _, rfl⟩)
  · rintro part (one | rfl)
    · exact starts_one (fun _ => Kind.isWhole_of_isElement) one
    · exact ⟨_, [], rfl, by decide⟩
  · rintro part elements behind (⟨kind, isElement, rfl⟩ | rfl) -
    · have isWhole := Kind.isWhole_of_isElement isElement
      exact pass (Take.misses_whole isWhole) (whole isWhole fun _ => returns rfl)
    · refine eat is_fixed ?_
      cases elements.afterElement
      · exact returns rfl
      · exact returns rfl

def AnyParameter : Language :=
  fun kinds => Parameter kinds ∨ RestParameter kinds

theorem starts_parameter {part : List Kind} (isParameter : AnyParameter part) :
    Starts ")" part ∧ Starts "=" part := by
  obtain (rfl | rfl | ⟨value, isValue, rfl⟩) | rfl := isParameter
  all_goals exact ⟨⟨_, _, rfl, by decide⟩, _, _, rfl, by decide⟩

theorem parameters_many {inner rest : List Kind} (many : Many Parameter inner)
    (isRest : rest = [] ∨ RestParameter rest) : Many AnyParameter (inner ++ rest) := by
  obtain ⟨pieces, items, rfl⟩ := many
  have params : ∀ part ∈ pieces, AnyParameter part := fun part member => .inl (items part member)
  obtain rfl | isRest := isRest
  · exact ⟨pieces, params, by simp⟩
  · refine ⟨pieces ++ [rest], ?_, by simp⟩
    simp only [List.mem_append, List.mem_singleton, or_imp, forall_and, forall_eq]
    exact ⟨params, .inr isRest⟩

theorem paramList_handles (takes : paramList.Takes kinds) : paramList.Handles kinds := by
  obtain ⟨inner, rest, many, isRest, rfl⟩ := takes
  refine expect is_fixed (manyUntil (parameters_many many isRest) is_fixed
    (fun _ isItem => (starts_parameter isItem).1) ?_ fun _ => returns ⟨rfl, _, rfl⟩)
  rintro part params behind isParameter isBehind
  obtain (rfl | rfl | ⟨value, isValue, rfl⟩) | rfl := isParameter
  · exact eat is_fixed (returns rfl)
  · refine pass rfl (pass rfl (whole rfl fun _ => pass ?_ (returns rfl)))
    obtain ⟨first, rest, rfl, rfl | ⟨others, isItem⟩⟩ := isBehind
    · rfl
    · obtain ⟨_, _, same, other⟩ := (starts_parameter isItem).2
      cases same
      simp [Take.misses, other]
  · exact pass rfl (pass rfl (whole rfl fun _ => eat is_equals
      (expression isValue fun _ => returns rfl)))
  · exact pass rfl (eat is_fixed (whole rfl fun _ => returns rfl))

theorem cases_isNode {inner : List Kind} (isCases : Cases inner) :
    ∀ kind ∈ inner, kind.isNode = true := by
  have label {kind : Kind} (isLabel : kind = .rule .caseLabel ∨ kind = .rule .defaultLabel) :
      kind.isNode = true := by
    obtain rfl | rfl := isLabel <;> rfl
  obtain rfl | ⟨first, rest, isLabel, allowed, rfl⟩ := isCases
  · simp
  · simp only [List.mem_cons, forall_eq_or_imp]
    exact ⟨label isLabel, fun kind member =>
      (allowed kind member).elim
        (fun isStatement => Kind.isNode_of_isWhole (Kind.isWhole_of_isStatement isStatement)) label⟩

/-- Cases that a statement can be added to: the last one comes first. -/
def HasCase (cases : List Node) : Prop :=
  ∃ test consequent earlier, cases = .switchCase test consequent :: earlier

theorem addToCases_some {cases : List Node} {node : Node} (hasCase : HasCase cases) :
    ∃ added, Rebuild.addToCases cases node = some added ∧ HasCase added := by
  obtain ⟨test, consequent, earlier, rfl⟩ := hasCase
  unfold Rebuild.addToCases
  split
  · exact ⟨_, rfl, _, _, _, rfl⟩
  · exact ⟨_, rfl, _, _, _, rfl⟩
  · rename_i absurd
    exact (absurd _ _ _ rfl).elim

theorem switchBody_handles (takes : switchBody.Takes kinds) : switchBody.Handles kinds := by
  obtain ⟨inner, isCases, rfl⟩ := takes
  -- A statement is taken only after a label.
  let invariant : List (List Kind) → List Node → Prop := fun pieces cases =>
    (∀ part ∈ pieces, ∃ kind, kind.isNode = true ∧ part = [kind]) ∧
      (HasCase cases ∨ cases = [] ∧ ∀ part ∈ pieces.head?,
        part = [.rule .caseLabel] ∨ part = [.rule .defaultLabel])
  have pieces : ∃ pieces, invariant pieces [] ∧ inner = pieces.flatten := by
    refine ⟨inner.map fun kind => [kind], ⟨?_, .inr ⟨rfl, ?_⟩⟩, ?_⟩
    · simpa using cases_isNode isCases
    · obtain rfl | ⟨label, rest, isLabel, allowed, rfl⟩ := isCases
      · simp
      · simpa using isLabel
    · exact (List.flatMap_singleton' inner).symm
  obtain ⟨pieces, begins, rfl⟩ := pieces
  refine expect is_fixed (untilToken invariant is_fixed ?_ ?_ begins fun _ _ =>
    returns ⟨rfl, _, rfl⟩)
  · intro part member
    obtain ⟨kind, isNode, rfl⟩ := begins.1 part member
    exact ⟨kind, [], rfl, Kind.mayBe_of_isNode isNode _⟩
  · rintro part pieces cases ⟨parts, state⟩
    obtain ⟨kind, isNode, rfl⟩ := parts part (by simp)
    refine node isNode fun given yields => ?_
    have added : ∃ added, Rebuild.addToCases cases given = some added ∧ HasCase added := by
      obtain hasCase | ⟨rfl, isLabel⟩ := state
      · exact addToCases_some hasCase
      · have isCase : ∃ test consequent, given = .switchCase test consequent := by
          obtain same | same := isLabel [kind] (by simp)
          all_goals
            cases same
            obtain ⟨test, consequent, same⟩ := yields
            exact ⟨test, consequent, Fragment.node.inj same⟩
        obtain ⟨test, consequent, rfl⟩ := isCase
        exact ⟨_, rfl, test, consequent, [], rfl⟩
    obtain ⟨added, same, hasCase⟩ := added
    simp only [same]
    exact returns ⟨rfl, fun part member => parts part (by simp [member]), .inl hasCase⟩

/-! ## Declarations -/

theorem declarator_accepts {part behind later : List Kind} (isDeclarator : Declarator part)
    (follows : Follows later behind) (other : Take.misses "=" later = true) :
    Take.Accepts Rebuild.declarator (part ++ behind) fun _ left => left = behind := by
  obtain rfl | ⟨value, isValue, rfl⟩ := isDeclarator
  · refine whole rfl fun _ => pass ?_ (returns rfl)
    obtain rfl | ⟨rest, rfl⟩ := follows
    · exact other
    · rfl
  · exact whole rfl fun _ => eat is_equals (expression isValue fun _ => returns rfl)

theorem misses_maybe {present : List Kind} {spelling : Spelling} {text : String}
    (isPresent : present ∈ maybe (.fixed spelling)) (other : (spelling.text == text) = false) :
    Take.misses text present = true := by
  simp only [List.mem_cons, List.not_mem_nil, or_false] at isPresent
  obtain rfl | rfl := isPresent
  · rfl
  · simp [Take.misses, Kind.mayBe, other]

theorem variableDeclaration_handles (takes : variableDeclaration.Takes kinds) :
    variableDeclaration.Handles kinds := by
  obtain ⟨keyword, isKeyword, inner, isSeparated, ending, isEnding, rfl⟩ := takes
  obtain ⟨spelling, kind, rfl, found⟩ := declares_keyword isKeyword
  refine token (fun _ yields => ⟨_, yields⟩) fun text yields => ?_
  obtain rfl := Fragment.token.inj yields
  simp only [found]
  refine separated (fun part behind isItem follows => ?_) isSeparated
    (misses_maybe isEnding (by decide)) fun _ => eat_last isEnding is_fixed fun _ =>
      returns ⟨rfl, _, rfl⟩
  exact declarator_accepts isItem follows (misses_maybe isEnding (by decide))

/-! ## Functions and classes -/

theorem optional_name {name : List Kind} (isName : name ∈ maybe (.rule .variableDefinition)) :
    name = [] ∨ ∃ kind, kind.isNode = true ∧ name = [kind] := by
  simp only [List.mem_cons, List.not_mem_nil, or_false] at isName
  exact isName.imp id fun same => ⟨_, rfl, same⟩

theorem function_accepts {rule : Rule} {form : FunctionForm} {modifier star name : List Kind}
    (isModifier : modifier ∈ maybe (contextual .asyncWord)) (isStar : star ∈ maybe (.rule .star))
    (isName : name ∈ maybe (.rule .variableDefinition))
    (yields : ∀ node, Kind.Yields (.rule rule) (.node node)) :
    Take.Accepts (Rebuild.function form) (modifier ++ word .functionWord ::
      (star ++ name ++ [.rule .paramList, .rule .block]))
      fun fragment left => left = [] ∧ Kind.Yields (.rule rule) fragment := by
  rw [List.append_assoc]
  refine eat_maybe isModifier is_fixed rfl fun _ => expect is_fixed (eat_maybe isStar is_star ?_
    fun _ => node?_maybe (optional_name isName) rfl fun _ => list (is_list (.inr (.inl rfl)))
      fun _ => whole rfl fun _ => returns ⟨rfl, yields _⟩)
  refine Take.misses_append ?_ rfl
  simp only [List.mem_cons, List.not_mem_nil, or_false] at isName
  obtain rfl | rfl := isName
  · simp
  · simp [Kind.mayBe]

theorem functionDeclaration_handles (takes : functionDeclaration.Takes kinds) :
    functionDeclaration.Handles kinds := by
  obtain ⟨modifier, isModifier, star, isStar, name, isName, -, rfl⟩ := takes
  exact function_accepts isModifier isStar isName fun node => ⟨node, rfl⟩

theorem functionExpression_handles (takes : functionExpression.Takes kinds) :
    functionExpression.Handles kinds := by
  obtain ⟨modifier, isModifier, star, isStar, name, isName, -, rfl⟩ := takes
  exact function_accepts isModifier isStar isName fun node => ⟨node, rfl⟩

theorem arrowFunction_handles (takes : arrowFunction.Takes kinds) :
    arrowFunction.Handles kinds := by
  obtain ⟨modifier, isModifier, inputs, body, isInput, isBody, rfl⟩ := takes
  have isBody : body.isWhole = true := by
    obtain isExpression | rfl := isBody
    · exact Kind.isWhole_of_isExpression isExpression
    · rfl
  refine eat_maybe isModifier is_fixed ?_ fun _ => Take.Accepts.takes fun fragment yields => ?_
  · obtain rfl | rfl := isInput <;> rfl
  · obtain rfl | rfl := isInput
    · obtain ⟨name, rfl⟩ := yields
      exact bind (returns (expect is_fixed (whole isBody fun _ => returns ⟨rfl, _, rfl⟩)))
    · obtain ⟨params, rfl⟩ := yields
      exact bind (returns (expect is_fixed (whole isBody fun _ => returns ⟨rfl, _, rfl⟩)))

theorem classId_accepts {Value : Type} {post : Value → List Kind → Prop} {name rest : List Kind}
    {next : Option Node → Take Value} (isName : name ∈ maybe (.rule .variableDefinition))
    (behind : (∃ others, rest = .rule .classBody :: others) ∨ Take.noNode rest = true)
    (leads : ∀ found, Take.Accepts (next found) rest post) :
    Take.Accepts (Rebuild.classId >>= next) (name ++ rest) post := by
  simp only [List.mem_cons, List.not_mem_nil, or_false] at isName
  refine bind ?_
  obtain rfl | rfl := isName
  · obtain ⟨others, rfl⟩ | noNode := behind
    · refine peek (by simp) fun _ _ _ same yields => ?_
      cases same
      obtain ⟨body, rfl⟩ := yields
      exact returns (leads none)
    · have missing : Take.Accepts Take.node? rest fun found left =>
          Take.Accepts (next found) left post :=
        last (node?_none noNode (returns (leads none)))
      refine peek (fun atEnd => atEnd ▸ missing) fun kind others fragment same yields => ?_
      subst same
      cases fragment with
      | node node => simp [Take.noNode, yields.isNode_eq] at noNode
      | _ => exact missing
  · refine peek (by simp) fun _ _ _ same yields => ?_
    cases same
    obtain ⟨name, rfl⟩ := yields
    exact last (node?_some rfl fun node => returns (leads (some node)))

theorem class_accepts {rule : Rule} {form : ClassForm} {name heritage : List Kind}
    (isName : name ∈ maybe (.rule .variableDefinition))
    (isHeritage : heritage = [] ∨ ∃ parent, parent.isExpression = true ∧
      heritage = [word .extendsWord, parent])
    (yields : ∀ node, Kind.Yields (.rule rule) (.node node)) :
    Take.Accepts (Rebuild.classDefinition form)
      (word .classWord :: (name ++ heritage ++ [.rule .classBody]))
      fun fragment left => left = [] ∧ Kind.Yields (.rule rule) fragment := by
  rw [List.append_assoc]
  obtain rfl | ⟨parent, isParent, rfl⟩ := isHeritage
  · exact expect is_fixed (classId_accepts isName (.inl ⟨[], rfl⟩) fun _ => pass rfl
      (bind (returns (node rfl fun _ _ => returns ⟨rfl, yields _⟩))))
  · exact expect is_fixed (classId_accepts isName (.inr rfl) fun _ => eat is_fixed
      (bind (expression isParent fun _ => returns (node rfl fun _ _ => returns ⟨rfl, yields _⟩))))

theorem classDeclaration_handles (takes : classDeclaration.Takes kinds) :
    classDeclaration.Handles kinds := by
  obtain ⟨name, isName, -, heritage, isHeritage, rfl⟩ := takes
  exact class_accepts isName isHeritage fun node => ⟨node, rfl⟩

theorem classExpression_handles (takes : classExpression.Takes kinds) :
    classExpression.Handles kinds := by
  obtain ⟨name, isName, -, heritage, isHeritage, rfl⟩ := takes
  exact class_accepts isName isHeritage fun node => ⟨node, rfl⟩

/-! ## Methods and properties -/

section Methods

variable {Value : Type} {post : Value → List Kind → Prop} {key rest : List Kind}

theorem misses_key {spelling : String} (isKey : Key key) (other : ("[" == spelling) = false) :
    Take.misses spelling (key ++ rest) = true := by
  obtain ⟨name, ⟨isName, rfl⟩ | ⟨-, rfl⟩⟩ := isKey
  · exact Take.misses_whole (Kind.isWhole_of_isKey isName)
  · change (!("[" == spelling)) = true
    rw [other]
    rfl

theorem propertyKey_accepts {next : Node × Bool → Take Value} (isKey : Key key)
    (leads : ∀ found, Take.Accepts (next found) rest post) :
    Take.Accepts (Rebuild.propertyKey >>= next) (key ++ rest) post := by
  refine bind ?_
  obtain ⟨name, ⟨isName, rfl⟩ | ⟨isName, rfl⟩⟩ := isKey
  · have isWhole := Kind.isWhole_of_isKey isName
    exact pass (Take.misses_whole isWhole) (whole isWhole fun _ => returns (leads _))
  · exact eat is_fixed (expression isName fun _ => expect is_fixed (returns (leads _)))

/-- The words before a key. -/
theorem modifiers_accepts {words : List Kind} {next : Rebuild.MethodModifiers → Take Value}
    (isModifiers : words ∈ modifiers) (isKey : Key key)
    (leads : ∀ found : Rebuild.MethodModifiers, (words = [] → found.any = false) →
      Take.Accepts (next found) (key ++ rest) post) :
    Take.Accepts (Rebuild.MethodModifiers.take >>= next) (words ++ (key ++ rest)) post := by
  refine bind ?_
  simp only [modifiers, List.mem_cons, List.not_mem_nil, or_false] at isModifiers
  have key (spelling : String) (other : ("[" == spelling) = false) :
      Take.misses spelling (key ++ rest) = true := misses_key isKey other
  obtain rfl | rfl | rfl | rfl | rfl | rfl := isModifiers
  · exact pass (key _ (by decide)) (pass (key _ (by decide)) (pass (key _ (by decide))
      (pass (key _ (by decide)) (returns (leads _ fun _ => rfl)))))
  · exact pass rfl (pass rfl (pass rfl (eat is_star (returns (leads _ nofun)))))
  · exact eat is_fixed (pass (key _ (by decide)) (returns (leads _ nofun)))
  · exact eat is_fixed (eat is_star (returns (leads _ nofun)))
  · exact pass rfl (eat is_fixed (pass (key _ (by decide)) (returns (leads _ nofun))))
  · exact pass rfl (pass rfl (eat is_fixed (pass (key _ (by decide))
      (returns (leads _ nofun)))))

theorem value_accepts {found : Rebuild.MethodModifiers} {next : Node → Take Value}
    (leads : ∀ node, Take.Accepts (next node) rest post) :
    Take.Accepts (found.value >>= next) (.rule .paramList :: .rule .block :: rest) post :=
  bind (list (is_list (.inr (.inl rfl))) fun _ => whole rfl fun _ => returns (leads _))

end Methods

theorem methodDeclaration_handles (takes : methodDeclaration.Takes kinds) :
    methodDeclaration.Handles kinds := by
  obtain ⟨static, isStatic, words, isModifiers, key, isKey, rfl⟩ := takes
  rw [List.append_assoc, List.append_assoc]
  refine eat_maybe isStatic is_fixed ?_ fun _ => modifiers_accepts isModifiers isKey
    fun _ _ => propertyKey_accepts isKey fun _ => value_accepts fun _ => returns ⟨rfl, _, rfl⟩
  simp only [modifiers, List.mem_cons, List.not_mem_nil, or_false] at isModifiers
  obtain rfl | rfl | rfl | rfl | rfl | rfl := isModifiers
  · rw [List.nil_append]
    exact misses_key isKey (by decide)
  all_goals rfl

theorem nextIsList_true {Value : Type} {post : Value → List Kind → Prop} {rest : List Kind}
    {next : Bool → Take Value}
    (leads : Take.Accepts (next true) (.rule .paramList :: rest) post) :
    Take.Accepts (Rebuild.nextIsList >>= next) (.rule .paramList :: rest) post := by
  refine bind (peek nofun fun _ _ _ same yields => ?_)
  cases same
  obtain ⟨nodes, rfl⟩ := yields
  exact returns leads

theorem nextIsList_false {Value : Type} {post : Value → List Kind → Prop}
    {next : Bool → Take Value} (leads : Take.Accepts (next false) [] post) :
    Take.Accepts (Rebuild.nextIsList >>= next) [] post :=
  bind (peek (fun _ => returns leads) fun _ _ _ same => nomatch same)

theorem property_handles (takes : property.Takes kinds) : property.Handles kinds := by
  obtain ⟨words, isModifiers, key, isKey, rfl | ⟨rfl, rfl | ⟨value, isValue, rfl⟩⟩⟩ := takes
  · rw [List.append_assoc]
    refine modifiers_accepts isModifiers isKey fun found _ => propertyKey_accepts isKey
      fun named => pass rfl (nextIsList_true ?_)
    simp only [Bool.or_true, if_true]
    refine value_accepts fun _ => ?_
    cases found.accessor <;> exact returns ⟨rfl, _, rfl⟩
  · rw [← List.append_nil kinds]
    refine modifiers_accepts isModifiers isKey fun found none => propertyKey_accepts isKey
      fun named => pass rfl (nextIsList_false ?_)
    simp only [none rfl, Bool.or_self, Bool.false_eq_true, if_false]
    exact returns ⟨rfl, _, rfl⟩
  · exact modifiers_accepts isModifiers isKey fun _ _ => propertyKey_accepts isKey fun _ =>
      eat is_fixed (expression isValue fun _ => returns ⟨rfl, _, rfl⟩)

/-! ## Operands -/

theorem parenthesizedExpression_handles (takes : parenthesizedExpression.Takes kinds) :
    parenthesizedExpression.Handles kinds := by
  obtain ⟨inner, isInner, rfl⟩ := takes
  exact expect is_fixed (expression isInner fun _ => expect is_fixed (returns ⟨rfl, _, rfl⟩))

theorem spread_handles (takes : spread.Takes kinds) : spread.Handles kinds := by
  obtain ⟨value, isValue, rfl⟩ := takes
  exact expect is_fixed (expression isValue fun _ => returns ⟨rfl, _, rfl⟩)

theorem taggedTemplateExpression_handles (takes : taggedTemplateExpression.Takes kinds) :
    taggedTemplateExpression.Handles kinds := by
  obtain ⟨tag, isTag, rfl⟩ := takes
  exact expression isTag fun _ => whole rfl fun _ => returns ⟨rfl, _, rfl⟩

theorem memberExpression_handles (takes : memberExpression.Takes kinds) :
    memberExpression.Handles kinds := by
  obtain ⟨operand, isOperand, rfl | ⟨key, isKey, rfl⟩⟩ := takes
  · exact expression isOperand fun _ => eat is_fixed (whole rfl fun _ => returns ⟨rfl, _, rfl⟩)
  · exact expression isOperand fun _ => pass rfl (expect is_fixed (expression isKey fun _ =>
      expect is_fixed (returns ⟨rfl, _, rfl⟩)))

theorem callExpression_handles (takes : callExpression.Takes kinds) :
    callExpression.Handles kinds := by
  obtain ⟨callee, isCallee, rfl⟩ := takes
  exact expression isCallee fun _ => list (is_list (.inl rfl)) fun _ => returns ⟨rfl, _, rfl⟩

theorem newExpression_handles (takes : newExpression.Takes kinds) :
    newExpression.Handles kinds := by
  obtain ⟨callee, isCallee, inputs, isInputs, rfl⟩ := takes
  simp only [List.mem_cons, List.not_mem_nil, or_false] at isInputs
  refine expect is_fixed (expression isCallee fun _ => ?_)
  obtain rfl | rfl := isInputs
  · exact peek (fun _ => returns ⟨rfl, _, rfl⟩) fun _ _ _ same => nomatch same
  · exact peek nofun fun _ _ _ _ _ => list (is_list (.inl rfl)) fun _ => returns ⟨rfl, _, rfl⟩

/-! ## Operators -/

theorem operator_token {operator : Kind}
    (isOperator : operator.isOperator = true ∨ operator = .rule .updateOp) (fragment : Fragment)
    (yields : operator.Yields fragment) : ∃ text, fragment = .token text := by
  obtain isOperator | rfl := isOperator
  · unfold Kind.isOperator at isOperator
    split at isOperator
    · exact yields
    · exact yields
    · exact yields
    · exact yields
    · exact ⟨_, yields⟩
    · cases isOperator
  · exact yields.elim (fun same => ⟨_, same⟩) fun same => ⟨_, same⟩

theorem unaryExpression_handles (takes : unaryExpression.Takes kinds) :
    unaryExpression.Handles kinds := by
  obtain ⟨operator, operand, isOperator, isOperand, rfl⟩ := takes
  refine Take.Accepts.takes fun fragment yields => ?_
  obtain ⟨text, rfl⟩ := operator_token isOperator fragment yields
  refine expression isOperand fun _ => ?_
  cases Rebuild.isUpdateOperator text <;> exact returns ⟨rfl, _, rfl⟩

theorem postfixExpression_handles (takes : postfixExpression.Takes kinds) :
    postfixExpression.Handles kinds := by
  obtain ⟨operand, isOperand, rfl⟩ := takes
  refine Take.Accepts.takes fun fragment yields => ?_
  obtain ⟨node, rfl⟩ :=
    yields.isNode (Kind.isNode_of_isWhole (Kind.isWhole_of_isExpression isOperand))
  refine token (operator_token (.inr rfl)) fun text yields => ?_
  have isUpdate : Rebuild.isUpdateOperator text = true := by
    obtain same | same := yields
    all_goals
      cases same
      decide
  simp only [isUpdate, if_true]
  exact returns ⟨rfl, _, rfl⟩

theorem awaitExpression_handles (takes : awaitExpression.Takes kinds) :
    awaitExpression.Handles kinds := by
  obtain ⟨operand, isOperand, rfl⟩ := takes
  exact expect is_fixed (expression isOperand fun _ => returns ⟨rfl, _, rfl⟩)

theorem binaryExpression_handles (takes : binaryExpression.Takes kinds) :
    binaryExpression.Handles kinds := by
  obtain ⟨left, operator, right, isLeft, isOperator, isRight, rfl⟩ := takes
  refine expression isLeft fun _ => token (operator_token (.inl isOperator)) fun text _ =>
    expression isRight fun _ => ?_
  cases Rebuild.isLogicalOperator text <;> exact returns ⟨rfl, _, rfl⟩

theorem conditionalExpression_handles (takes : conditionalExpression.Takes kinds) :
    conditionalExpression.Handles kinds := by
  obtain ⟨test, consequent, alternate, isTest, isConsequent, isAlternate, rfl⟩ := takes
  exact expression isTest fun _ => expect is_fixed (expression isConsequent fun _ => expect is_fixed
    (expression isAlternate fun _ => returns ⟨rfl, _, rfl⟩))

theorem assignmentExpression_handles (takes : assignmentExpression.Takes kinds) :
    assignmentExpression.Handles kinds := by
  obtain ⟨target, operator, value, isTarget, isOperator, isValue, rfl⟩ := takes
  refine expression isTarget fun _ => token (fun fragment yields => ?_) fun _ _ =>
    expression isValue fun _ => returns ⟨rfl, _, rfl⟩
  obtain rfl | rfl := isOperator
  · exact ⟨_, yields⟩
  · exact yields

theorem sequenceExpression_handles (takes : sequenceExpression.Takes kinds) :
    sequenceExpression.Handles kinds := by
  rw [← List.append_nil kinds]
  refine separated (fun part behind isWhole _ => ?_) takes rfl fun _ => returns ⟨rfl, _, rfl⟩
  obtain ⟨kind, isWhole, rfl⟩ := isWhole
  exact last (expression isWhole fun _ => returns rfl)

/-! ## Templates -/

theorem templateParts_accepts {pieces : List (List Kind)} {fuel : Nat}
    {parts : Rebuild.TemplateParts} (isPiece : ∀ part ∈ pieces, Piece part)
    (enough : pieces.length < fuel) :
    Take.Accepts (Rebuild.templateParts fuel parts) (pieces.flatten ++ [sign .backtick])
      fun _ left => left = [] := by
  induction pieces generalizing fuel parts with
  | nil =>
      obtain ⟨fuel, rfl⟩ := Nat.exists_eq_succ_of_ne_zero (Nat.ne_of_gt enough)
      refine Take.Accepts.takes fun fragment yields => ?_
      obtain rfl := yields
      change Take.Accepts (if _ then _ else if _ then _ else _) _ _
      rw [if_neg (by decide), if_pos (by decide)]
      exact returns rfl
  | cons part pieces ih =>
      obtain ⟨fuel, rfl⟩ := Nat.exists_eq_succ_of_ne_zero (Nat.ne_of_gt (Nat.zero_lt_of_lt enough))
      have rest (parts : Rebuild.TemplateParts) := @ih fuel parts
        (fun part member => isPiece part (by simp [member])) (Nat.lt_of_succ_lt_succ enough)
      obtain rfl | ⟨inner, isInner, rfl⟩ := isPiece part (by simp)
      · refine Take.Accepts.takes fun fragment yields => ?_
        obtain ⟨value, isTail, rfl⟩ := yields
        exact rest _
      · refine Take.Accepts.takes fun fragment yields => ?_
        obtain rfl := yields
        change Take.Accepts (if _ then _ else _) _ _
        rw [if_pos (by decide)]
        exact expression isInner fun _ => expect is_fixed (rest _)

theorem templateString_handles (template : Template kinds) : templateString.Handles kinds := by
  obtain ⟨inner, ⟨pieces, isPiece, rfl⟩, rfl⟩ := template
  refine expect is_fixed (get fun arguments yields => bind ?_)
  refine (templateParts_accepts isPiece ?_).mono fun _ _ done => returns ⟨done, _, rfl⟩
  have starts : ∀ part ∈ pieces, Starts "" part := by
    intro part member
    obtain rfl | ⟨inner, isInner, rfl⟩ := isPiece part member
    · exact ⟨_, _, rfl, rfl⟩
    · exact ⟨_, _, rfl, by decide⟩
  have := length_le_flatten starts
  have := yields.length_eq
  rw [List.length_append] at this
  omega

/-- Every rule handles whatever its children can be. -/
theorem Takes.handles {rule : Rule} (takes : rule.Takes kinds) : rule.Handles kinds := by
  cases rule with
  | expressionStatement => exact expressionStatement_handles takes
  | variableDeclaration => exact variableDeclaration_handles takes
  | functionDeclaration => exact functionDeclaration_handles takes
  | classDeclaration => exact classDeclaration_handles takes
  | classBody => exact classBody_handles takes
  | methodDeclaration => exact methodDeclaration_handles takes
  | returnStatement => exact returnStatement_handles takes
  | ifStatement => exact ifStatement_handles takes
  | whileStatement => exact whileStatement_handles takes
  | doStatement => exact doStatement_handles takes
  | forStatement => exact forStatement_handles takes
  | forSpec => exact forSpec_handles takes
  | forInSpec => exact forInSpec_handles takes
  | forOfSpec => exact forOfSpec_handles takes
  | block => exact block_handles takes
  | breakStatement => exact breakStatement_handles takes
  | continueStatement => exact continueStatement_handles takes
  | throwStatement => exact throwStatement_handles takes
  | tryStatement => exact tryStatement_handles takes
  | catchClause => exact catchClause_handles takes
  | finallyClause => exact finallyClause_handles takes
  | switchStatement => exact switchStatement_handles takes
  | switchBody => exact switchBody_handles takes
  | caseLabel => exact caseLabel_handles takes
  | defaultLabel => exact defaultLabel_handles takes
  | labeledStatement => exact labeledStatement_handles takes
  | emptyStatement => exact emptyStatement_handles takes
  | debuggerStatement => exact debuggerStatement_handles takes
  | parenthesizedExpression => exact parenthesizedExpression_handles takes
  | arrayExpression => exact arrayExpression_handles takes
  | objectExpression => exact objectExpression_handles takes
  | property => exact property_handles takes
  | spread => exact spread_handles takes
  | taggedTemplateExpression => exact taggedTemplateExpression_handles takes
  | memberExpression => exact memberExpression_handles takes
  | callExpression => exact callExpression_handles takes
  | argList => exact argList_handles takes
  | newExpression => exact newExpression_handles takes
  | unaryExpression => exact unaryExpression_handles takes
  | postfixExpression => exact postfixExpression_handles takes
  | awaitExpression => exact awaitExpression_handles takes
  | binaryExpression => exact binaryExpression_handles takes
  | conditionalExpression => exact conditionalExpression_handles takes
  | assignmentExpression => exact assignmentExpression_handles takes
  | sequenceExpression => exact sequenceExpression_handles takes
  | arrowFunction => exact arrowFunction_handles takes
  | functionExpression => exact functionExpression_handles takes
  | classExpression => exact classExpression_handles takes
  | paramList => exact paramList_handles takes
  | _ => exact takes.elim

end

/-- A rule that handles some labels succeeds on everything they yield. -/
theorem Handles.process {rule : Rule} {kinds : List Kind} {fragments : List Fragment}
    (handles : rule.Handles kinds) (yields : List.Forall₂ Kind.Yields kinds fragments) :
    ∃ fragment, rule.process fragments = .ok fragment ∧ Kind.Yields (.rule rule) fragment := by
  obtain ⟨fragment, after, left, run, leftYields, rfl, yielded⟩ :=
    handles ⟨rule, 0, fragments⟩ yields
  refine ⟨fragment, ?_, yielded⟩
  have nothing : after.rest = [] := by simpa using leftYields
  obtain ⟨_, _, _⟩ := after
  obtain rfl := nothing
  unfold Rule.process
  change Except.bind ((Rebuild.handler rule) _) _ = _
  rw [run]
  rfl

end Rule

end ScriptTree
