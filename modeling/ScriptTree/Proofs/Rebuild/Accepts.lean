import Mathlib.Data.List.Forall2
import ScriptTree.Proofs.Grammar.Shape
import ScriptTree.Rebuild.Arguments

/-!
# Steps that accept arguments

The fragments below a node are known by the labels of the nodes they came
from.  A step that takes arguments accepts a sequence of labels if it succeeds
on all fragments that these labels can yield.  The rules below compute what
remains of the labels behind each step.
-/

namespace ScriptTree

open Estree

namespace Kind

/-- The fragments that a node with a label can turn into. -/
def Yields (kind : Kind) (fragment : Fragment) : Prop :=
  match kind with
  | .fixed spelling => fragment = .token spelling.text
  | .rule .equals => fragment = .token "="
  | .rule .star => fragment = .token "*"
  | .rule .updateOp => fragment = .token "++" ∨ fragment = .token "--"
  | .rule .arithOp | .rule .compareOp | .rule .logicOp | .rule .bitOp | .rule .assignOp =>
      ∃ text, fragment = .token text
  | .rule .argList | .rule .paramList | .rule .switchBody => ∃ nodes, fragment = .list nodes
  | .rule .forSpec | .rule .forInSpec | .rule .forOfSpec => ∃ head, fragment = .loop head
  | .rule .script => ∃ body form, fragment = .node (.program body form)
  | .rule .classBody => ∃ body, fragment = .node (.classBody body)
  | .rule .catchClause => ∃ param body, fragment = .node (.catchClause param body)
  | .rule .block | .rule .finallyClause => ∃ body, fragment = .node (.blockStatement body)
  | .rule .caseLabel | .rule .defaultLabel =>
      ∃ test consequent, fragment = .node (.switchCase test consequent)
  | .rule .templateContent => ∃ value isTail, fragment = .node (.templateElement value isTail)
  | .rule .variableDefinition => ∃ name, fragment = .node (.identifier name)
  | _ => ∃ node, fragment = .node node

/-- Labels that yield nodes. -/
def isNode : Kind → Bool
  | .rule .classBody | .rule .catchClause | .rule .finallyClause | .rule .caseLabel
  | .rule .defaultLabel | .rule .templateContent | .rule .script => true
  | kind => kind.isWhole

/-- Labels that can yield the given token. -/
def mayBe (spelling : String) : Kind → Bool
  | .fixed given => given.text == spelling
  | .rule .equals => spelling == "="
  | .rule .star => spelling == "*"
  | .rule .updateOp | .rule .arithOp | .rule .compareOp | .rule .logicOp | .rule .bitOp
  | .rule .assignOp => true
  | _ => false

theorem isNode_of_isWhole {kind : Kind} (whole : kind.isWhole = true) : kind.isNode = true := by
  unfold isNode
  split <;> first | rfl | exact whole

theorem mayBe_of_isNode {kind : Kind} (isNode : kind.isNode = true) (spelling : String) :
    kind.mayBe spelling = false := by
  cases kind with
  | fixed given => cases isNode
  | rule given => cases given <;> first | rfl | cases isNode

theorem Yields.isNode {kind : Kind} {fragment : Fragment} (yields : kind.Yields fragment)
    (isNode : kind.isNode = true) : ∃ node, fragment = .node node := by
  cases kind with
  | fixed given => cases isNode
  | rule given =>
      cases given
      all_goals first
        | exact yields
        | exact yields.elim fun _ same => ⟨_, same⟩
        | exact yields.elim fun _ more => more.elim fun _ same => ⟨_, same⟩
        | cases isNode

theorem Yields.isNode_eq {kind : Kind} {node : Node} (yields : kind.Yields (.node node)) :
    kind.isNode = true := by
  cases kind with
  | fixed given => cases yields
  | rule given =>
      cases given
      all_goals first
        | rfl
        | exact yields.elim (fun same => nomatch same) fun same => nomatch same
        | exact yields.elim fun _ same => nomatch same
        | cases yields

theorem Yields.mayBe {kind : Kind} {spelling : String} (yields : kind.Yields (.token spelling)) :
    kind.mayBe spelling = true := by
  cases kind with
  | fixed given => simpa [Kind.mayBe] using (Fragment.token.inj yields).symm
  | rule given =>
      cases given
      all_goals first
        | rfl
        | simpa [Kind.mayBe] using Fragment.token.inj yields
        | exact yields.elim fun _ same => nomatch same

end Kind

namespace Take

variable {Value Other : Type}

/-- A step succeeds on all fragments that some labels can yield, and what it
gives and leaves satisfies a condition. -/
def Accepts (step : Take Value) (kinds : List Kind) (post : Value → List Kind → Prop) : Prop :=
  ∀ arguments : Arguments, List.Forall₂ Kind.Yields kinds arguments.rest →
    ∃ value after left, step arguments = .ok (value, after) ∧
      List.Forall₂ Kind.Yields left after.rest ∧ post value left

/-- The next label cannot yield the given token. -/
def misses (spelling : String) : List Kind → Bool
  | [] => true
  | kind :: _ => !kind.mayBe spelling

theorem misses_whole {kind : Kind} {rest : List Kind} {spelling : String}
    (isWhole : kind.isWhole = true) : misses spelling (kind :: rest) = true := by
  rw [misses, Kind.mayBe_of_isNode (Kind.isNode_of_isWhole isWhole)]
  rfl

theorem misses_append {first second : List Kind} {spelling : String}
    (before : ∀ kind ∈ first, kind.mayBe spelling = false)
    (behind : misses spelling second = true) : misses spelling (first ++ second) = true := by
  cases first with
  | nil => exact behind
  | cons kind rest => simp [misses, before kind (by simp)]

def noNode : List Kind → Bool
  | [] => true
  | kind :: _ => !kind.isNode

section Eat

variable {rule : Rule} {position : Nat} {given : List Fragment} {spelling : String}

theorem run_eat_same :
    eat spelling ⟨rule, position, .token spelling :: given⟩ =
      .ok (true, ⟨rule, position + 1, given⟩) := by
  change (if spelling = spelling then _ else _ : Take Bool) _ = _
  rw [if_pos rfl]
  rfl

theorem run_eat_other {fragment : Fragment} (other : fragment ≠ .token spelling) :
    eat spelling ⟨rule, position, fragment :: given⟩ =
      .ok (false, ⟨rule, position, fragment :: given⟩) := by
  cases fragment with
  | token text =>
      change (if text = spelling then _ else _ : Take Bool) _ = _
      rw [if_neg fun same => other (congrArg Fragment.token same)]
      rfl
  | _ => rfl

end Eat

namespace Accepts

variable {post : Value → List Kind → Prop} {kinds rest : List Kind} {kind : Kind}

theorem bind {step : Take Other} {next : Other → Take Value}
    (accepts : Accepts step kinds fun value left => Accepts (next value) left post) :
    Accepts (step >>= next) kinds post := by
  intro arguments yields
  obtain ⟨value, after, left, run, leftYields, later⟩ := accepts arguments yields
  obtain ⟨final, last, remaining, nextRun, remainingYields, holds⟩ := later after leftYields
  refine ⟨final, last, remaining, ?_, remainingYields, holds⟩
  change (step arguments).bind (fun found => next found.1 found.2) = _
  rw [run]
  exact nextRun

theorem returns {value : Value} (holds : post value kinds) : Accepts (pure value) kinds post :=
  fun _ yields => ⟨value, _, kinds, rfl, yields, holds⟩

theorem mono {step : Take Value} {stronger : Value → List Kind → Prop}
    (accepts : Accepts step kinds stronger)
    (implies : ∀ value left, stronger value left → post value left) : Accepts step kinds post := by
  intro arguments yields
  obtain ⟨value, after, left, run, leftYields, holds⟩ := accepts arguments yields
  exact ⟨value, after, left, run, leftYields, implies _ _ holds⟩

/-- A step at the end goes on with nothing. -/
theorem last {step : Take Value} (accepts : Accepts (step >>= pure) kinds post) :
    Accepts step kinds post := by
  rwa [bind_pure] at accepts

/-- The next fragment is looked at before a step. -/
theorem peek {next : Option Fragment → Take Value}
    (atEnd : kinds = [] → Accepts (next none) [] post)
    (found : ∀ kind rest fragment, kinds = kind :: rest → kind.Yields fragment →
      Accepts (next (some fragment)) kinds post) :
    Accepts (Take.peek >>= next) kinds post := by
  rintro ⟨rule, position, given⟩ yields
  cases yields with
  | nil => exact atEnd rfl _ .nil
  | cons first later => exact found _ _ _ rfl first _ (.cons first later)

/-- The next fragment is taken before a step. -/
theorem takes {next : Option Fragment → Take Value}
    (found : ∀ fragment, kind.Yields fragment → Accepts (next (some fragment)) rest post) :
    Accepts (Take.next >>= next) (kind :: rest) post := by
  rintro ⟨rule, position, given⟩ yields
  cases yields with
  | cons first later => exact found _ first _ later

theorem node {what : String} {next : Node → Take Value} (isNode : kind.isNode = true)
    (leads : ∀ node, kind.Yields (.node node) → Accepts (next node) rest post) :
    Accepts (Take.node what >>= next) (kind :: rest) post := by
  rintro ⟨rule, position, given⟩ yields
  cases yields with
  | cons first later =>
      obtain ⟨node, rfl⟩ := first.isNode isNode
      exact leads node first _ later

theorem whole {what : String} {next : Node → Take Value} (isWhole : kind.isWhole = true)
    (leads : ∀ node, Accepts (next node) rest post) :
    Accepts (Take.node what >>= next) (kind :: rest) post :=
  node (Kind.isNode_of_isWhole isWhole) fun given _ => leads given

theorem expression {what : String} {next : Node → Take Value}
    (isExpression : kind.isExpression = true) (leads : ∀ node, Accepts (next node) rest post) :
    Accepts (Take.node what >>= next) (kind :: rest) post :=
  whole (Kind.isWhole_of_isExpression isExpression) leads

theorem statement {what : String} {next : Node → Take Value}
    (isStatement : kind.isStatement = true) (leads : ∀ node, Accepts (next node) rest post) :
    Accepts (Take.node what >>= next) (kind :: rest) post :=
  whole (Kind.isWhole_of_isStatement isStatement) leads

theorem node?_some {next : Option Node → Take Value} (isNode : kind.isNode = true)
    (leads : ∀ node, Accepts (next (some node)) rest post) :
    Accepts (Take.node? >>= next) (kind :: rest) post := by
  rintro ⟨rule, position, given⟩ yields
  cases yields with
  | cons first later =>
      obtain ⟨node, rfl⟩ := first.isNode isNode
      exact leads node _ later

theorem node?_none {next : Option Node → Take Value} (behind : noNode kinds = true)
    (leads : Accepts (next none) kinds post) : Accepts (Take.node? >>= next) kinds post := by
  rintro ⟨rule, position, given⟩ yields
  cases yields with
  | nil => exact leads _ .nil
  | @cons kind fragment _ _ first later =>
      cases fragment with
      | node node => simp [noNode, first.isNode_eq] at behind
      | _ => exact leads _ (.cons first later)

/-- A node that may be missing. -/
theorem node?_maybe {what : List Kind} {next : Option Node → Take Value}
    (isNode : what = [] ∨ ∃ kind, kind.isNode = true ∧ what = [kind])
    (behind : noNode rest = true) (leads : ∀ found, Accepts (next found) rest post) :
    Accepts (Take.node? >>= next) (what ++ rest) post := by
  obtain rfl | ⟨kind, isNode, rfl⟩ := isNode
  · exact node?_none behind (leads none)
  · exact node?_some isNode fun node => leads (some node)

theorem token {what : String} {next : String → Take Value}
    (isToken : ∀ fragment, kind.Yields fragment → ∃ text, fragment = .token text)
    (leads : ∀ text, kind.Yields (.token text) → Accepts (next text) rest post) :
    Accepts (Take.token what >>= next) (kind :: rest) post := by
  rintro ⟨rule, position, given⟩ yields
  cases yields with
  | cons first later =>
      obtain ⟨text, rfl⟩ := isToken _ first
      exact leads text first _ later

theorem list {what : String} {next : List Node → Take Value}
    (isList : ∀ fragment, kind.Yields fragment → ∃ nodes, fragment = .list nodes)
    (leads : ∀ nodes, Accepts (next nodes) rest post) :
    Accepts (Take.list what >>= next) (kind :: rest) post := by
  rintro ⟨rule, position, given⟩ yields
  cases yields with
  | cons first later =>
      obtain ⟨nodes, rfl⟩ := isList _ first
      exact leads nodes _ later

theorem loopHead {next : LoopHead → Take Value}
    (isLoop : ∀ fragment, kind.Yields fragment → ∃ head, fragment = .loop head)
    (leads : ∀ head, Accepts (next head) rest post) :
    Accepts (Take.loopHead >>= next) (kind :: rest) post := by
  rintro ⟨rule, position, given⟩ yields
  cases yields with
  | cons first later =>
      obtain ⟨head, rfl⟩ := isLoop _ first
      exact leads head _ later

theorem eat {spelling : String} {next : Bool → Take Value}
    (same : ∀ fragment, kind.Yields fragment → fragment = .token spelling)
    (leads : Accepts (next true) rest post) :
    Accepts (Take.eat spelling >>= next) (kind :: rest) post := by
  refine bind ?_
  rintro ⟨rule, position, given⟩ yields
  cases yields with
  | cons first later =>
      obtain rfl := same _ first
      exact ⟨true, _, rest, run_eat_same, later, leads⟩

theorem pass {spelling : String} {next : Bool → Take Value}
    (other : misses spelling kinds = true) (leads : Accepts (next false) kinds post) :
    Accepts (Take.eat spelling >>= next) kinds post := by
  refine bind ?_
  rintro ⟨rule, position, given⟩ yields
  cases yields with
  | nil => exact ⟨false, _, [], rfl, .nil, leads⟩
  | cons first later =>
      refine ⟨false, _, _, run_eat_other ?_, .cons first later, leads⟩
      rintro rfl
      simp [misses, first.mayBe] at other

/-- A token that may be missing. -/
theorem eat_maybe {spelling : String} {next : Bool → Take Value} {present : List Kind}
    (isPresent : present ∈ Shape.maybe kind)
    (same : ∀ fragment, kind.Yields fragment → fragment = .token spelling)
    (other : misses spelling rest = true) (leads : ∀ found, Accepts (next found) rest post) :
    Accepts (Take.eat spelling >>= next) (present ++ rest) post := by
  simp only [List.mem_cons, List.not_mem_nil, or_false] at isPresent
  obtain rfl | rfl := isPresent
  · exact pass other (leads false)
  · exact eat same (leads true)

/-- A token at the end that may be missing. -/
theorem eat_last {spelling : String} {next : Bool → Take Value} {present : List Kind}
    (isPresent : present ∈ Shape.maybe kind)
    (same : ∀ fragment, kind.Yields fragment → fragment = .token spelling)
    (leads : ∀ found, Accepts (next found) [] post) :
    Accepts (Take.eat spelling >>= next) present post := by
  rw [← List.append_nil present]
  exact eat_maybe isPresent same rfl leads

theorem expect {spelling : String} {next : Unit → Take Value}
    (same : ∀ fragment, kind.Yields fragment → fragment = .token spelling)
    (leads : Accepts (next ()) rest post) :
    Accepts (Take.expect spelling >>= next) (kind :: rest) post := by
  refine bind ?_
  unfold Take.expect
  exact eat same (returns leads)

/-! ## Loops -/

theorem get {next : Arguments → Take Value}
    (leads : ∀ arguments : Arguments, List.Forall₂ Kind.Yields kinds arguments.rest →
      Accepts (next arguments) kinds post) :
    Accepts (MonadStateOf.get >>= next) kinds post :=
  fun arguments yields => leads arguments yields arguments yields

/-- The first label of a part, which cannot be that of a closing token. -/
def Starts (closing : String) (part : List Kind) : Prop :=
  ∃ first others, part = first :: others ∧ first.mayBe closing = false

theorem roundsUntil {closing : String} {final : Kind} {later : List Kind}
    {round : Value → Take Value} {pieces : List (List Kind)} {fuel : Nat} {start : Value}
    (invariant : List (List Kind) → Value → Prop)
    (same : ∀ fragment, final.Yields fragment → fragment = .token closing)
    (starts : ∀ part ∈ pieces, Starts closing part)
    (rounds : ∀ part pieces value, invariant (part :: pieces) value →
      Accepts (round value) (part ++ (pieces.flatten ++ final :: later)) fun value left =>
        left = pieces.flatten ++ final :: later ∧ invariant pieces value)
    (begins : invariant pieces start) (enough : pieces.length ≤ fuel) :
    Accepts (Take.roundsUntil closing round fuel start) (pieces.flatten ++ final :: later)
      fun value left => left = later ∧ invariant [] value := by
  induction pieces generalizing fuel start with
  | nil =>
      cases fuel with
      | zero => exact expect same (returns ⟨rfl, begins⟩)
      | succ fuel => exact eat same (returns ⟨rfl, begins⟩)
  | cons part pieces ih =>
      cases fuel with
      | zero => cases enough
      | succ fuel =>
          obtain ⟨first, others, rfl, other⟩ := starts part (by simp)
          refine pass (by simp [misses, other]) (bind ?_)
          have accepts := rounds _ _ _ begins
          rw [← List.append_assoc] at accepts
          refine accepts.mono ?_
          rintro value - ⟨rfl, holds⟩
          exact ih (fun part member => starts part (by simp [member])) holds
            (Nat.le_of_succ_le_succ enough)

theorem length_le_flatten {closing : String} {pieces : List (List Kind)}
    (starts : ∀ part ∈ pieces, Starts closing part) : pieces.length ≤ pieces.flatten.length := by
  induction pieces with
  | nil => simp
  | cons part pieces ih =>
      obtain ⟨first, others, rfl, -⟩ := starts part (by simp)
      have := ih fun part member => starts part (by simp [member])
      simp only [List.length_cons, List.flatten_cons, List.length_append]
      omega

theorem untilToken {closing : String} {final : Kind} {later : List Kind}
    {round : Other → Take Other} {pieces : List (List Kind)} {start : Other}
    {next : Other → Take Value} (invariant : List (List Kind) → Other → Prop)
    (same : ∀ fragment, final.Yields fragment → fragment = .token closing)
    (starts : ∀ part ∈ pieces, Starts closing part)
    (rounds : ∀ part pieces value, invariant (part :: pieces) value →
      Accepts (round value) (part ++ (pieces.flatten ++ final :: later)) fun value left =>
        left = pieces.flatten ++ final :: later ∧ invariant pieces value)
    (begins : invariant pieces start)
    (leads : ∀ value, invariant [] value → Accepts (next value) later post) :
    Accepts (Take.untilToken closing start round >>= next) (pieces.flatten ++ final :: later)
      post := by
  refine bind (get fun arguments yields => ?_)
  refine (roundsUntil invariant same starts rounds begins ?_).mono ?_
  · have := length_le_flatten starts
    have := yields.length_eq
    rw [List.length_append] at this
    omega
  · intro value left holds
    rw [holds.1]
    exact leads value holds.2

/-- The label behind a part: that of the closing token, or the first of
another part. -/
def Behind (item : Shape.Language) (final : Kind) (behind : List Kind) : Prop :=
  ∃ first rest, behind = first :: rest ∧ (first = final ∨ ∃ others, item (first :: others))

theorem behind_flatten {closing : String} {item : Shape.Language} {final : Kind}
    {pieces : List (List Kind)} {later : List Kind}
    (starts : ∀ part, item part → Starts closing part)
    (items : ∀ part ∈ pieces, item part) :
    Behind item final (pieces.flatten ++ final :: later) := by
  cases pieces with
  | nil => exact ⟨final, later, rfl, .inl rfl⟩
  | cons part pieces =>
      have isItem := items part (by simp)
      obtain ⟨first, others, rfl, -⟩ := starts part isItem
      exact ⟨first, _, rfl, .inr ⟨others, isItem⟩⟩

/-- Rounds that each take one part, whatever was taken before. -/
theorem manyUntil {item : Shape.Language} {closing : String} {final : Kind}
    {inner later : List Kind} {round : Other → Take Other} {start : Other}
    {next : Other → Take Value} (many : Shape.Many item inner)
    (same : ∀ fragment, final.Yields fragment → fragment = .token closing)
    (starts : ∀ part, item part → Starts closing part)
    (rounds : ∀ part value behind, item part → Behind item final behind →
      Accepts (round value) (part ++ behind) fun _ left => left = behind)
    (leads : ∀ value, Accepts (next value) later post) :
    Accepts (Take.untilToken closing start round >>= next) (inner ++ final :: later) post := by
  obtain ⟨pieces, items, rfl⟩ := many
  refine untilToken (fun pieces _ => ∀ part ∈ pieces, item part) same
    (fun part member => starts part (items part member)) ?_ items fun value _ => leads value
  intro part pieces value items
  have itemsBehind : ∀ part ∈ pieces, item part := fun part member => items part (by simp [member])
  exact (rounds part value _ (items part (by simp)) (behind_flatten starts itemsBehind)).mono
    fun _ _ same => ⟨same, itemsBehind⟩

theorem starts_one {closing : String} {sort : Kind → Bool} {part : List Kind}
    (wholes : ∀ kind, sort kind = true → kind.isWhole = true) (one : Shape.One sort part) :
    Starts closing part := by
  obtain ⟨kind, isSort, rfl⟩ := one
  exact ⟨kind, [], rfl, Kind.mayBe_of_isNode (Kind.isNode_of_isWhole (wholes kind isSort)) closing⟩

/-- What can follow an item of a list: a comma, or what is behind the list. -/
def Follows (later behind : List Kind) : Prop :=
  behind = later ∨ ∃ rest, behind = Shape.sign .comma :: rest

def commaBefore (pieces : List (List Kind)) : List Kind :=
  (pieces.map fun part => Shape.sign .comma :: part).flatten

theorem follows_commaBefore (pieces : List (List Kind)) (later : List Kind) :
    Follows later (commaBefore pieces ++ later) := by
  cases pieces with
  | nil => exact .inl rfl
  | cons part pieces => exact .inr ⟨_, rfl⟩

theorem length_le_commaBefore (pieces : List (List Kind)) :
    pieces.length ≤ (commaBefore pieces).length := by
  induction pieces with
  | nil => exact Nat.le_refl 0
  | cons part pieces ih =>
      simp only [commaBefore, List.map_cons, List.flatten_cons, List.length_append,
        List.length_cons] at ih ⊢
      omega

/-- Separated words start with one of them, and commas follow. -/
theorem separated_pieces {item : Shape.Language} {inner : List Kind}
    (separated : Shape.Separated item inner) :
    ∃ first pieces, item first ∧ (∀ part ∈ pieces, item part) ∧
      inner = first ++ commaBefore pieces := by
  obtain ⟨earlier, last, ⟨parts, isPart, rfl⟩, isLast, rfl⟩ := separated
  induction parts with
  | nil => exact ⟨last, [], isLast, by simp, by simp [commaBefore]⟩
  | cons part parts ih =>
      obtain ⟨kept, isKept, rfl⟩ := isPart part (by simp)
      obtain ⟨first, pieces, isFirst, items, same⟩ := ih fun part member =>
        isPart part (by simp [member])
      refine ⟨kept, first :: pieces, isKept, ?_, ?_⟩
      · simpa using ⟨isFirst, items⟩
      · simpa [commaBefore] using same

section Separated

variable {item : Take Node} {language : Shape.Language} {later : List Kind}
  {next : List Node → Take Value}

theorem itemsAfter {pieces : List (List Kind)} {fuel : Nat} {items : Array Node}
    (accepts : ∀ part behind, language part → Follows later behind →
      Accepts item (part ++ behind) fun _ left => left = behind)
    (isItem : ∀ part ∈ pieces, language part) (other : misses "," later = true)
    (enough : pieces.length ≤ fuel) (leads : ∀ nodes, Accepts (next nodes) later post) :
    Accepts (Take.itemsAfter item fuel items >>= next) (commaBefore pieces ++ later) post := by
  refine bind ?_
  induction pieces generalizing fuel items with
  | nil =>
      cases fuel with
      | zero => exact returns (leads _)
      | succ fuel => exact pass other (returns (leads _))
  | cons part pieces ih =>
      cases fuel with
      | zero => cases enough
      | succ fuel =>
          have first := accepts part _ (isItem part (by simp)) (follows_commaBefore pieces later)
          rw [← List.append_assoc] at first
          refine eat (fun _ yields => yields) (bind (first.mono ?_))
          rintro node - rfl
          exact ih (fun part member => isItem part (by simp [member]))
            (Nat.le_of_succ_le_succ enough)

/-- One or more items with commas between them. -/
theorem separated {inner : List Kind}
    (accepts : ∀ part behind, language part → Follows later behind →
      Accepts item (part ++ behind) fun _ left => left = behind)
    (isSeparated : Shape.Separated language inner) (other : misses "," later = true)
    (leads : ∀ nodes, Accepts (next nodes) later post) :
    Accepts (Take.separated item >>= next) (inner ++ later) post := by
  obtain ⟨first, pieces, isFirst, items, rfl⟩ := separated_pieces isSeparated
  have start := accepts first _ isFirst (follows_commaBefore pieces later)
  rw [← List.append_assoc] at start
  refine bind (bind (start.mono ?_))
  rintro node - rfl
  refine get fun arguments yields => last (itemsAfter accepts items other ?_ fun nodes =>
    returns (leads nodes))
  have := length_le_commaBefore pieces
  have := yields.length_eq
  rw [List.length_append] at this
  omega

end Separated

/-- Nodes and separators up to a closing token. -/
theorem nodesUntil {closing separator what : String} {final between : Kind}
    {inner later : List Kind} {next : List Node → Take Value}
    {sort : Kind → Bool} (many : Shape.Many (Shape.OneOr sort between) inner)
    (wholes : ∀ kind, sort kind = true → kind.isWhole = true)
    (same : ∀ fragment, final.Yields fragment → fragment = .token closing)
    (separates : ∀ fragment, between.Yields fragment → fragment = .token separator)
    (other : between.mayBe closing = false)
    (leads : ∀ nodes, Accepts (next nodes) later post) :
    Accepts (Take.nodesUntil closing separator what >>= next) (inner ++ final :: later) post := by
  refine bind (manyUntil many same ?_ ?_ fun nodes => returns (leads _))
  · rintro part (one | rfl)
    · exact starts_one wholes one
    · exact ⟨between, [], rfl, other⟩
  · rintro part nodes behind (⟨kind, isSort, rfl⟩ | rfl) -
    · have isWhole := wholes kind isSort
      exact pass (misses_whole isWhole) (whole isWhole fun _ => returns rfl)
    · exact eat separates (returns rfl)

end Accepts

end Take

end ScriptTree
