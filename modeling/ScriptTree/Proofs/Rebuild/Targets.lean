import ScriptTree.Proofs.Rebuild.Becomes

/-!
# What is assigned to can be assigned to

The reader tests targets of assignments as trees, through any number of
parentheses.  Once a text is rebuilt the parentheses are gone, and every target
is a variable or a member.
-/

namespace ScriptTree

open Estree

namespace Estree.Node

/-- Names that denote values, which nothing can be assigned to. -/
def valueNames : List String :=
  ["this", "super", "true", "false", "null"]

/-- A variable that does not denote a fixed value, or a member. -/
inductive IsTarget : Node → Prop
  | variable {name : String} (free : name ∉ valueNames) : IsTarget (.identifier name)
  | member (object property : Node) (isComputed isOptional : Bool) :
      IsTarget (.memberExpression object property isComputed isOptional)

/-- What a loop over keys or values assigns to: a declaration of one name
without a value, or a target. -/
inductive IsLoopTarget : Node → Prop
  | declared (id : Node) (kind : VariableKind) :
      IsLoopTarget (.variableDeclaration [.variableDeclarator id none] kind)
  | plain {node : Node} (isTarget : IsTarget node) : IsLoopTarget node

/-- What a node assigns to can be assigned to. -/
def AssignsTargets : Node → Prop
  | .assignmentExpression _ left _ => IsTarget left
  | .updateExpression _ _ argument => IsTarget argument
  | .forInStatement left _ _ | .forOfStatement _ left _ _ => IsLoopTarget left
  | _ => True

end Estree.Node

open Estree Node Rebuild Take
open Fragment (nodesOf)

/-! ## Targets -/

section Targets

variable {source : Text} {limit : Option Nat}

theorem namedValue?_free {name : Text} (free : Grammar.valueNames.contains name = false) :
    namedValue? (String.ofList name) = none ∧ String.ofList name ∉ valueNames := by
  have other (word : String) (isWord : word ∈ valueNames) : String.ofList name ≠ word := by
    rintro rfl
    have listed : ∀ word ∈ valueNames, Grammar.valueNames.contains word.toList = true := by decide
    have same := listed _ isWord
    rw [String.toList_ofList] at same
    rw [same] at free
    cases free
  refine ⟨?_, fun isIn => other _ isIn rfl⟩
  unfold namedValue?
  simp [other "true" (by decide), other "false" (by decide), other "null" (by decide),
    other "this" (by decide), other "super" (by decide)]

theorem member_becomes {given : List Fragment} {fragment : Fragment}
    (builds : Rule.memberExpression.Builds given fragment) :
    ∃ node, fragment = .node node ∧ node.IsTarget := by
  cases builds with
  | member object property => exact ⟨_, rfl, .member object property false false⟩
  | computedMember object property => exact ⟨_, rfl, .member object property true false⟩
  | name isRule | literal isRule | operator isRule => simp at isRule
  | unaryUpdate isUnary | unary isUnary | updateAfter isUnary => simp at isUnary

theorem variable_becomes {text : Text} {fragment : Fragment}
    (free : Grammar.valueNames.contains text = false)
    (builds : Rule.variableName.Builds [.token (String.ofList text)] fragment) :
    ∃ node, fragment = .node node ∧ node.IsTarget := by
  obtain ⟨unnamed, isFree⟩ := namedValue?_free free
  cases builds with
  | variableName =>
      rw [unnamed]
      exact ⟨_, rfl, .variable isFree⟩
  | name isRule | literal isRule | operator isRule => simp at isRule

/-- A tree that can be assigned to becomes a target. -/
theorem assignable_becomes {tree : SyntaxTree} {fragment : Fragment}
    (assigns : Grammar.isAssignable source tree = true) (shaped : tree.Every Grammar.Shaped)
    (becomes : Becomes source limit tree fragment) :
    ∃ node, fragment = .node node ∧ node.IsTarget := by
  induction tree using Tree.induct generalizing fragment with
  | node label span children ih =>
      unfold Grammar.isAssignable at assigns
      split at assigns
      case h_1 same =>
        cases same
        obtain ⟨text, rfl, covers, builds⟩ | ⟨given, nonempty, -, -⟩ := becomes.builds
        · rw [covers] at assigns
          exact variable_becomes (by simpa using assigns) builds
        · obtain ⟨isLeaf, -⟩ | ⟨other, -⟩ | takes := shaped.here
          · exact absurd isLeaf nonempty
          · cases other
          · cases takes
      case h_2 same =>
        cases same
        obtain ⟨_, -, -, builds⟩ | ⟨_, -, -, builds⟩ := becomes.builds
        · exact member_becomes builds
        · exact member_becomes builds
      case h_3 first inner rest same =>
        cases same
        obtain ⟨_, isLeaf, -⟩ | ⟨given, -, each, builds⟩ := becomes.builds
        · cases isLeaf
        · cases builds with
          | parenthesizedExpression found =>
              have isInner : inner ∈ first :: inner :: rest := by simp
              have innerBecomes := (List.forall₂_cons.mp (List.forall₂_cons.mp each).2).1
              exact ih inner isInner assigns (shaped.of_child inner isInner) innerBecomes
          | name isRule | literal isRule | operator isRule => simp at isRule
          | unaryUpdate isUnary | unary isUnary | updateAfter isUnary => simp at isUnary
      case h_4 => cases assigns

end Targets

/-! ## What the rules assign to -/

/-- The head of a loop over keys or values assigns to its left side. -/
def LoopHead.AssignsTarget : LoopHead → Prop
  | .counting .. => True
  | .overKeys left _ | .overValues left _ => left.IsLoopTarget

section Rules

open Grammar (Passes)

variable {source : Text} {limit : Option Nat} {rule : Rule} {children : List SyntaxTree}
  {given : List Fragment} {head : LoopHead}

theorem update_text {operator : String} {text : Text} (isUpdate : isUpdateOperator operator = true)
    (same : operator = String.ofList text) :
    text = Punctuator.increment.chars ∨ text = Punctuator.decrement.chars := by
  rw [isUpdateOperator, Bool.or_eq_true, beq_iff_eq, beq_iff_eq] at isUpdate
  refine isUpdate.imp (fun isSign => ?_) fun isSign => ?_
  all_goals
    rw [same] at isSign
    exact String.ofList_injective isSign

theorem assignment_target {operator : String} {left right : Node}
    (passes : Passes source children .assignmentExpression)
    (shaped : ∀ child ∈ children, child.Every Grammar.Shaped)
    (each : List.Forall₂ (Becomes source limit) children
      [.node left, .token operator, .node right]) : left.IsTarget := by
  obtain ⟨earlier, target, sign, value, rfl, assigns⟩ := passes
  rw [List.append_cons, List.append_cons (earlier ++ _)] at each
  change List.Forall₂ _ _ ([] ++ [_] ++ [_] ++ [_]) at each
  rw [forall₂_snoc, forall₂_snoc, forall₂_snoc] at each
  obtain ⟨node, same, isTarget⟩ := assignable_becomes assigns (shaped target (by simp)) each.1.1.2
  cases same
  exact isTarget

theorem prefix_target {operator : String} {argument : Node}
    (isUpdate : isUpdateOperator operator = true) (passes : Passes source children .unaryExpression)
    (shaped : ∀ child ∈ children, child.Every Grammar.Shaped)
    (each : List.Forall₂ (Becomes source limit) children [.token operator, .node argument]) :
    argument.IsTarget := by
  obtain ⟨earlier, sign, operand, text, rfl, isLeaf, covers, assigns⟩ := passes
  rw [List.append_cons] at each
  change List.Forall₂ _ _ ([] ++ [_] ++ [_]) at each
  rw [forall₂_snoc, forall₂_snoc] at each
  obtain ⟨⟨-, isSign⟩, isOperand⟩ := each
  have isAssigned := assigns (update_text isUpdate (isSign.token_leaf isLeaf covers))
  obtain ⟨node, same, isTarget⟩ :=
    assignable_becomes isAssigned (shaped operand (by simp)) isOperand
  cases same
  exact isTarget

theorem postfix_target {operator : Fragment} {argument : Node}
    (passes : Passes source children .postfixExpression)
    (shaped : ∀ child ∈ children, child.Every Grammar.Shaped)
    (each : List.Forall₂ (Becomes source limit) children [.node argument, operator]) :
    argument.IsTarget := by
  obtain ⟨earlier, operand, sign, rfl, assigns⟩ := passes
  rw [List.append_cons] at each
  change List.Forall₂ _ _ ([] ++ [_] ++ [_]) at each
  rw [forall₂_snoc, forall₂_snoc] at each
  obtain ⟨node, same, isTarget⟩ := assignable_becomes assigns (shaped operand (by simp)) each.1.2
  cases same
  exact isTarget

/-- A tree on its own in the head of a loop over keys or values is an
expression. -/
theorem loop_expression {earlier : List SyntaxTree} {target word subject closing : SyntaxTree}
    (isHead : rule = .forInSpec ∨ rule = .forOfSpec)
    (takes : rule.Takes ((earlier ++ [target, word, subject, closing]).map Tree.label))
    (single : earlier.length = 1) : target.label.isExpression = true := by
  obtain ⟨opening, rfl⟩ := List.length_eq_one_iff.mp single
  rcases isHead with rfl | rfl
  all_goals
    obtain ⟨part, _, -, ⟨kind, isExpression, rfl⟩ | ⟨keyword, -, rfl⟩, same⟩ := takes
    · have label : target.label = kind := by simp_all
      rwa [label]
    · simp at same

/-- The left side of a head over keys or values. -/
theorem loop_target {opening word closing : Fragment} {target : List Fragment} {left right : Node}
    (isHead : rule = .forInSpec ∨ rule = .forOfSpec) (takes : rule.Takes (children.map Tree.label))
    (passes : Passes source children rule) (shaped : ∀ child ∈ children, child.Every Grammar.Shaped)
    (isTarget : TargetOf target left)
    (each : List.Forall₂ (Becomes source limit) children
      (opening :: target ++ [word, .node right, closing])) : left.IsLoopTarget := by
  cases isTarget with
  | declared isKeyword id => exact .declared id _
  | plain =>
      have passed : ∃ earlier target word subject closing,
          children = earlier ++ [target, word, subject, closing] ∧
            (target.label = .rule .variableDefinition ∨
              Grammar.isAssignable source target = true) := by
        rcases isHead with rfl | rfl <;> exact passes
      obtain ⟨earlier, tree, _, _, _, rfl, bound⟩ := passed
      have single : earlier.length = 1 := by simpa using each.length_eq
      rw [List.append_cons, List.append_cons (earlier ++ _), List.append_cons (earlier ++ _ ++ _)]
        at each
      change List.Forall₂ _ _ ([_] ++ [_] ++ [_] ++ [_] ++ [_]) at each
      rw [forall₂_snoc, forall₂_snoc, forall₂_snoc, forall₂_snoc] at each
      rcases bound with isName | assigns
      · have isExpression := loop_expression isHead takes single
        rw [isName] at isExpression
        cases isExpression
      · obtain ⟨node, same, isTarget⟩ :=
          assignable_becomes assigns (shaped tree (by simp)) each.1.1.1.2
        cases same
        exact .plain isTarget

/-- What a node assigns to that a rule builds. -/
theorem targets_of_builds {node : Node} (takes : rule.Takes (children.map Tree.label))
    (passes : Passes source children rule) (shaped : ∀ child ∈ children, child.Every Grammar.Shaped)
    (each : List.Forall₂ (Becomes source limit) children given)
    (fits : List.Forall₂ Kind.Fits (children.map Tree.label) given)
    (heads : ∀ head, .loop head ∈ given → head.AssignsTarget)
    (all : ∀ node ∈ nodesOf given, node.Every AssignsTargets)
    (builds : rule.Builds given (.node node)) : node.AssignsTargets := by
  generalize made : Fragment.node node = built at builds
  cases builds with
  | assignmentExpression left operator right =>
      cases made
      exact assignment_target passes shaped each
  | unaryUpdate isUnary isUpdate argument =>
      cases made
      rcases isUnary with rfl | rfl
      · exact prefix_target isUpdate passes shaped each
      · exact (operand_not_after takes fits).elim
  | updateAfter isUnary isUpdate argument =>
      cases made
      rcases isUnary with rfl | rfl
      · obtain ⟨_, operand, -, isExpression, kinds⟩ := takes
        rw [kinds] at fits
        simp only [List.forall₂_cons] at fits
        exact absurd fits.2.1 (Kind.Fits.not_token (isNode_of_isExpression isExpression))
      · exact postfix_target passes shaped each
  | forStatement head body =>
      cases made
      have isHead := heads head (by simp)
      cases head with
      | counting => trivial
      | overKeys left right => exact isHead
      | overValues left right => exact isHead
  | parenthesizedExpression | finallyClause =>
      cases made
      exact (all node (by simp)).here
  | variableName text =>
      cases made
      unfold namedValue?
      split_ifs <;> trivial
  | _ => cases made <;> trivial

theorem heads_of_builds {head : LoopHead} (takes : rule.Takes (children.map Tree.label))
    (passes : Passes source children rule) (shaped : ∀ child ∈ children, child.Every Grammar.Shaped)
    (each : List.Forall₂ (Becomes source limit) children given)
    (builds : rule.Builds given (.loop head)) : head.AssignsTarget := by
  cases builds with
  | forSpec => trivial
  | forInSpec isTarget right => exact loop_target (.inl rfl) takes passes shaped isTarget each
  | forOfSpec isTarget right => exact loop_target (.inr rfl) takes passes shaped isTarget each

theorem targets_of_token {text : String} {node : Node}
    (builds : rule.Builds [.token text] (.node node)) : node.AssignsTargets := by
  generalize same : [Fragment.token text] = given at builds
  generalize made : Fragment.node node = built at builds
  cases builds with
  | assignmentExpression | unaryUpdate | updateAfter | forStatement | parenthesizedExpression
  | finallyClause => simp at same
  | variableName text =>
      cases made
      unfold namedValue?
      split_ifs <;> trivial
  | _ => cases made <;> trivial

theorem heads_of_token {text : String} {head : LoopHead}
    (builds : rule.Builds [.token text] (.loop head)) : head.AssignsTarget := by
  generalize same : [Fragment.token text] = given at builds
  cases builds with
  | forSpec | forInSpec | forOfSpec => simp at same

theorem targets_of_isInner {node : Node} (inner : isInner node = true) : node.AssignsTargets := by
  cases node <;> trivial

theorem targets_of_template {node : Node}
    (builds : Rule.templateString.Builds given (.node node)) : node.AssignsTargets := by
  cases builds with
  | templateString => trivial
  | name isRule | literal isRule => simp at isRule
  | unaryUpdate isUnary | unary isUnary | updateAfter isUnary => simp at isUnary

end Rules

/-! ## Trees -/

section Trees

variable {source : Text} {limit : Option Nat}

/-- A fragment assigns to targets only. -/
structure Fragment.Aims (fragment : Fragment) : Prop where
  nodes : ∀ node ∈ fragment.nodes, node.Every AssignsTargets
  head : ∀ head, fragment = .loop head → head.AssignsTarget

theorem nodes_aim {given : List Fragment} (aims : ∀ fragment ∈ given, fragment.Aims) :
    ∀ node ∈ nodesOf given, node.Every AssignsTargets := by
  intro node isIn
  obtain ⟨fragment, isGiven, inFragment⟩ := List.mem_flatMap.mp isIn
  exact (aims fragment isGiven).nodes node inFragment

/-- Whatever a tree becomes assigns to targets only. -/
theorem Becomes.aims {tree : SyntaxTree} {fragment : Fragment} (vetted : Vetted source tree)
    (becomes : Becomes source limit tree fragment) : fragment.Aims := by
  induction tree using Tree.induct generalizing fragment with
  | node label span children ih =>
      cases label with
      | fixed spelling =>
          rw [becomes.token_of_fixed]
          exact ⟨by simp, nofun⟩
      | rule rule =>
          obtain ⟨text, rfl, covers, builds⟩ | ⟨given, nonempty, each, builds⟩ := becomes.builds
          · refine ⟨builds.every (by simp) (fun _ inner _ => targets_of_isInner inner) ?_
              fun _ => trivial, ?_⟩
            · rintro node rfl -
              exact targets_of_token builds
            · rintro head rfl
              exact heads_of_token builds
          · have below := forall_becomes each fun child isChild _ =>
              ih child isChild (vetted.of_child child isChild)
            have all := nodes_aim below
            have every := builds.every all (fun _ inner _ => targets_of_isInner inner)
            have passes := vetted.checked.here rule rfl nonempty
            have fits := becomes_fit vetted.of_child each
            obtain ⟨isLeaf, -⟩ | ⟨rfl, -⟩ | takes := vetted.shaped.here
            · exact absurd isLeaf nonempty
            · refine ⟨every ?_ fun _ => trivial, ?_⟩
              · rintro node rfl -
                exact targets_of_template builds
              · rintro head rfl
                cases builds
            · refine ⟨every ?_ fun _ => trivial, ?_⟩
              · rintro node rfl -
                exact targets_of_builds takes passes vetted.shaped.of_child each fits
                  (fun head isHead => (below _ isHead).head head rfl) all builds
              · rintro head rfl
                exact heads_of_builds takes passes vetted.shaped.of_child each builds

theorem targets_of_script {given : List Fragment} {node : Node}
    (builds : Rule.script.Builds given (.node node)) : node.AssignsTargets := by
  cases builds with
  | emptyScript | script => trivial
  | name isRule | literal isRule => simp at isRule
  | unaryUpdate isUnary | unary isUnary | updateAfter isUnary => simp at isUnary

end Trees

/-- Whatever a rebuilt text assigns to is a variable or a member, or a
declaration in the head of a loop. -/
theorem transform_targets (options : Options) (source : Text) (program : Node)
    (run : transform options source = .ok program) : program.Every AssignsTargets := by
  obtain ⟨trees, -, becomes, vetted⟩ := transform_becomes run
  obtain ⟨text, -, -, builds⟩ | ⟨given, -, each, builds⟩ := becomes.builds
  · refine builds.every (by simp) (fun _ inner _ => targets_of_isInner inner)
      (fun node isRoot _ => ?_) (fun _ => trivial) program (by simp)
    exact targets_of_script (isRoot ▸ builds)
  · have below := forall_becomes each fun tree isIn _ => Becomes.aims (vetted tree isIn).2
    refine builds.every (nodes_aim below) (fun _ inner _ => targets_of_isInner inner)
      (fun node isRoot _ => ?_) (fun _ => trivial) program (by simp)
    exact targets_of_script (isRoot ▸ builds)

/-- A loop over values into a variable in parentheses, and an update of a
member. -/
theorem transform_targets_loop :
    ∃ program, transform ⟨.script, .standard⟩ "for ((a) of b) c = d.e++;".toList = .ok program ∧
      program.Every AssignsTargets := by
  have rebuilt :
      (transform ⟨.script, .standard⟩ "for ((a) of b) c = d.e++;".toList).isOk = true := by
    decide +kernel
  cases run : transform ⟨.script, .standard⟩ "for ((a) of b) c = d.e++;".toList with
  | error error =>
      rw [run] at rebuilt
      cases rebuilt
  | ok program => exact ⟨program, rfl, transform_targets _ _ _ run⟩

end ScriptTree
