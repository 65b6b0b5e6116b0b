import ScriptTree.Proofs.Grammar.Checked
import ScriptTree.Proofs.Rebuild.Agreement
import ScriptTree.Proofs.Rebuild.Conformity
import ScriptTree.Proofs.Rebuild.Parts

/-!
# What a tree becomes

Rebuilding goes from the leaves of a tree to its root, one rule at a time.
Facts about rebuilt texts are therefore proved by induction over trees, where
each step knows what was checked of the tree and what its children became.
-/

namespace ScriptTree

open Estree Rebuild

/-- A tree becomes a fragment when it is rebuilt at some depth. -/
def Becomes (source : Text) (limit : Option Nat) (tree : SyntaxTree) (fragment : Fragment) :
    Prop :=
  ∃ depth, (rebuilder source limit).fold depth tree = .ok fragment

namespace Becomes

variable {source : Text} {limit : Option Nat} {rule : Rule} {span : Span}
  {children : List SyntaxTree} {fragment : Fragment}

theorem dispatched {label : Kind}
    (becomes : Becomes source limit (.node label span children) fragment) :
    ∃ below arguments, List.Forall₂ (Becomes source limit) children below ∧
      argumentsOf source (.node label span children) below = .ok arguments ∧
      dispatch label.name arguments = .ok fragment := by
  obtain ⟨depth, run⟩ := becomes
  obtain ⟨below, folded, left⟩ := Visitor.fold_ok run
  obtain ⟨arguments, given, dispatched⟩ := leave_ok left
  have each : List.Forall₂ (Becomes source limit) children below :=
    Visitor.foldAll_related (fun _ _ _ run => ⟨depth + 1, run⟩) folded
  exact ⟨below, arguments, each, given, dispatched⟩

/-- The rule of a node builds it from its text if it is a token, and else from
what its children become. -/
theorem builds (becomes : Becomes source limit (.node (.rule rule) span children) fragment) :
    (∃ text, children = [] ∧ span.text? source = some text ∧
      rule.Builds [.token (String.ofList text)] fragment) ∨
    ∃ given, children ≠ [] ∧ List.Forall₂ (Becomes source limit) children given ∧
      rule.Builds given fragment := by
  obtain ⟨below, arguments, each, given, dispatched⟩ := becomes.dispatched
  change dispatch rule.name arguments = _ at dispatched
  rw [dispatch_rule] at dispatched
  have builds := Rule.builds_of_process dispatched
  cases children with
  | nil =>
      cases covers : span.text? source with
      | none => simp [argumentsOf, Tree.children, Tree.span, covers] at given
      | some text =>
          rw [argumentsOf_leaf rfl (by exact covers)] at given
          cases given
          exact .inl ⟨text, rfl, rfl, builds⟩
  | cons first rest =>
      rw [argumentsOf_children (by simp [Tree.children])] at given
      cases given
      exact .inr ⟨below, by simp, each, builds⟩

/-- A fixed spelling stays a token. -/
theorem token_of_fixed {spelling : Spelling}
    (becomes : Becomes source limit (.node (.fixed spelling) span children) fragment) :
    fragment = .token spelling.text := by
  obtain ⟨below, arguments, -, -, dispatched⟩ := becomes.dispatched
  exact token_of_dispatch dispatched

/-- What becomes a token keeps its text. -/
theorem token_leaf {tree : SyntaxTree} {text : Text} {found : String} (isLeaf : tree.children = [])
    (covers : tree.span.text? source = some text)
    (becomes : Becomes source limit tree (.token found)) : found = String.ofList text := by
  obtain ⟨depth, run⟩ := becomes
  obtain ⟨label, span, children⟩ := tree
  obtain rfl : children = [] := isLeaf
  rw [← ((fold_holds run).token found rfl).2, Tree.wording,
    show span.text? source = some text from covers]
  rfl

end Becomes

/-! ## Trees that were read -/

section Vetted

variable {source : Text} {limit : Option Nat}

structure Vetted (source : Text) (tree : SyntaxTree) : Prop where
  shaped : tree.Every Grammar.Shaped
  spelled : tree.Every (Spelled source)
  long : tree.Every Grammar.LongSequence
  checked : tree.Every (Grammar.Checked source)

theorem Vetted.of_child {tree : SyntaxTree} (vetted : Vetted source tree) :
    ∀ child ∈ tree.children, Vetted source child :=
  fun child isChild => ⟨vetted.shaped.of_child child isChild, vetted.spelled.of_child child isChild,
    vetted.long.of_child child isChild, vetted.checked.of_child child isChild⟩

theorem Becomes.fits {tree : SyntaxTree} {fragment : Fragment} (vetted : Vetted source tree)
    (becomes : Becomes source limit tree fragment) : tree.label.Fits fragment := by
  obtain ⟨depth, run⟩ := becomes
  exact fold_fits vetted.shaped vetted.spelled vetted.long run

theorem parse_vetted {options : Options} {source : Text} {tree : SyntaxTree}
    (parsed : Grammar.parse options source = .ok tree) :
    ∃ trees, tree = .node (.rule .script) ⟨0, Text.size source⟩ trees ∧
      ∀ tree ∈ trees, tree.label.isStatement = true ∧ Vetted source tree := by
  obtain ⟨trees, _, _, rfl, -, statements, -, -⟩ := Grammar.allShaped_composes.parseWith parsed
  obtain ⟨_, same, -, shaped, spelled⟩ := parse_shaped parsed
  cases same
  obtain ⟨_, same, known⟩ := Grammar.parseWith_known parsed
  cases same
  obtain ⟨_, same, checked⟩ := Grammar.parse_checked parsed
  cases same
  exact ⟨trees, rfl, fun tree isIn => ⟨statements tree isIn, shaped tree isIn, spelled tree isIn,
    (known tree isIn).1.mono fun _ placed => placed.traced.longSequence, checked tree isIn⟩⟩

/-- A text that is rebuilt was read as a script. -/
theorem transform_becomes {options : Options} {source : Text} {program : Node}
    (run : transform options source = .ok program) :
    ∃ trees, Grammar.parse options source =
        .ok (.node (.rule .script) ⟨0, Text.size source⟩ trees) ∧
      Becomes source options.bounds.limit
        (.node (.rule .script) ⟨0, Text.size source⟩ trees) (.node program) ∧
      ∀ tree ∈ trees, tree.label.isStatement = true ∧ Vetted source tree := by
  obtain ⟨tree, parsed, folded⟩ := transform_ok run
  obtain ⟨trees, rfl, vetted⟩ := parse_vetted parsed
  exact ⟨trees, parsed, ⟨0, folded⟩, vetted⟩

/-- What holds of everything that some trees become. -/
theorem forall_becomes {holds : Fragment → Prop} {trees : List SyntaxTree} {given : List Fragment}
    (each : List.Forall₂ (Becomes source limit) trees given)
    (all : ∀ tree ∈ trees, ∀ fragment, Becomes source limit tree fragment → holds fragment) :
    ∀ fragment ∈ given, holds fragment := by
  induction each with
  | nil => simp
  | cons first rest ih =>
      refine List.forall_mem_cons.mpr ⟨all _ List.mem_cons_self _ first, ih fun tree isIn => ?_⟩
      exact all tree (List.mem_cons_of_mem _ isIn)

/-- What holds of every tree and what it becomes, by their labels. -/
theorem labels_become {holds : Kind → Fragment → Prop} {trees : List SyntaxTree}
    {given : List Fragment} (each : List.Forall₂ (Becomes source limit) trees given)
    (all : ∀ tree ∈ trees, ∀ fragment, Becomes source limit tree fragment →
      holds tree.label fragment) : List.Forall₂ holds (trees.map Tree.label) given := by
  induction each with
  | nil => exact .nil
  | cons first rest ih =>
      refine .cons (all _ List.mem_cons_self _ first) (ih fun tree isIn => ?_)
      exact all tree (List.mem_cons_of_mem _ isIn)

theorem becomes_fit {trees : List SyntaxTree} {given : List Fragment}
    (vetted : ∀ tree ∈ trees, Vetted source tree)
    (each : List.Forall₂ (Becomes source limit) trees given) :
    List.Forall₂ Kind.Fits (trees.map Tree.label) given :=
  labels_become each fun tree isIn _ becomes => becomes.fits (vetted tree isIn)

end Vetted

end ScriptTree
