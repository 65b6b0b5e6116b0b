import ScriptTree.Proofs.Lossless
import ScriptTree.Proofs.Rebuild.Rules
import ScriptTree.Proofs.Visit
import ScriptTree.Transform

/-!
# Grammar and rules agree

Every tree that the grammar builds can be rebuilt.  The rule of each node uses
up what its children turn into, so that the only errors left are literals
without a value and trees that are nested too deeply.
-/

namespace ScriptTree

open Estree

/-! ## Names -/

theorem Rule.mem_all (rule : Rule) : rule ∈ Rule.all :=
  List.mem_of_elem_eq_true (by cases rule <;> rfl)

theorem Rule.ofName?_name (rule : Rule) : Rule.ofName? rule.name = some rule := by
  have found : ∀ rule ∈ Rule.all, Rule.ofName? rule.name = some rule := by decide +kernel
  exact found rule rule.mem_all

theorem Rule.name_isUpper (rule : Rule) :
    ∃ first rest, rule.name = String.ofList (first :: rest) ∧ first.isUpper = true := by
  cases rule <;> exact ⟨_, _, rfl, rfl⟩

theorem Spelling.chars_isUpper (spelling : Spelling) :
    spelling.chars.head?.any Char.isUpper = false := by
  cases spelling with
  | keyword word => cases word <;> rfl
  | punctuator sign => cases sign <;> rfl
  | contextual word => cases word <;> rfl
  | holeOpen => rfl

/-- No token is spelled like the name of a rule, which starts with a capital
letter. -/
theorem Spelling.ofName?_text (spelling : Spelling) : Rule.ofName? spelling.text = none := by
  rw [Rule.ofName?, List.find?_eq_none]
  intro rule _ same
  obtain ⟨first, rest, named, isUpper⟩ := rule.name_isUpper
  have chars : spelling.chars = first :: rest := by
    rw [beq_iff_eq, named] at same
    exact (String.ofList_injective same).symm
  have notUpper := spelling.chars_isUpper
  simp [chars, isUpper] at notUpper

theorem dispatch_rule (rule : Rule) (fragments : List Fragment) :
    dispatch rule.name fragments = rule.process fragments := by
  unfold dispatch
  rw [Rule.ofName?_name]

theorem dispatch_token (spelling : Spelling) :
    dispatch spelling.text [.token spelling.text] = .ok (.token spelling.text) := by
  unfold dispatch
  rw [Spelling.ofName?_text]
  exact if_pos rfl

/-- A spelling stays a token, whatever its children become. -/
theorem token_of_dispatch {spelling : Spelling} {fragments : List Fragment} {fragment : Fragment}
    (dispatched : dispatch spelling.text fragments = .ok fragment) :
    fragment = .token spelling.text := by
  unfold dispatch at dispatched
  rw [Spelling.ofName?_text] at dispatched
  dsimp only at dispatched
  split at dispatched
  · split at dispatched
    · exact (Except.ok.inj dispatched).symm
    · cases dispatched
  · cases dispatched

/-! ## Leaves -/

/-- What rebuilding can give for a node with some label: a fragment that the
label can yield, or an error about a literal. -/
def Kind.Gives (kind : Kind) (result : Except TransformError Fragment) : Prop :=
  (∃ fragment, result = .ok fragment ∧ kind.Yields fragment) ∨
    ∃ raw flaw, result = .error (.literal raw flaw)

theorem literal_run {rule : Rule} {what text : String}
    {decode : Text → Except LiteralFlaw LiteralValue} :
    Rebuild.literal what decode ⟨rule, 0, [.token text]⟩ =
      (Rebuild.decodeLiteral decode text).map fun found =>
        (.node (.literal found), ⟨rule, 1, []⟩) := by
  change Except.bind (Except.bind (Rebuild.decodeLiteral decode text) _) _ = _
  cases Rebuild.decodeLiteral decode text <;> rfl

theorem decodeLiteral_error {decode : Text → Except LiteralFlaw LiteralValue} {text : String}
    {fault : TransformError} (run : Rebuild.decodeLiteral decode text = .error fault) :
    ∃ raw flaw, fault = .literal raw flaw := by
  unfold Rebuild.decodeLiteral at run
  split at run
  · cases run
  · cases run
    exact ⟨_, _, rfl⟩

theorem literal_gives {rule : Rule} {what text : String}
    {decode : Text → Except LiteralFlaw LiteralValue}
    (handled : Rebuild.handler rule = Rebuild.literal what decode)
    (yields : ∀ node, Kind.Yields (.rule rule) (.node node)) :
    Kind.Gives (.rule rule) (rule.process [.token text]) := by
  unfold Rule.process
  rw [handled]
  change Kind.Gives _ (Except.bind (Rebuild.literal what decode _) _)
  rw [literal_run]
  cases decoded : Rebuild.decodeLiteral decode text with
  | ok found => exact .inl ⟨_, rfl, yields _⟩
  | error fault =>
      obtain ⟨raw, flaw, rfl⟩ := decodeLiteral_error decoded
      exact .inr ⟨raw, flaw, rfl⟩

/-- A rule for single tokens succeeds on its token, unless it is a literal
without a value. -/
theorem terminal_gives {rule : Rule} {text : Text} (terminal : rule.isTerminal = true)
    (spells : Kind.Spells (.rule rule) text) :
    Kind.Gives (.rule rule) (rule.process [.token (String.ofList text)]) := by
  cases rule with
  | number => exact literal_gives rfl fun node => ⟨node, rfl⟩
  | string => exact literal_gives rfl fun node => ⟨node, rfl⟩
  | regExp => exact literal_gives rfl fun node => ⟨node, rfl⟩
  | equals =>
      obtain rfl := spells
      exact .inl ⟨_, rfl, rfl⟩
  | star =>
      obtain rfl := spells
      exact .inl ⟨_, rfl, rfl⟩
  | updateOp =>
      obtain rfl | rfl := spells
      · exact .inl ⟨_, rfl, .inl rfl⟩
      · exact .inl ⟨_, rfl, .inr rfl⟩
  | templateContent => exact .inl ⟨_, rfl, _, _, rfl⟩
  | variableName => exact .inl ⟨_, rfl, _, rfl⟩
  | variableDefinition => exact .inl ⟨_, rfl, _, rfl⟩
  | propertyName => exact .inl ⟨_, rfl, _, rfl⟩
  | propertyDefinition => exact .inl ⟨_, rfl, _, rfl⟩
  | label => exact .inl ⟨_, rfl, _, rfl⟩
  | arithOp => exact .inl ⟨_, rfl, _, rfl⟩
  | compareOp => exact .inl ⟨_, rfl, _, rfl⟩
  | logicOp => exact .inl ⟨_, rfl, _, rfl⟩
  | bitOp => exact .inl ⟨_, rfl, _, rfl⟩
  | assignOp => exact .inl ⟨_, rfl, _, rfl⟩
  | _ => cases terminal

/-- A node without children covers a text that its label can have. -/
def Spelled (source : Text) (node : SyntaxTree) : Prop :=
  node.children = [] → ∃ text, node.span.text? source = some text ∧ node.label.Spells text

/-! ## Nodes -/

theorem argumentsOf_children {source : Text} {tree : SyntaxTree} {below : List Fragment}
    (nonempty : tree.children ≠ []) : argumentsOf source tree below = .ok below := by
  unfold argumentsOf
  split
  · rfl
  · contradiction

theorem argumentsOf_leaf {source : Text} {tree : SyntaxTree} {below : List Fragment} {text : Text}
    (isLeaf : tree.children = []) (covers : tree.span.text? source = some text) :
    argumentsOf source tree below = .ok [.token (String.ofList text)] := by
  unfold argumentsOf
  rw [isLeaf]
  simp only [covers]

/-- A rule succeeds on what the children of a node yield, or on the text of a
node without children, unless that is a literal without a value. -/
def Rule.Uses (rule : Rule) (source : Text) (node : SyntaxTree) (below : List Fragment) : Prop :=
  ∃ arguments, argumentsOf source node below = .ok arguments ∧
    ((∃ fragment, rule.process arguments = .ok fragment ∧ Kind.Yields (.rule rule) fragment) ∨
      node.children = [] ∧ ∃ raw flaw, rule.process arguments = .error (.literal raw flaw))

theorem Rule.Uses.leave {rule : Rule} {source : Text} {limit : Option Nat} {depth : Nat}
    {tree : SyntaxTree} {below : List Fragment} (isRule : tree.label = .rule rule)
    (uses : rule.Uses source tree below) :
    Kind.Gives (.rule rule) ((rebuilder source limit).leave depth tree below) := by
  obtain ⟨arguments, taken, result⟩ := uses
  change Kind.Gives _ (Except.bind (argumentsOf source tree below) (dispatch tree.label.name))
  rw [taken, isRule]
  change Kind.Gives _ (dispatch rule.name arguments)
  rw [dispatch_rule]
  exact result.imp id And.right

/-- The rule of a shaped node uses up what its children yield. -/
theorem shaped_uses {source : Text} {tree : SyntaxTree} {rule : Rule} {below : List Fragment}
    (isRule : tree.label = .rule rule) (shaped : Grammar.Shaped tree)
    (spelled : Spelled source tree)
    (yields : List.Forall₂ Kind.Yields (tree.children.map Tree.label) below) :
    rule.Uses source tree below := by
  unfold Grammar.Shaped at shaped
  rw [isRule] at shaped
  obtain ⟨isLeaf, terminal⟩ | ⟨rfl, template⟩ | takes := shaped
  · obtain ⟨text, covers, spells⟩ := spelled isLeaf
    rw [isRule] at spells
    exact ⟨_, argumentsOf_leaf isLeaf covers, (terminal_gives terminal spells).imp_right
      fun literal => ⟨isLeaf, literal⟩⟩
  · have nonempty : tree.children ≠ [] := by
      rintro none
      obtain ⟨inner, -, same⟩ := template
      rw [none] at same
      cases same
    exact ⟨below, argumentsOf_children nonempty,
      .inl ((Rule.templateString_handles template).process yields)⟩
  · have nonempty : tree.children ≠ [] := by simpa using Rule.Takes.nonempty takes
    exact ⟨below, argumentsOf_children nonempty, .inl ((Rule.Takes.handles takes).process yields)⟩

/-- A shaped node can be rebuilt from what its children yield. -/
theorem leave_gives {source : Text} {limit : Option Nat} {depth : Nat} {tree : SyntaxTree}
    {below : List Fragment} (shaped : Grammar.Shaped tree) (spelled : Spelled source tree)
    (yields : List.Forall₂ Kind.Yields (tree.children.map Tree.label) below) :
    tree.label.Gives ((rebuilder source limit).leave depth tree below) := by
  cases label : tree.label with
  | fixed spelling =>
      have isLeaf : tree.children = [] := by
        unfold Grammar.Shaped at shaped
        rwa [label] at shaped
      obtain ⟨text, covers, spells⟩ := spelled isLeaf
      rw [label] at spells
      obtain rfl := spells
      change Kind.Gives _ (Except.bind (argumentsOf source tree below) (dispatch tree.label.name))
      rw [argumentsOf_leaf isLeaf covers, label]
      exact .inl ⟨_, dispatch_token spelling, rfl⟩
  | rule rule => exact (shaped_uses label shaped spelled yields).leave label

/-! ## Trees -/

/-- What rebuilding can give if it may also end at a limit. -/
def Kind.Rebuilds (kind : Kind) (limit : Option Nat) (result : Except TransformError Fragment) :
    Prop :=
  kind.Gives result ∨ ∃ bound, limit = some bound ∧ result = .error (.depthExceeded bound)

theorem foldAll_rebuilds {source : Text} {limit : Option Nat} {depth : Nat}
    {trees : List SyntaxTree}
    (all : ∀ tree ∈ trees, tree.label.Rebuilds limit ((rebuilder source limit).fold depth tree)) :
    (∃ fragments, (rebuilder source limit).foldAll depth trees = .ok fragments ∧
        List.Forall₂ Kind.Yields (trees.map Tree.label) fragments) ∨
      (∃ raw flaw, (rebuilder source limit).foldAll depth trees = .error (.literal raw flaw)) ∨
      ∃ bound, limit = some bound ∧
        (rebuilder source limit).foldAll depth trees = .error (.depthExceeded bound) := by
  induction trees with
  | nil => exact .inl ⟨[], rfl, .nil⟩
  | cons tree rest ih =>
      rw [Visitor.foldAll]
      obtain (⟨fragment, run, yields⟩ | ⟨raw, flaw, run⟩) | ⟨bound, same, run⟩ :=
        all tree (by simp)
      · rw [run]
        obtain ⟨fragments, restRun, restYields⟩ | ⟨raw, flaw, restRun⟩ | ⟨bound, same, restRun⟩ :=
          ih fun tree member => all tree (by simp [member])
        · rw [restRun]
          exact .inl ⟨fragment :: fragments, rfl, .cons yields restYields⟩
        · rw [restRun]
          exact .inr (.inl ⟨raw, flaw, rfl⟩)
        · rw [restRun]
          exact .inr (.inr ⟨bound, same, rfl⟩)
      · rw [run]
        exact .inr (.inl ⟨raw, flaw, rfl⟩)
      · rw [run]
        exact .inr (.inr ⟨bound, same, rfl⟩)

theorem enter_rebuilder (source : Text) (limit : Option Nat) (depth : Nat) (tree : SyntaxTree) :
    (rebuilder source limit).enter depth tree = .ok () ∨ ∃ bound, limit = some bound ∧
      (rebuilder source limit).enter depth tree = .error (.depthExceeded bound) := by
  cases limit with
  | none => exact .inl rfl
  | some bound =>
      change (if bound < depth then _ else _) = _ ∨ ∃ _, _ ∧ (if bound < depth then _ else _) = _
      split
      · exact .inr ⟨bound, rfl, rfl⟩
      · exact .inl rfl

/-- A node is rebuilt if its children are and its own rule succeeds. -/
theorem fold_step {source : Text} {limit : Option Nat} {depth : Nat} {tree : SyntaxTree}
    (below : ∀ child ∈ tree.children,
      child.label.Rebuilds limit ((rebuilder source limit).fold (depth + 1) child))
    (leaves : ∀ fragments, List.Forall₂ Kind.Yields (tree.children.map Tree.label) fragments →
      tree.label.Gives ((rebuilder source limit).leave depth tree fragments)) :
    tree.label.Rebuilds limit ((rebuilder source limit).fold depth tree) := by
  rw [Visitor.fold_eq]
  obtain entered | ⟨bound, same, entered⟩ := enter_rebuilder source limit depth tree
  · rw [entered]
    obtain ⟨fragments, run, yields⟩ | ⟨raw, flaw, run⟩ | ⟨bound, same, run⟩ :=
      foldAll_rebuilds below
    · rw [run]
      exact .inl (leaves fragments yields)
    · rw [run]
      exact .inl (.inr ⟨raw, flaw, rfl⟩)
    · rw [run]
      exact .inr ⟨bound, same, rfl⟩
  · rw [entered]
    exact .inr ⟨bound, same, rfl⟩

/-- Every shaped tree can be rebuilt. -/
theorem fold_rebuilds {source : Text} {limit : Option Nat} {tree : SyntaxTree}
    (shaped : tree.Every Grammar.Shaped) (spelled : tree.Every (Spelled source)) (depth : Nat) :
    tree.label.Rebuilds limit ((rebuilder source limit).fold depth tree) := by
  induction tree using Tree.induct generalizing depth with
  | node label span children ih =>
      refine fold_step (fun child member => ?_) fun fragments yields =>
        leave_gives shaped.here spelled.here yields
      exact ih child member (shaped.of_child child member) (spelled.of_child child member) _

/-! ## Whole scripts -/

theorem nodesToEnd_accepts {kinds : List Kind} {what : String} {fuel : Nat} {nodes : Array Node}
    (wholes : ∀ kind ∈ kinds, kind.isWhole = true) (enough : kinds.length ≤ fuel) :
    Take.Accepts (Take.nodesToEnd what fuel nodes) kinds fun _ left => left = [] := by
  induction kinds generalizing fuel nodes with
  | nil =>
      cases fuel with
      | zero => exact .returns rfl
      | succ fuel => exact .peek (fun _ => .returns rfl) fun _ _ _ same => nomatch same
  | cons kind rest ih =>
      cases fuel with
      | zero => cases enough
      | succ fuel =>
          refine .peek nofun fun _ _ _ _ _ => .whole (wholes kind (by simp)) fun _ => ?_
          exact ih (fun kind member => wholes kind (by simp [member]))
            (Nat.le_of_succ_le_succ enough)

theorem script_handles {kinds : List Kind} (wholes : ∀ kind ∈ kinds, kind.isWhole = true) :
    Rule.script.Handles kinds := by
  refine .get fun arguments yields => ?_
  split
  case h_1 text same =>
    -- Whole nodes are not tokens.
    rw [same] at yields
    cases yields with
    | cons first _ =>
        obtain ⟨node, absurd⟩ := first.isNode (Kind.isNode_of_isWhole (wholes _ (by simp)))
        cases absurd
  case h_2 =>
    refine .get fun arguments yields => .bind ?_
    exact (nodesToEnd_accepts wholes (by rw [yields.length_eq])).mono
      fun _ _ done => .returns ⟨done, _, _, rfl⟩

/-- A whole script is rebuilt from its statements, or from its text if there
are none. -/
theorem script_uses {source : Text} {children : List SyntaxTree} {below : List Fragment}
    (wholes : ∀ child ∈ children, child.label.isWhole = true)
    (yields : List.Forall₂ Kind.Yields (children.map Tree.label) below) :
    Rule.script.Uses source (.node (.rule .script) ⟨0, Text.size source⟩ children) below := by
  cases children with
  | nil =>
      have covers : (Span.mk 0 (Text.size source)).text? source = some source := by
        have whole := Text.slice?_append [] source []
        simpa [Span.text?] using whole
      exact ⟨_, argumentsOf_leaf rfl covers, .inl ⟨_, rfl, _, _, rfl⟩⟩
  | cons first rest =>
      refine ⟨below, rfl, .inl ((script_handles ?_).process yields)⟩
      simpa using wholes

/-! ## Agreement -/

structure Rule.Consumes (rule : Rule) (source : Text) (node : SyntaxTree) : Prop where
  yields : ∀ below, (rebuilder source none).foldAll 0 node.children = .ok below →
    List.Forall₂ Kind.Yields (node.children.map Tree.label) below
  uses : ∀ below, List.Forall₂ Kind.Yields (node.children.map Tree.label) below →
    rule.Uses source node below

/-- A node agrees with the rules: a token that is named by its spelling covers
its name, and any other node is consumed by its rule. -/
def Agrees (source : Text) (node : SyntaxTree) : Prop :=
  match node.label with
  | .fixed _ => node.children = [] ∧
      ∃ text, node.span.text? source = some text ∧ String.ofList text = node.name
  | .rule rule => rule.Consumes source node

theorem foldAll_yields {source : Text} {trees : List SyntaxTree} {below : List Fragment}
    (shaped : ∀ tree ∈ trees, tree.Every Grammar.Shaped)
    (spelled : ∀ tree ∈ trees, tree.Every (Spelled source))
    (run : (rebuilder source none).foldAll 0 trees = .ok below) :
    List.Forall₂ Kind.Yields (trees.map Tree.label) below := by
  obtain ⟨fragments, same, yields⟩ | ⟨raw, flaw, same⟩ | ⟨bound, same, -⟩ :=
    foldAll_rebuilds fun tree member =>
      fold_rebuilds (shaped tree member) (spelled tree member) 0
  · rw [run] at same
    cases same
    exact yields
  · rw [run] at same
    cases same
  · cases same

theorem every_agrees {source : Text} {tree : SyntaxTree} (shaped : tree.Every Grammar.Shaped)
    (spelled : tree.Every (Spelled source)) : tree.Every (Agrees source) := by
  induction tree using Tree.induct with
  | node label span children ih =>
      refine .node ?_ fun child member =>
        ih child member (shaped.of_child child member) (spelled.of_child child member)
      cases label with
      | fixed spelling =>
          obtain ⟨text, covers, rfl⟩ := spelled.here shaped.here
          exact ⟨shaped.here, _, covers, rfl⟩
      | rule rule =>
          exact ⟨fun _ => foldAll_yields shaped.of_child spelled.of_child,
            fun _ => shaped_uses rfl shaped.here spelled.here⟩

/-- What is known of every text that is read. -/
theorem parse_shaped {options : Options} {source : Text} {tree : SyntaxTree}
    (parsed : Grammar.parse options source = .ok tree) :
    ∃ children, tree = .node (.rule .script) ⟨0, Text.size source⟩ children ∧
      (∀ child ∈ children, child.label.isWhole = true) ∧
      (∀ child ∈ children, child.Every Grammar.Shaped) ∧
      ∀ child ∈ children, child.Every (Spelled source) := by
  obtain ⟨children, _, _, rfl, shaped, statements, -, -⟩ :=
    Grammar.allShaped_composes.parseWith parsed
  refine ⟨children, rfl, fun child member => Kind.isWhole_of_isStatement (statements child member),
    shaped, fun child member => ?_⟩
  obtain ⟨place, _, _, laid, -, -⟩ := Grammar.parse_laid parsed
  obtain ⟨opensText, contained⟩ := Tree.leaves_of_mem member
  exact Tree.every_of_leaves
    (fun kind span => ∃ text, span.text? source = some text ∧ kind.Spells text) child opensText
    fun leaf isLeaf => laid.spelled (.first source) leaf (contained leaf isLeaf)

/-- A tree is rebuilt by folding over it. -/
theorem transformTree_eq {Label : Type} [Named Label] (options : Options) (source : Text)
    (tree : Tree Label) :
    transformTree options source tree =
      ((rebuilder source options.bounds.limit).fold 0 tree).bind rootNode := by
  unfold transformTree transformCursor
  rw [Cursor.visit_eq]
  cases folded : (rebuilder source options.bounds.limit).fold 0 (Cursor.ofTree tree).focus with
  | error fault =>
      change (rebuilder source options.bounds.limit).fold 0 tree = _ at folded
      rw [folded]
      rfl
  | ok fragment =>
      change (rebuilder source options.bounds.limit).fold 0 tree = _ at folded
      rw [folded]
      rfl

/-- What a text is rebuilt into is the fold over its tree. -/
theorem transform_ok {options : Options} {source : Text} {program : Node}
    (run : transform options source = .ok program) :
    ∃ tree, Grammar.parse options source = .ok tree ∧
      (rebuilder source options.bounds.limit).fold 0 tree = .ok (.node program) := by
  unfold transform at run
  cases parsed : Grammar.parse options source with
  | error fault =>
      rw [parsed] at run
      cases run
  | ok tree =>
      rw [parsed] at run
      change transformTree options source tree = _ at run
      rw [transformTree_eq] at run
      cases folded : (rebuilder source options.bounds.limit).fold 0 tree with
      | error fault =>
          rw [folded] at run
          cases run
      | ok fragment =>
          rw [folded] at run
          refine ⟨tree, rfl, folded.trans (congrArg _ ?_)⟩
          cases fragment with
          | node node => exact congrArg _ (Except.ok.inj run)
          | token => cases run
          | list => cases run
          | loop => cases run

/-- Whatever is read can be rebuilt, but for literals without a value and the
limit on nesting, and every node of it agrees with the rules. -/
theorem transform_of_parse (options : Options) (source : Text) (tree : SyntaxTree)
    (parsed : Grammar.parse options source = .ok tree) :
    ((∃ body form, transform options source = .ok (.program body form)) ∨
      (∃ raw flaw, transform options source = .error (.literal raw flaw)) ∨
      ∃ bound, options.bounds.limit = some bound ∧
        transform options source = .error (.depthExceeded bound)) ∧
      tree.Every (Agrees source) := by
  obtain ⟨children, rfl, wholes, shaped, spelled⟩ := parse_shaped parsed
  have rebuilds : Kind.Rebuilds (.rule .script) options.bounds.limit
      ((rebuilder source options.bounds.limit).fold 0
        (.node (.rule .script) ⟨0, Text.size source⟩ children)) := by
    refine fold_step (fun child member => fold_rebuilds (shaped child member)
      (spelled child member) 1) fun fragments yields => ?_
    exact (script_uses wholes yields).leave rfl
  have folded : transform options source = ((rebuilder source options.bounds.limit).fold 0
      (.node (.rule .script) ⟨0, Text.size source⟩ children)).bind rootNode := by
    unfold transform
    rw [parsed]
    exact transformTree_eq options source _
  constructor
  · rw [folded]
    obtain (⟨-, run, body, form, rfl⟩ | ⟨raw, flaw, run⟩) | ⟨bound, same, run⟩ := rebuilds
    · exact .inl ⟨body, form, by rw [run]; rfl⟩
    · exact .inr (.inl ⟨raw, flaw, by rw [run]; rfl⟩)
    · exact .inr (.inr ⟨bound, same, by rw [run]; rfl⟩)
  · refine .node ?_ fun child member => every_agrees (shaped child member) (spelled child member)
    exact ⟨fun _ => foldAll_yields shaped spelled, fun _ => script_uses wholes⟩

/-- A literal and a token between two names. -/
theorem transform_of_parse_sum :
    ∃ tree, Grammar.parse ⟨.script, .standard⟩ ['x', '+', '1'] = .ok tree ∧
      ((∃ body form, transform ⟨.script, .standard⟩ ['x', '+', '1'] = .ok (.program body form)) ∨
        (∃ raw flaw, transform ⟨.script, .standard⟩ ['x', '+', '1'] =
          .error (.literal raw flaw)) ∨
        ∃ bound, Bounds.standard.limit = some bound ∧
          transform ⟨.script, .standard⟩ ['x', '+', '1'] = .error (.depthExceeded bound)) ∧
      tree.Every (Agrees ['x', '+', '1']) := by
  obtain ⟨tree, parsed⟩ := Grammar.exists_of_isOk ⟨.script, .standard⟩ ['x', '+', '1']
    (by decide +kernel)
  exact ⟨tree, parsed, transform_of_parse _ _ _ parsed⟩

end ScriptTree
