import ScriptTree.Proofs.Nesting
import ScriptTree.Proofs.Rebuild.Agreement
import ScriptTree.Tree.Exchange

/-!
# Exchanged trees are rebuilt alike

A tree that is copied, written and read back is the same tree, and rebuilding
the copy gives what rebuilding the tree itself does, be it a node or an error.
-/

namespace ScriptTree

namespace Tree

/-! ## Writing and reading back -/

/-- Both offsets of a node can be read back. -/
def InRange (tree : NamedTree) : Prop :=
  tree.span.start < offsetBound ∧ tree.span.stop < offsetBound

theorem decodeOffset?_integer {offset : Nat} (inRange : offset < offsetBound) :
    decodeOffset? (.integer offset) = some offset := by
  change (if offset < offsetBound then some offset else none) = some offset
  rw [if_pos inRange]

theorem decodeAll?_encodeAll {trees : List NamedTree}
    (each : ∀ tree ∈ trees, decode? tree.encode = some tree) :
    decodeAll? (encodeAll trees) = some trees := by
  induction trees with
  | nil =>
      rw [encodeAll, decodeAll?]
  | cons first rest ih =>
      have firstSame := each first (by simp)
      have restSame := ih fun tree isIn => each tree (by simp [isIn])
      rw [encodeAll, decodeAll?, firstSame, restSame]
      rfl

theorem Parts.once?_none {Value : Type} (found : Option Value) : once? .none found = found :=
  rfl

/-- The field for the children gives them back, also if it is left out because
there are none. -/
theorem decodeFields?_children {parts : Parts} {children : List NamedTree}
    (nothing : parts.children = none)
    (each : ∀ child ∈ children, decode? child.encode = some child) :
    ∃ found, decodeFields? parts (encodeChildren children) = some { parts with children := found } ∧
      found.getD [] = children := by
  cases children with
  | nil =>
      rw [encodeChildren, decodeFields?]
      exact ⟨none, by rw [← nothing], rfl⟩
  | cons first rest =>
      have all := decodeAll?_encodeAll each
      rw [encodeAll] at all
      refine ⟨some (first :: rest), ?_, rfl⟩
      rw [encodeChildren, decodeFields?]
      simp only [show ¬"children" = "name" by decide, show ¬"children" = "from" by decide,
        show ¬"children" = "to" by decide, if_false, if_true]
      rw [nothing, Parts.once?_none, all, Option.bind_some, decodeFields?]

theorem decode?_node {name : String} {span : Span} {children : List NamedTree}
    (starts : span.start < offsetBound) (stops : span.stop < offsetBound)
    (each : ∀ child ∈ children, decode? child.encode = some child) :
    decode? (encode (.node name span children)) = some (.node name span children) := by
  have named : decodeName? (.string name) = some name := rfl
  rw [encode, decode?]
  simp only [List.cons_append, List.nil_append]
  rw [decodeFields?, if_pos rfl, Parts.none, Parts.once?_none, named, Option.bind_some]
  rw [decodeFields?, if_neg (by decide), if_pos rfl, Parts.once?_none,
    decodeOffset?_integer starts, Option.bind_some]
  rw [decodeFields?, if_neg (by decide), if_neg (by decide), if_pos rfl, Parts.once?_none,
    decodeOffset?_integer stops, Option.bind_some]
  · let before : Parts := ⟨some name, some span.start, some span.stop, none⟩
    obtain ⟨found, run, same⟩ := decodeFields?_children (show before.children = none from rfl) each
    rw [run, Option.bind_some, ← same]
    rfl
  -- None of these fields holds an array.
  all_goals nofun

/-- A tree that is written and read back is the same tree. -/
theorem decode?_encode {tree : NamedTree} (inRange : tree.Every InRange) :
    decode? tree.encode = some tree := by
  induction tree using Tree.induct with
  | node name span children ih =>
      obtain ⟨starts, stops⟩ := inRange.here
      exact decode?_node starts stops fun child isChild =>
        ih child isChild (inRange.of_child child isChild)

/-! ## Copies with plain names -/

section Named

variable {Label : Type} [Named Label] {tree : Tree Label}

omit [Named Label] in
theorem relabelAll_eq_map {Other : Type} (change : Label → Other) (trees : List (Tree Label)) :
    relabelAll change trees = trees.map (relabel change) := by
  induction trees with
  | nil => rfl
  | cons first rest ih =>
      rw [relabelAll, ih]
      rfl

@[simp]
theorem span_named (tree : Tree Label) : tree.named.span = tree.span := by
  cases tree
  rfl

@[simp]
theorem name_named (tree : Tree Label) : tree.named.name = tree.name := by
  cases tree
  rfl

@[simp]
theorem children_named (tree : Tree Label) : tree.named.children = tree.children.map named := by
  cases tree
  exact relabelAll_eq_map _ _

theorem every_named {holds : NamedTree → Prop} (all : tree.Every fun node => holds node.named) :
    tree.named.Every holds := by
  induction tree using Tree.induct with
  | node label span children ih =>
      refine .node all.here ?_
      intro child isChild
      rw [relabelAll_eq_map] at isChild
      obtain ⟨original, isIn, rfl⟩ := List.mem_map.mp isChild
      exact ih original isIn (all.of_child original isIn)

/-- The arguments of a node are those of its copy. -/
theorem argumentsOf_named (source : Text) (below : List Fragment) :
    argumentsOf source tree.named below = argumentsOf source tree below := by
  unfold argumentsOf
  rw [children_named, span_named, name_named]
  cases tree.children <;> rfl

theorem foldAll_named {source : Text} {limit : Option Nat} {depth : Nat}
    {trees : List (Tree Label)}
    (each : ∀ tree ∈ trees, (rebuilder source limit).fold depth tree.named =
      (rebuilder source limit).fold depth tree) :
    (rebuilder source limit).foldAll depth (trees.map named) =
      (rebuilder source limit).foldAll depth trees := by
  induction trees with
  | nil => rfl
  | cons first rest ih =>
      have firstSame := each first (by simp)
      have restSame := ih fun tree isIn => each tree (by simp [isIn])
      rw [List.map_cons, Visitor.foldAll, Visitor.foldAll, firstSame, restSame]

/-- Rebuilding only asks for the names of labels. -/
theorem fold_named (source : Text) (limit : Option Nat) (tree : Tree Label) (depth : Nat) :
    (rebuilder source limit).fold depth tree.named = (rebuilder source limit).fold depth tree := by
  induction tree using Tree.induct generalizing depth with
  | node label span children ih =>
      have below := foldAll_named fun child isChild => ih child isChild (depth + 1)
      have leave (values : List Fragment) :
          (rebuilder source limit).leave depth (Tree.node label span children).named values =
            (rebuilder source limit).leave depth (.node label span children) values := by
        change (argumentsOf source (Tree.node label span children).named values).bind _ = _
        rw [argumentsOf_named, name_named]
        rfl
      rw [Visitor.fold_eq, Visitor.fold_eq, children_named]
      change
        _ >>= (fun _ => (rebuilder source limit).foldAll (depth + 1) (children.map named) >>= _) =
        _ >>= fun _ => (rebuilder source limit).foldAll (depth + 1) children >>= _
      rw [below, funext leave]
      rfl

end Named

end Tree

theorem transformTree_named (options : Options) (source : Text) (tree : SyntaxTree) :
    transformTree options source tree.named = transformTree options source tree := by
  rw [transformTree_eq, transformTree_eq, Tree.fold_named]

/-- The copy of a tree that is read can be written and read back. -/
theorem parse_inRange {options : Options} {source : Text} {tree : SyntaxTree}
    (parsed : Grammar.parse options source = .ok tree)
    (small : Text.size source < Tree.offsetBound) : tree.named.Every Tree.InRange := by
  obtain ⟨-, nests, -⟩ := parse_nests options source tree parsed
  refine Tree.every_named (nests.mono fun node nest => ?_)
  obtain ⟨first, onFirst, starts⟩ := nest.starts
  obtain ⟨last, onLast, stops⟩ := nest.stops
  have := onFirst.offset_le
  have := onLast.offset_le
  rw [Tree.InRange, Tree.span_named]
  omega

/-- Every tree that is written can be read back, and a tree that was read from
a text and comes back that way is rebuilt as it would be from the text. -/
theorem exchange_agrees (options : Options) (source : Text) (tree : SyntaxTree)
    (parsed : Grammar.parse options source = .ok tree)
    (small : Text.size source < Tree.offsetBound) :
    (∀ sent : NamedTree, sent.Every Tree.InRange → Tree.decode? sent.encode = some sent) ∧
      ∃ received, Tree.decode? tree.named.encode = some received ∧
        transformTree options source received = transform options source := by
  refine ⟨fun sent => Tree.decode?_encode, tree.named, ?_, ?_⟩
  · exact Tree.decode?_encode (parse_inRange parsed small)
  · rw [transformTree_named]
    unfold transform
    rw [parsed]

/-- A string that cannot be decoded, in a text with a character beyond
ASCII. -/
theorem exchange_agrees_literal :
    ∃ tree, Grammar.parse ⟨.script, .standard⟩ "é='\\x'".toList = .ok tree ∧
      (∀ sent : NamedTree, sent.Every Tree.InRange → Tree.decode? sent.encode = some sent) ∧
      ∃ received, Tree.decode? tree.named.encode = some received ∧
        transformTree ⟨.script, .standard⟩ "é='\\x'".toList received =
          transform ⟨.script, .standard⟩ "é='\\x'".toList := by
  obtain ⟨tree, parsed⟩ := Grammar.exists_of_isOk ⟨.script, .standard⟩ "é='\\x'".toList
    (by decide +kernel)
  exact ⟨tree, parsed, exchange_agrees _ _ _ parsed (by decide)⟩

end ScriptTree
