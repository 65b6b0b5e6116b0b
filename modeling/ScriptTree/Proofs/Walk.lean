import ScriptTree.Proofs.Visit
import ScriptTree.Transform

/-!
# Walking with a cursor

Whatever moves a cursor makes, the stops it keeps lead up to the root it was
started on.  Going to the first child, or else to the next sibling of the
nearest node that has one, it comes to every node once, parents before
children.  Rebuilding a tree with a cursor therefore is a fold over the tree,
and the offsets of inner nodes play no part in it.
-/

namespace ScriptTree

variable {Label : Type}

namespace Cursor

/-! ## Stops -/

/-- The stops from the cursor up to the root. -/
def path (cursor : Cursor Label) : List (Stop Label) :=
  cursor.here :: cursor.above

/-- The cursor after some moves, of which those that lead nowhere are left
out. -/
def after (cursor : Cursor Label) : List Move → Cursor Label
  | [] => cursor
  | move :: rest => ((cursor.move? move).getD cursor).after rest

theorem after_append (cursor : Cursor Label) (moves later : List Move) :
    cursor.after (moves ++ later) = (cursor.after moves).after later := by
  induction moves generalizing cursor with
  | nil => rfl
  | cons move rest ih => exact ih _

theorem trace_append (cursor : Cursor Label) (moves later : List Move) :
    cursor.trace (moves ++ later) = cursor.trace moves ++ (cursor.after moves).trace later := by
  induction moves generalizing cursor with
  | nil => rfl
  | cons move rest ih =>
      rw [List.cons_append, trace, trace, List.cons_append, ih]
      rfl

end Cursor

/-- Some stops lead up to the root of a tree, where every stop but the root is
the child of the one above it at the position it records. -/
def Tree.Leads (root : Tree Label) : List (Stop Label) → Prop
  | [] => False
  | [stop] => stop = ⟨root, 0⟩
  | stop :: parent :: rest =>
      parent.tree.children[stop.index]? = some stop.tree ∧ root.Leads (parent :: rest)

namespace Cursor

variable {root : Tree Label} {cursor next : Cursor Label}

theorem move_leads {move : Move} (leads : root.Leads cursor.path)
    (moved : cursor.move? move = some next) : root.Leads next.path := by
  obtain ⟨here, above⟩ := cursor
  cases move with
  | firstChild =>
      obtain ⟨child, isFirst, rfl⟩ := Option.map_eq_some_iff.mp moved
      refine ⟨?_, leads⟩
      rw [← List.head?_eq_getElem?]
      exact isFirst
  | nextSibling =>
      cases above with
      | nil => cases moved
      | cons parent rest =>
          obtain ⟨sibling, isNext, rfl⟩ := Option.map_eq_some_iff.mp moved
          exact ⟨isNext, leads.2⟩
  | parent =>
      cases above with
      | nil => cases moved
      | cons parent rest =>
          cases moved
          exact leads.2

/-- No moves lead away from the tree. -/
theorem after_leads (leads : root.Leads cursor.path) (moves : List Move) :
    root.Leads (cursor.after moves).path := by
  induction moves generalizing cursor with
  | nil => exact leads
  | cons move rest ih =>
      refine ih ?_
      cases moved : cursor.move? move with
      | none => exact leads
      | some next => exact move_leads leads moved

/-! ## Going through a whole tree -/

/-- The next sibling of a stop or, if it has none, of the nearest stop above
that has one. -/
def climb? (here : Stop Label) : List (Stop Label) → Option (Cursor Label)
  | [] => none
  | parent :: rest => (Cursor.mk here (parent :: rest)).nextSibling? <|> climb? parent rest

/-- The cursor on the node that comes next, which is the first child if there
is one. -/
def successor? (cursor : Cursor Label) : Option (Cursor Label) :=
  cursor.firstChild? <|> climb? cursor.here cursor.above

/-- Going on from a cursor leads through some cursors, of which the last has
the given successor. -/
inductive Tours : Cursor Label → List (Cursor Label) → Option (Cursor Label) → Prop where
  | last (cursor : Cursor Label) : Tours cursor [cursor] cursor.successor?
  | next {cursor other : Cursor Label} {rest : List (Cursor Label)} {final : Option (Cursor Label)}
      (goesOn : cursor.successor? = some other) (later : Tours other rest final) :
      Tours cursor (cursor :: rest) final

theorem Tours.append {first second : List (Cursor Label)} {middle : Cursor Label}
    {final : Option (Cursor Label)} (earlier : Tours cursor first (some middle))
    (later : Tours middle second final) : Tours cursor (first ++ second) final := by
  generalize same : some middle = ends at earlier
  induction earlier with
  | last cursor => exact .next same.symm later
  | next goesOn _ ih => exact .next goesOn (ih same)

end Cursor

namespace Tree

mutual

/-- The cursors on a tree and everything below it, for a tree that stands at
some position below some stops. -/
def cursorsAt (index : Nat) (above : List (Stop Label)) : Tree Label → List (Cursor Label)
  | .node label span children =>
      ⟨⟨.node label span children, index⟩, above⟩ ::
        cursorsFrom 0 (⟨.node label span children, index⟩ :: above) children

/-- The cursors on some siblings, the first of which stands at the given
position, and everything below them. -/
def cursorsFrom (index : Nat) (above : List (Stop Label)) :
    List (Tree Label) → List (Cursor Label)
  | [] => []
  | tree :: rest => cursorsAt index above tree ++ cursorsFrom (index + 1) above rest

end

/-- All cursors on the nodes of a tree, parents before children and children
from left to right. -/
def cursors (tree : Tree Label) : List (Cursor Label) :=
  tree.cursorsAt 0 []

variable {index : Nat} {above : List (Stop Label)} {cursor : Cursor Label}

theorem cursorsAt_eq (tree : Tree Label) (index : Nat) (above : List (Stop Label)) :
    tree.cursorsAt index above =
      ⟨⟨tree, index⟩, above⟩ :: cursorsFrom 0 (⟨tree, index⟩ :: above) tree.children := by
  cases tree
  rw [cursorsAt]
  rfl

theorem mem_cursorsFrom {trees : List (Tree Label)} :
    cursor ∈ cursorsFrom index above trees ↔
      ∃ (position : Nat) (tree : Tree Label), trees[position]? = some tree ∧
        cursor ∈ tree.cursorsAt (index + position) above := by
  induction trees generalizing index with
  | nil => simp [cursorsFrom]
  | cons first rest ih =>
      rw [cursorsFrom, List.mem_append, ih]
      constructor
      · rintro (isFirst | ⟨position, tree, found, isIn⟩)
        · exact ⟨0, first, rfl, isFirst⟩
        · refine ⟨position + 1, tree, found, ?_⟩
          rwa [Nat.add_assoc, Nat.add_comm 1] at isIn
      · rintro ⟨position, tree, found, isIn⟩
        cases position with
        | zero =>
            cases found
            exact .inl isIn
        | succ position =>
            refine .inr ⟨position, tree, found, ?_⟩
            rwa [Nat.add_assoc, Nat.add_comm 1]

/-- Going on from the root of a subtree leads through its nodes and then out of
it. -/
theorem tours_cursorsAt (tree : Tree Label) (index : Nat) (above : List (Stop Label)) :
    Cursor.Tours ⟨⟨tree, index⟩, above⟩ (tree.cursorsAt index above)
      (Cursor.climb? ⟨tree, index⟩ above) := by
  induction tree using Tree.induct generalizing index above with
  | node label span children ih =>
      let here : Stop Label := ⟨.node label span children, index⟩
      have siblings (rest : List (Tree Label)) : ∀ (first : Tree Label) (position : Nat),
          children.drop position = first :: rest →
          Cursor.Tours ⟨⟨first, position⟩, here :: above⟩
            (cursorsFrom position (here :: above) (first :: rest)) (Cursor.climb? here above) := by
        induction rest with
        | nil =>
            intro first position dropped
            have isChild : first ∈ children :=
              List.mem_of_mem_drop (dropped ▸ List.mem_singleton_self _)
            have standing : Cursor.AtSiblings ⟨⟨first, position⟩, here :: above⟩ [first] :=
              ⟨here, above, rfl, dropped⟩
            have tours := ih first isChild position (here :: above)
            rw [Cursor.climb?, Cursor.nextSibling?_eq standing] at tours
            simpa [cursorsFrom] using tours
        | cons second rest restIh =>
            intro first position dropped
            have isChild : first ∈ children :=
              List.mem_of_mem_drop (dropped ▸ List.mem_cons_self)
            have standing : Cursor.AtSiblings ⟨⟨first, position⟩, here :: above⟩
                (first :: second :: rest) := ⟨here, above, rfl, dropped⟩
            have tours := ih first isChild position (here :: above)
            rw [Cursor.climb?, Cursor.nextSibling?_eq standing] at tours
            have further : children.drop (position + 1) = second :: rest := by
              rw [← List.tail_drop, dropped, List.tail_cons]
            rw [cursorsFrom]
            exact tours.append (restIh second (position + 1) further)
      rw [cursorsAt]
      cases children with
      | nil => exact .last _
      | cons first rest => exact .next rfl (siblings rest first 0 rfl)

theorem suffix_of_mem {tree : Tree Label} (isIn : cursor ∈ tree.cursorsAt index above) :
    (⟨tree, index⟩ :: above) <:+ cursor.path := by
  induction tree using Tree.induct generalizing index above with
  | node label span children ih =>
      rw [cursorsAt_eq] at isIn
      rcases List.mem_cons.mp isIn with rfl | isBelow
      · exact List.suffix_rfl
      · obtain ⟨position, child, found, isIn⟩ := mem_cursorsFrom.mp isBelow
        have longer := ih child (List.mem_of_getElem? found) isIn
        exact (List.suffix_cons _ _).trans longer

theorem nodup_cursorsAt (tree : Tree Label) (index : Nat) (above : List (Stop Label)) :
    (tree.cursorsAt index above).Nodup := by
  induction tree using Tree.induct generalizing index above with
  | node label span children ih =>
      rw [cursorsAt_eq, List.nodup_cons]
      constructor
      · intro isBelow
        obtain ⟨position, child, -, isIn⟩ := mem_cursorsFrom.mp isBelow
        have longer := (suffix_of_mem isIn).length_le
        simp only [Cursor.path, List.length_cons] at longer
        omega
      · have siblings (trees : List (Tree Label)) (start : Nat) (stops : List (Stop Label))
            (each : ∀ tree ∈ trees, ∀ index, (tree.cursorsAt index stops).Nodup) :
            (cursorsFrom start stops trees).Nodup := by
          induction trees generalizing start with
          | nil => exact List.nodup_nil
          | cons first rest restIh =>
              rw [cursorsFrom, List.nodup_append]
              refine ⟨each first (by simp) start,
                restIh _ fun tree isIn => each tree (by simp [isIn]), ?_⟩
              rintro one isFirst _ isLater rfl
              obtain ⟨position, other, -, isOther⟩ := mem_cursorsFrom.mp isLater
              -- both stops would stand at the same height of the same path
              have same := List.suffix_of_suffix_length_le (suffix_of_mem isFirst)
                (suffix_of_mem isOther) (by simp)
              have equal := same.eq_of_length (by simp)
              simp at equal
              omega
        exact siblings _ _ _ fun child isChild index => ih child isChild index _

theorem mem_cursorsAt_child {tree child : Tree Label} {position : Nat}
    (isIn : cursor ∈ tree.cursorsAt index above)
    (found : cursor.focus.children[position]? = some child) :
    ⟨⟨child, position⟩, cursor.path⟩ ∈ tree.cursorsAt index above := by
  induction tree using Tree.induct generalizing index above with
  | node label span children ih =>
      rw [cursorsAt_eq] at isIn ⊢
      refine List.mem_cons_of_mem _ (mem_cursorsFrom.mpr ?_)
      rcases List.mem_cons.mp isIn with rfl | isBelow
      · refine ⟨position, child, found, ?_⟩
        rw [cursorsAt_eq, Nat.zero_add]
        exact List.mem_cons_self
      · obtain ⟨start, other, isChild, isIn⟩ := mem_cursorsFrom.mp isBelow
        exact ⟨start, other, isChild, ih other (List.mem_of_getElem? isChild) isIn⟩

theorem leads_of_mem {root tree : Tree Label} (leads : root.Leads (⟨tree, index⟩ :: above))
    (isIn : cursor ∈ tree.cursorsAt index above) : root.Leads cursor.path := by
  induction tree using Tree.induct generalizing index above with
  | node label span children ih =>
      rw [cursorsAt_eq] at isIn
      rcases List.mem_cons.mp isIn with rfl | isBelow
      · exact leads
      · obtain ⟨position, child, found, isIn⟩ := mem_cursorsFrom.mp isBelow
        rw [Nat.zero_add] at isIn
        have further : root.Leads
            (⟨child, position⟩ :: ⟨.node label span children, index⟩ :: above) := ⟨found, leads⟩
        exact ih child (List.mem_of_getElem? found) further isIn

/-- The cursors on a tree are those whose stops lead up to its root. -/
theorem mem_cursors {tree : Tree Label} : cursor ∈ tree.cursors ↔ tree.Leads cursor.path := by
  constructor
  · exact leads_of_mem rfl
  · obtain ⟨here, above⟩ := cursor
    induction above generalizing here with
    | nil =>
        intro isRoot
        cases (show here = ⟨tree, 0⟩ from isRoot)
        rw [cursors, cursorsAt_eq]
        exact List.mem_cons_self
    | cons parent rest ih =>
        rintro ⟨isChild, leads⟩
        exact mem_cursorsAt_child (ih parent leads) isChild

theorem focus_cursorsAt (tree : Tree Label) (index : Nat) (above : List (Stop Label)) :
    (tree.cursorsAt index above).map Cursor.focus = tree.nodes := by
  induction tree using Tree.induct generalizing index above with
  | node label span children ih =>
      have siblings (trees : List (Tree Label)) (start : Nat) (stops : List (Stop Label))
          (each : ∀ tree ∈ trees, ∀ index,
            (tree.cursorsAt index stops).map Cursor.focus = tree.nodes) :
          (cursorsFrom start stops trees).map Cursor.focus = nodesOf trees := by
        induction trees generalizing start with
        | nil => rfl
        | cons first rest restIh =>
            rw [cursorsFrom, List.map_append, each first (by simp), nodesOf,
              restIh _ fun tree isIn => each tree (by simp [isIn])]
      rw [cursorsAt, nodes, List.map_cons,
        siblings _ _ _ fun child isChild index => ih child isChild index _]
      rfl

/-! ## Offsets of inner nodes -/

mutual

/-- A tree without the offsets of the nodes that have children. -/
def bare : Tree Label → Tree Label
  | .node label span [] => .node label span []
  | .node label _ (first :: rest) => .node label (.empty 0) (bareAll (first :: rest))

/-- Some trees without the offsets of the nodes that have children. -/
def bareAll : List (Tree Label) → List (Tree Label)
  | [] => []
  | tree :: rest => tree.bare :: bareAll rest

end

end Tree

section

variable [Named Label] {source : Text} {limit : Option Nat}

theorem fold_bare (tree : Tree Label) (depth : Nat) :
    (rebuilder source limit).fold depth tree.bare = (rebuilder source limit).fold depth tree := by
  induction tree using Tree.induct generalizing depth with
  | node label span children ih =>
      cases children with
      | nil => rfl
      | cons first rest =>
          have siblings (trees : List (Tree Label))
              (each : ∀ tree ∈ trees, (rebuilder source limit).fold (depth + 1) tree.bare =
                (rebuilder source limit).fold (depth + 1) tree) :
              (rebuilder source limit).foldAll (depth + 1) (Tree.bareAll trees) =
                (rebuilder source limit).foldAll (depth + 1) trees := by
            induction trees with
            | nil => rfl
            | cons tree others othersIh =>
                rw [Tree.bareAll, Visitor.foldAll, Visitor.foldAll, each tree (by simp),
                  othersIh fun tree isIn => each tree (by simp [isIn])]
          rw [Tree.bare, Visitor.fold_eq, Visitor.fold_eq]
          simp only [Tree.children]
          rw [siblings _ fun child isChild => ih child isChild (depth + 1)]
          rfl

/-- What a tree is rebuilt to does not depend on the offsets of its inner
nodes. -/
theorem transformCursor_bare {options : Options} {one two : Tree Label}
    (same : one.bare = two.bare) :
    (transformCursor options source (.ofTree one)).map Prod.fst =
      (transformCursor options source (.ofTree two)).map Prod.fst := by
  have folds (tree : Tree Label) :
      (transformCursor options source (.ofTree tree)).map Prod.fst =
        (rebuilder source options.bounds.limit).fold 0 tree.bare := by
    rw [transformCursor, Cursor.visit_eq, fold_bare]
    change Except.map _ (Except.map _ ((rebuilder source options.bounds.limit).fold 0 tree)) = _
    cases (rebuilder source options.bounds.limit).fold 0 tree <;> rfl
  rw [folds, folds, same]

end

/-- The stops of a cursor that was started on a tree lead up to its root after
any moves, and a move that is reported to fail changes nothing.  Going on from
node to node comes to every position once, in the order in which the nodes of
the tree are listed.  Rebuilding from a cursor is the fold over the tree under
it and gives the cursor back as it was, and offsets matter at leaves only. -/
theorem cursor_follows_tree {Label : Type} [Named Label] (options : Options) (source : Text)
    (tree : Tree Label) :
    (∀ moves, tree.Leads ((Cursor.ofTree tree).after moves).path) ∧
    (∀ moves move,
      (Cursor.ofTree tree).trace (moves ++ [move]) = (Cursor.ofTree tree).trace moves ++
        [((((Cursor.ofTree tree).after moves).move? move).isSome,
          ((Cursor.ofTree tree).after (moves ++ [move])).focus)] ∧
      ((((Cursor.ofTree tree).after moves).move? move).isSome = false →
        (Cursor.ofTree tree).after (moves ++ [move]) = (Cursor.ofTree tree).after moves)) ∧
    (Cursor.Tours (.ofTree tree) tree.cursors none ∧ tree.cursors.Nodup ∧
      (∀ cursor, cursor ∈ tree.cursors ↔ tree.Leads cursor.path) ∧
      tree.preorder.map Prod.snd = tree.cursors.map Cursor.focus) ∧
    (∀ cursor : Cursor Label, transformCursor options source cursor =
      ((rebuilder source options.bounds.limit).fold 0 cursor.focus).map (·, cursor)) ∧
    ∀ other : Tree Label, other.bare = tree.bare →
      (transformCursor options source (.ofTree other)).map Prod.fst =
        (transformCursor options source (.ofTree tree)).map Prod.fst := by
  have started : tree.Leads (Cursor.ofTree tree).path := rfl
  refine ⟨fun moves => Cursor.after_leads started moves, ?_, ?_, ?_, ?_⟩
  · intro moves move
    constructor
    · rw [Cursor.trace_append, Cursor.after_append]
      rfl
    · intro fails
      have stays : ((Cursor.ofTree tree).after moves).move? move = none := by
        simpa using fails
      rw [Cursor.after_append, Cursor.after, stays]
      rfl
  · refine ⟨tree.tours_cursorsAt 0 [], tree.nodup_cursorsAt 0 [], fun _ => Tree.mem_cursors, ?_⟩
    rw [Tree.preorder_nodes, Tree.cursors, Tree.focus_cursorsAt]
  · exact fun cursor => Cursor.visit_eq _ cursor
  · exact fun other same => transformCursor_bare same

/-- An empty statement, and the same with other offsets around its
semicolon. -/
theorem cursor_follows_tree_semicolon :
    ∃ tree other : NamedTree, other.span ≠ tree.span ∧ other.bare = tree.bare ∧
      ((Cursor.ofTree tree).move? .parent).isSome = false ∧
      (Cursor.ofTree tree).after [.parent] = .ofTree tree ∧
      (transformCursor ⟨.script, ⟨none, 1, 2⟩⟩ [';'] (.ofTree other)).map Prod.fst =
        (transformCursor ⟨.script, ⟨none, 1, 2⟩⟩ [';'] (.ofTree tree)).map Prod.fst ∧
      transformCursor ⟨.script, ⟨none, 1, 2⟩⟩ [';'] (.ofTree tree) =
        .ok (.node .emptyStatement, .ofTree tree) := by
  let tree : NamedTree := .node "EmptyStatement" ⟨0, 1⟩ [.leaf ";" ⟨0, 1⟩]
  let other : NamedTree := .node "EmptyStatement" ⟨7, 3⟩ [.leaf ";" ⟨0, 1⟩]
  obtain ⟨-, moves, -, folds, offsets⟩ :=
    cursor_follows_tree ⟨.script, ⟨none, 1, 2⟩⟩ [';'] tree
  refine ⟨tree, other, by decide, rfl, rfl, (moves [] .parent).2 rfl, offsets other rfl, ?_⟩
  rw [folds]
  rfl

end ScriptTree
