import Mathlib.Data.List.Forall2
import ScriptTree.Proofs.Tree
import ScriptTree.Tree.Visit

/-!
# Visits as folds

A visit moves a cursor through a tree, but what it computes follows the tree
itself.  The steps it is given are always enough, and the cursor comes back to
the node it was started on.
-/

namespace ScriptTree

variable {Label Error Value : Type}

namespace Visitor

mutual

/-- What a visitor yields for a tree at some depth. -/
def fold (visitor : Visitor Label Error Value) (depth : Nat) : Tree Label → Except Error Value
  | .node label span children => do
      visitor.enter depth (.node label span children)
      visitor.leave depth (.node label span children)
        (← foldAll visitor (depth + 1) children)

/-- What a visitor yields for some trees next to each other. -/
def foldAll (visitor : Visitor Label Error Value) (depth : Nat) :
    List (Tree Label) → Except Error (List Value)
  | [] => .ok []
  | tree :: rest => do
      let value ← fold visitor depth tree
      return value :: (← foldAll visitor depth rest)

end

theorem fold_eq (visitor : Visitor Label Error Value) (depth : Nat) (tree : Tree Label) :
    visitor.fold depth tree = visitor.enter depth tree >>= fun _ =>
      visitor.foldAll (depth + 1) tree.children >>= visitor.leave depth tree := by
  cases tree
  rw [fold]
  rfl

/-- A visit that succeeds enters the tree, visits its children and leaves it. -/
theorem fold_runs {visitor : Visitor Label Error Value} {depth : Nat} {tree : Tree Label}
    {value : Value} (run : visitor.fold depth tree = .ok value) :
    visitor.enter depth tree = .ok () ∧ ∃ below,
      visitor.foldAll (depth + 1) tree.children = .ok below ∧
        visitor.leave depth tree below = .ok value := by
  rw [fold_eq] at run
  cases entered : visitor.enter depth tree with
  | error error =>
      rw [entered] at run
      cases run
  | ok _ =>
      rw [entered] at run
      cases folded : visitor.foldAll (depth + 1) tree.children with
      | error error =>
          rw [folded] at run
          cases run
      | ok below =>
          rw [folded] at run
          exact ⟨rfl, below, rfl, run⟩

theorem fold_entered {visitor : Visitor Label Error Value} {depth : Nat} {tree : Tree Label}
    {value : Value} (run : visitor.fold depth tree = .ok value) :
    visitor.enter depth tree = .ok () :=
  (fold_runs run).1

theorem fold_ok {visitor : Visitor Label Error Value} {depth : Nat} {tree : Tree Label}
    {value : Value} (run : visitor.fold depth tree = .ok value) :
    ∃ below, visitor.foldAll (depth + 1) tree.children = .ok below ∧
      visitor.leave depth tree below = .ok value :=
  (fold_runs run).2

theorem foldAll_cons_ok {visitor : Visitor Label Error Value} {depth : Nat} {tree : Tree Label}
    {rest : List (Tree Label)} {values : List Value}
    (run : visitor.foldAll depth (tree :: rest) = .ok values) :
    ∃ first later, visitor.fold depth tree = .ok first ∧
      visitor.foldAll depth rest = .ok later ∧ values = first :: later := by
  rw [foldAll] at run
  cases folded : visitor.fold depth tree with
  | error error =>
      rw [folded] at run
      cases run
  | ok first =>
      rw [folded] at run
      cases foldedRest : visitor.foldAll depth rest with
      | error error =>
          rw [foldedRest] at run
          cases run
      | ok later =>
          rw [foldedRest] at run
          cases run
          exact ⟨first, later, rfl, rfl, rfl⟩

/-- Trees are related to their values one by one if each tree is related to
whatever it yields. -/
theorem foldAll_related {visitor : Visitor Label Error Value} {depth : Nat}
    {related : Tree Label → Value → Prop} {trees : List (Tree Label)} {values : List Value}
    (each : ∀ tree ∈ trees, ∀ value, visitor.fold depth tree = .ok value → related tree value)
    (run : visitor.foldAll depth trees = .ok values) : List.Forall₂ related trees values := by
  induction trees generalizing values with
  | nil =>
      cases run
      exact .nil
  | cons tree rest ih =>
      obtain ⟨first, later, folded, foldedRest, rfl⟩ := foldAll_cons_ok run
      exact .cons (each tree (by simp) first folded)
        (ih (fun tree isIn => each tree (by simp [isIn])) foldedRest)

theorem foldAll_error {visitor : Visitor Label Error Value} {depth : Nat}
    {trees : List (Tree Label)} {error : Error}
    (run : visitor.foldAll depth trees = .error error) :
    ∃ tree ∈ trees, visitor.fold depth tree = .error error := by
  induction trees with
  | nil => cases run
  | cons tree rest ih =>
      rw [foldAll] at run
      cases folded : visitor.fold depth tree with
      | error other =>
          rw [folded] at run
          cases run
          exact ⟨tree, by simp, folded⟩
      | ok value =>
          rw [folded] at run
          cases foldedRest : visitor.foldAll depth rest with
          | error other =>
              rw [foldedRest] at run
              cases run
              obtain ⟨other, isIn, failed⟩ := ih foldedRest
              exact ⟨other, by simp [isIn], failed⟩
          | ok values =>
              rw [foldedRest] at run
              cases run

theorem mem_foldAll {visitor : Visitor Label Error Value} {depth : Nat}
    {trees : List (Tree Label)} {values : List Value}
    (run : visitor.foldAll depth trees = .ok values) :
    (∀ tree ∈ trees, ∃ value, visitor.fold depth tree = .ok value) ∧
      ∀ value ∈ values, ∃ tree ∈ trees, visitor.fold depth tree = .ok value := by
  induction trees generalizing values with
  | nil =>
      cases run
      simp
  | cons tree rest ih =>
      obtain ⟨first, later, folded, foldedRest, rfl⟩ := foldAll_cons_ok run
      obtain ⟨trees, values⟩ := ih foldedRest
      refine ⟨by simpa using ⟨⟨first, folded⟩, trees⟩, ?_⟩
      intro value isIn
      rcases List.mem_cons.mp isIn with rfl | isLater
      · exact ⟨tree, by simp, folded⟩
      · obtain ⟨other, isOther, run⟩ := values value isLater
        exact ⟨other, by simp [isOther], run⟩

end Visitor

namespace Tree

theorem nodeCount_eq (tree : Tree Label) : tree.nodeCount = nodeCountAll tree.children + 1 := by
  cases tree
  rw [nodeCount]
  rfl

end Tree

namespace Cursor

/-- The cursor stands on the first of some siblings. -/
def AtSiblings (cursor : Cursor Label) (siblings : List (Tree Label)) : Prop :=
  ∃ parent rest, cursor.above = parent :: rest ∧
    parent.tree.children.drop cursor.here.index = siblings

theorem nextSibling?_eq {cursor : Cursor Label} {first : Tree Label} {later : List (Tree Label)}
    (standing : cursor.AtSiblings (first :: later)) :
    cursor.nextSibling? = later.head?.map fun sibling =>
      ⟨⟨sibling, cursor.here.index + 1⟩, cursor.above⟩ := by
  obtain ⟨parent, rest, above, siblings⟩ := standing
  have next : parent.tree.children[cursor.here.index + 1]? = later.head? := by
    rw [← List.head?_drop, ← List.tail_drop, siblings, List.tail_cons]
  unfold nextSibling?
  rw [above]
  simp only [next]

/-- With so many steps a visit of a node yields what the fold does and comes back
to the node. -/
def VisitsNodes (visitor : Visitor Label Error Value) (fuel : Nat) : Prop :=
  ∀ (depth : Nat) (cursor : Cursor Label), 2 * cursor.focus.nodeCount ≤ fuel + 1 →
    visitNode visitor fuel depth cursor =
      (visitor.fold depth cursor.focus).map fun value => (value, cursor)

/-- With so many steps a visit of siblings yields what the fold does and stays
below the same parent. -/
def VisitsSiblings (visitor : Visitor Label Error Value) (fuel : Nat) : Prop :=
  ∀ (depth : Nat) (cursor : Cursor Label) (later : List (Tree Label)) (earlier : List Value),
    cursor.AtSiblings (cursor.focus :: later) →
    2 * Tree.nodeCountAll (cursor.focus :: later) ≤ fuel →
    ∃ last : Cursor Label, last.above = cursor.above ∧
      visitSiblings visitor fuel depth cursor earlier =
        (visitor.foldAll depth (cursor.focus :: later)).map fun values =>
          (earlier.reverse ++ values, last)

variable {visitor : Visitor Label Error Value} {fuel : Nat}

theorem VisitsSiblings.nodes (siblings : VisitsSiblings visitor fuel) :
    VisitsNodes visitor (fuel + 1) := by
  intro depth cursor enough
  rw [visitNode, Visitor.fold_eq]
  cases visitor.enter depth cursor.focus with
  | error fault => rfl
  | ok entered =>
      cases same : cursor.focus.children with
      | nil =>
          have none : cursor.firstChild? = none := by simp [firstChild?, same]
          rw [none]
          change Except.bind _ _ = Except.map _ (visitor.leave depth cursor.focus [])
          cases visitor.leave depth cursor.focus [] <;> rfl
      | cons first later =>
          let child : Cursor Label := ⟨⟨first, 0⟩, cursor.here :: cursor.above⟩
          have some : cursor.firstChild? = some child := by simp [firstChild?, same, child]
          have enoughBelow : 2 * Tree.nodeCountAll (first :: later) ≤ fuel := by
            have := cursor.focus.nodeCount_eq
            rw [← same]
            omega
          obtain ⟨last, above, below⟩ := siblings (depth + 1) child later []
            ⟨cursor.here, cursor.above, rfl, same⟩ enoughBelow
          have back : last.parent?.getD last = cursor := by simp [parent?, above, child]
          change visitSiblings visitor fuel (depth + 1) child [] =
            (visitor.foldAll (depth + 1) (first :: later)).map _ at below
          rw [some]
          change Except.bind (visitSiblings visitor fuel (depth + 1) child []) _ =
            Except.map _ (Except.bind (visitor.foldAll (depth + 1) (first :: later)) _)
          rw [below]
          cases visitor.foldAll (depth + 1) (first :: later) with
          | error fault => rfl
          | ok values =>
              change Except.bind (visitor.leave depth cursor.focus values)
                (fun value => .ok (value, last.parent?.getD last)) =
                  (visitor.leave depth cursor.focus values).map _
              rw [back]
              cases visitor.leave depth cursor.focus values <;> rfl

theorem VisitsSiblings.succ (nodes : VisitsNodes visitor fuel)
    (siblings : VisitsSiblings visitor fuel) : VisitsSiblings visitor (fuel + 1) := by
  intro depth cursor later earlier standing enough
  have next := nextSibling?_eq standing
  have count := cursor.focus.nodeCount_eq
  rw [Tree.nodeCountAll] at enough
  rw [visitSiblings, Visitor.foldAll, nodes depth cursor (by omega)]
  cases visitor.fold depth cursor.focus with
  | error fault => exact ⟨cursor, rfl, rfl⟩
  | ok value =>
      cases later with
      | nil =>
          refine ⟨cursor, rfl, ?_⟩
          simp [next, Visitor.foldAll, bind, Except.bind, Except.map, pure, Except.pure]
      | cons sibling others =>
          let after : Cursor Label := ⟨⟨sibling, cursor.here.index + 1⟩, cursor.above⟩
          obtain ⟨parent, rest, above, same⟩ := standing
          have standing : after.AtSiblings (sibling :: others) := by
            refine ⟨parent, rest, above, ?_⟩
            rw [← List.tail_drop, same, List.tail_cons]
          obtain ⟨last, sameAbove, run⟩ := siblings depth after others (value :: earlier) standing
            (by change 2 * Tree.nodeCountAll (sibling :: others) ≤ fuel; omega)
          refine ⟨last, sameAbove, ?_⟩
          change visitSiblings visitor fuel depth after (value :: earlier) =
            (visitor.foldAll depth (sibling :: others)).map _ at run
          simp only [next, List.head?_cons, Option.map_some, bind, Except.bind, Except.map]
          change visitSiblings visitor fuel depth after (value :: earlier) = _
          rw [run]
          cases visitor.foldAll depth (sibling :: others) with
          | error fault => rfl
          | ok values => simp [Except.map, pure, Except.pure]

/-- The two halves of a visit agree with the two halves of a fold if the steps
are enough. -/
theorem visit_fold (visitor : Visitor Label Error Value) (fuel : Nat) :
    VisitsNodes visitor fuel ∧ VisitsSiblings visitor fuel := by
  induction fuel with
  | zero =>
      constructor
      · intro depth cursor enough
        have := cursor.focus.nodeCount_eq
        omega
      · intro depth cursor later earlier _ enough
        have := cursor.focus.nodeCount_eq
        rw [Tree.nodeCountAll] at enough
        omega
  | succ fuel ih => exact ⟨ih.2.nodes, .succ ih.1 ih.2⟩

/-- A visit yields what the fold over the tree under the cursor does, and
returns the cursor unmoved. -/
theorem visit_eq (visitor : Visitor Label Error Value) (cursor : Cursor Label) :
    cursor.visit visitor = (visitor.fold 0 cursor.focus).map fun value => (value, cursor) :=
  (visit_fold visitor _).1 0 cursor (by omega)

theorem visit_ok {visitor : Visitor Label Error Value} {cursor after : Cursor Label} {value : Value}
    (run : cursor.visit visitor = .ok (value, after)) :
    visitor.fold 0 cursor.focus = .ok value ∧ after = cursor := by
  rw [visit_eq] at run
  cases folded : visitor.fold 0 cursor.focus with
  | error error =>
      rw [folded] at run
      cases run
  | ok found =>
      rw [folded] at run
      cases run
      exact ⟨rfl, rfl⟩

end Cursor

namespace Tree

mutual

/-- Every node of a tree, parents before children and children from left to
right. -/
def nodes : Tree Label → List (Tree Label)
  | .node label span children => .node label span children :: nodesOf children

/-- Every node of some trees. -/
def nodesOf : List (Tree Label) → List (Tree Label)
  | [] => []
  | tree :: rest => nodes tree ++ nodesOf rest

end

theorem nodesOf_eq (trees : List (Tree Label)) : nodesOf trees = trees.flatMap nodes := by
  induction trees with
  | nil => rfl
  | cons tree rest ih => rw [nodesOf, ih, List.flatMap_cons]

theorem nodes_eq (tree : Tree Label) : tree.nodes = tree :: tree.children.flatMap nodes := by
  cases tree
  rw [nodes, nodesOf_eq]
  rfl

theorem listedAll_eq (depth : Nat) (trees : List (Tree Label)) :
    listedAll depth trees = trees.flatMap (listed depth) := by
  induction trees with
  | nil => rfl
  | cons tree rest ih => rw [listedAll, ih, List.flatMap_cons]

/-- The listing finds each node of a tree once. -/
theorem listed_nodes (tree : Tree Label) (depth : Nat) :
    (tree.listed depth).map Prod.snd = tree.nodes := by
  induction tree using Tree.induct generalizing depth with
  | node label span children ih =>
      rw [listed, nodes, listedAll_eq, nodesOf_eq, List.map_cons, List.map_flatMap]
      exact congrArg _ (List.flatMap_congr fun child isChild => ih child isChild (depth + 1))

theorem preorder_nodes (tree : Tree Label) : tree.preorder.map Prod.snd = tree.nodes :=
  tree.listed_nodes 0

/-- What holds of a tree at its depth, and goes on to the children below, holds
of every node that is listed. -/
theorem holds_of_listed {motive : Nat → Tree Label → Prop}
    (below : ∀ depth tree, motive depth tree → ∀ child ∈ tree.children, motive (depth + 1) child)
    {tree : Tree Label} {start : Nat} (here : motive start tree) :
    ∀ entry ∈ tree.listed start, motive entry.1 entry.2 := by
  induction tree using Tree.induct generalizing start with
  | node label span children ih =>
      intro entry isIn
      rw [listed, listedAll_eq] at isIn
      rcases List.mem_cons.mp isIn with rfl | isLower
      · exact here
      · obtain ⟨child, isChild, isIn⟩ := List.mem_flatMap.mp isLower
        exact ih child isChild (below _ _ here child isChild) entry isIn

/-- A visit that succeeds yields a value for every node at its depth. -/
theorem fold_of_listed {visitor : Visitor Label Error Value} {tree : Tree Label} {value : Value}
    (run : visitor.fold 0 tree = .ok value) :
    ∀ entry ∈ tree.preorder, ∃ value, visitor.fold entry.1 entry.2 = .ok value := by
  have below (depth : Nat) (tree : Tree Label)
      (here : ∃ value, visitor.fold depth tree = .ok value) :
      ∀ child ∈ tree.children, ∃ value, visitor.fold (depth + 1) child = .ok value := by
    intro child isChild
    obtain ⟨_, run⟩ := here
    obtain ⟨_, folded, -⟩ := Visitor.fold_ok run
    exact (Visitor.mem_foldAll folded).1 child isChild
  exact holds_of_listed below ⟨value, run⟩

def lister : Visitor Label Unit (List (Nat × Tree Label)) where
  enter _ _ := .ok ()
  leave depth tree below := .ok ((depth, tree) :: below.flatten)
  stalled := ()

theorem lister_foldAll {trees : List (Tree Label)} {depth : Nat}
    (each : ∀ tree ∈ trees, lister.fold depth tree = .ok (tree.listed depth)) :
    lister.foldAll depth trees = .ok (trees.map (listed depth)) := by
  induction trees with
  | nil => rfl
  | cons tree rest ih =>
      rw [Visitor.foldAll, each tree (by simp), ih fun tree isIn => each tree (by simp [isIn])]
      rfl

theorem lister_fold (tree : Tree Label) (depth : Nat) :
    lister.fold depth tree = .ok (tree.listed depth) := by
  induction tree using Tree.induct generalizing depth with
  | node label span children ih =>
      rw [Visitor.fold, lister_foldAll fun child isChild => ih child isChild (depth + 1), listed,
        listedAll_eq, List.flatMap_def]
      rfl

/-- A visit comes to every node of a tree in the order of the listing. -/
theorem preorder_eq (tree : Tree Label) :
    (Cursor.ofTree tree).visit lister = .ok (tree.preorder, .ofTree tree) := by
  rw [Cursor.visit_eq]
  change (lister.fold 0 tree).map _ = _
  rw [lister_fold]
  rfl

end Tree

end ScriptTree
