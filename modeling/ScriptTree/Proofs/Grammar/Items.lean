import ScriptTree.Proofs.Grammar.Groups
import ScriptTree.Proofs.Grammar.Retry

/-!
# Items between commas

The arguments of a call, the elements of an array and the parts of a sequence
are groups with commas between them.  Each round of their loops reads one of
them, and the trees that are collected mean the items in their order.
-/

namespace ScriptTree

namespace Grammar

open Estree

variable {settings : Settings} {point middle last : Point} {token comma closing : Token}
  {expression : Node} {steps rounds : Nat}

/-- An expression that can be read wherever its words stand. -/
structure Ready (settings : Settings) (expression : Node) : Prop where
  isExpression : IsExpression settings.dialect expression
  reads : Reads settings expression

/-- Trees mean some fragments one by one, and stand behind others. -/
structure Collects (source : Text) (trees all : Array SyntaxTree) (given : List Fragment)
    (more : List SyntaxTree) : Prop where
  order : all.toList = trees.toList ++ more
  means : List.Forall₂ (Means source) more given

namespace Collects

variable {source : Text} {trees all : Array SyntaxTree} {tree : SyntaxTree}
  {given first : List Fragment} {more : List SyntaxTree} {fragment : Fragment}

theorem none : Collects source trees trees [] [] :=
  ⟨(List.append_nil _).symm, .nil⟩

/-- One more tree stands in front of the others. -/
theorem push (means : Means source tree fragment)
    (collects : Collects source (trees.push tree) all given more) :
    Collects source trees all (fragment :: given) (tree :: more) :=
  ⟨by rw [collects.order, Array.toList_push, List.append_assoc]; rfl, .cons means collects.means⟩

/-- Brackets stand around what is collected between them. -/
theorem enclosed {opening closing : SyntaxTree} {start finish : Fragment}
    (collects : Collects source #[opening] all given more) (opens : Means source opening start)
    (closes : Means source closing finish) :
    List.Forall₂ (Means source) (all.push closing).toList (start :: (given ++ [finish])) := by
  rw [Array.toList_push, collects.order]
  exact .cons opens (List.rel_append collects.means (.cons closes .nil))

end Collects

def commaLeaf (comma : Token) : SyntaxTree :=
  .leaf (.fixed (.punctuator .comma)) comma.span

theorem means_comma (sized : settings.size = Text.size settings.source)
    (inText : point.InText settings) (next : point.next settings.dialect = .ok comma)
    (isComma : comma.kind = .punctuator .comma) :
    Means settings.source (commaLeaf comma) (.token ",") :=
  means_sign sized inText next isComma

theorem commaEnd_again (next : point.next settings.dialect = .ok comma)
    (isComma : comma.kind = .punctuator .comma) (trees : Array SyntaxTree) :
    Arrives settings (commaEnd trees) point
      (.again (trees.push (commaLeaf comma))) (.after comma) :=
  .bind (.accept_some next (isPunctuator_true isComma)) (.pure _)

theorem commaEnd_done (next : point.next settings.dialect = .ok closing)
    (notComma : closing.isPunctuator .comma = false) (trees : Array SyntaxTree) :
    Arrives settings (commaEnd trees) point (.done trees) point :=
  .bind (.accept_none next notComma) (.pure _)

/-! ## Arguments -/

section

variable (unbounded : settings.limit = none) (sized : settings.size = Text.size settings.source)

include unbounded sized

/-- A group is read as an item of a list. -/
theorem group_item (ready : Ready settings expression)
    (enough : 2 * expression.words.length + 3 ≤ steps) (inText : point.InText settings)
    (words : Words settings point (grouped expression.words) last)
    (behind : last.next settings.dialect = .ok token) (ends : endsOperand token.kind = true) :
    ∃ opening tree, point.next settings.dialect = .ok opening ∧
      opening.kind = .punctuator .leftParen ∧ Conveys settings.source tree expression ∧
      Arrives settings ((within (steps + 1)).read .assignment) point tree last ∧
      Arrives settings (element (within (steps + 1))) point tree last := by
  obtain ⟨opening, -, -, next, opens, -⟩ := words.grouped_cases
  obtain ⟨tree, conveys, arrives⟩ := group_assignment unbounded sized ready.isExpression ready.reads
    enough inText words behind ends
  have reads : Arrives settings ((within (steps + 1)).read .assignment) point tree last := arrives
  refine ⟨opening, tree, next, opens, conveys, reads, ?_⟩
  exact .bind (.accept_none next (isPunctuator_of_kind opens (by decide))) reads

/-- A round reads a group as an argument; what follows it ends the round. -/
theorem argumentRound_item (ready : Ready settings expression)
    (enough : 2 * expression.words.length + 3 ≤ steps) (inText : point.InText settings)
    (words : Words settings point (grouped expression.words) middle)
    (behind : middle.next settings.dialect = .ok token) (ends : endsOperand token.kind = true) :
    ∃ tree, Conveys settings.source tree expression ∧
      ∀ {trees : Array SyntaxTree} {result : Round (Array SyntaxTree) (Array SyntaxTree)},
        Arrives settings (commaEnd (trees.push tree)) middle result last →
          Arrives settings (argumentRound (within (steps + 1)) trees) point result last := by
  obtain ⟨opening, tree, next, opens, conveys, -, arrives⟩ :=
    group_item unbounded sized ready enough inText words behind ends
  refine ⟨tree, conveys, fun finish => .bind (.nextIs next _) ?_⟩
  rw [isPunctuator_of_kind opens (by decide)]
  exact .bind arrives finish

/-- The arguments of a call are read one by one. -/
theorem arguments_items {arguments : List Node} (trees : Array SyntaxTree)
    (ready : ∀ argument ∈ arguments, Ready settings argument)
    (enough : 2 * (separated (Node.phrases arguments)).length ≤ steps)
    (several : arguments.length < rounds) (inText : point.InText settings)
    (words : Words settings point (separated (Node.phrases arguments)) last)
    (behind : last.next settings.dialect = .ok closing)
    (closes : closing.kind = .punctuator .rightParen) :
    ∃ all more, Collects settings.source trees all
        (((arguments.map some).intersperse none).map Fragment.entry) more ∧
      Arrives settings (iterate (argumentRound (within (steps + 1))) rounds trees) point all
        last := by
  obtain ⟨rounds, rfl⟩ : ∃ fewer, rounds = fewer + 1 := ⟨rounds - 1, by omega⟩
  induction arguments generalizing point trees rounds with
  | nil =>
      cases words
      refine ⟨trees, [], .none, .iterate_done (by omega) (.bind (.nextIs behind _) ?_)⟩
      rw [isPunctuator_true closes]
      exact .pure _
  | cons argument others ih =>
      have here := ready argument List.mem_cons_self
      have ends : endsOperand closing.kind = true := by rw [closes]; rfl
      cases others with
      | nil =>
          have group : Words settings point (grouped argument.words) last := by
            simpa [Node.phrases, separated] using words
          have few : 2 * argument.words.length + 3 ≤ steps := by
            simp [Node.phrases, separated, grouped] at enough
            omega
          obtain ⟨tree, conveys, round⟩ :=
            argumentRound_item unbounded sized here few inText group behind ends
          exact ⟨trees.push tree, [tree], .push conveys.means .none,
            .iterate_done (by omega) (round (commaEnd_done behind
              (isPunctuator_of_kind closes (by decide)) _))⟩
      | cons second others =>
          rw [separated_phrases] at words enough
          obtain ⟨middle, group, rest⟩ := words.append_cases
          obtain ⟨comma, follows, isComma, rest⟩ := rest.sign_cases .comma
          simp only [List.length_append, List.length_cons, grouped_length] at enough
          have few : 2 * argument.words.length + 3 ≤ steps := by omega
          obtain ⟨tree, conveys, round⟩ := argumentRound_item unbounded sized here few inText group
            follows (by rw [isComma]; rfl)
          have inMiddle := group.inText inText
          obtain ⟨fewer, rfl⟩ : ∃ fewer, rounds = fewer + 1 :=
            ⟨rounds - 1, by simp at several; omega⟩
          obtain ⟨all, more, collects, arrives⟩ := ih ((trees.push tree).push (commaLeaf comma))
            (fun other isIn => ready other (List.mem_cons_of_mem argument isIn)) (by omega)
            (inMiddle.after follows) rest fewer (by simpa using several)
          exact ⟨all, tree :: commaLeaf comma :: more,
            .push conveys.means (.push (means_comma sized inMiddle follows isComma) collects),
            .iterate_again (round (commaEnd_again follows isComma _)) arrives⟩

end

/-! ## Elements -/

def elementEnd (trees : Array SyntaxTree) :
    Parse (Round (Array SyntaxTree) (Array SyntaxTree)) := do
  if ← nextIs .rightBracket then
    return .again trees
  else
    return .again (trees.push (← expect .comma))

def elementRound (descent : Descent) (trees : Array SyntaxTree) :
    Parse (Round (Array SyntaxTree) (Array SyntaxTree)) := do
  if ← nextIs .rightBracket then
    return .done trees
  match ← accept? .comma with
  | some comma => return .again (trees.push comma)
  | none =>
      let tree ← element descent
      elementEnd (trees.push tree)

theorem array_rounds (descent : Descent) : array descent = Parse.withIn (do
    let opening ← expect .leftBracket
    let trees ← iterate (elementRound descent) descent.rounds #[opening]
    let closing ← expect .rightBracket
    return build .arrayExpression (trees.push closing).toList) :=
  rfl

theorem elementEnd_comma (next : point.next settings.dialect = .ok comma)
    (isComma : comma.kind = .punctuator .comma) (trees : Array SyntaxTree) :
    Arrives settings (elementEnd trees) point (.again (trees.push (commaLeaf comma)))
      (.after comma) := by
  refine .bind (.nextIs next _) ?_
  rw [isPunctuator_of_kind isComma (by decide)]
  exact .bind (.expect next (isPunctuator_true isComma)) (.pure _)

theorem elementEnd_last (next : point.next settings.dialect = .ok closing)
    (closes : closing.kind = .punctuator .rightBracket) (trees : Array SyntaxTree) :
    Arrives settings (elementEnd trees) point (.again trees) point := by
  refine .bind (.nextIs next _) ?_
  rw [isPunctuator_true closes]
  exact .pure _

/-- A comma with no element in front of it. -/
theorem elementRound_hole {descent : Descent} (next : point.next settings.dialect = .ok comma)
    (isComma : comma.kind = .punctuator .comma) (trees : Array SyntaxTree) :
    Arrives settings (elementRound descent trees) point
      (.again (trees.push (commaLeaf comma))) (.after comma) := by
  refine .bind (.nextIs next _) ?_
  rw [isPunctuator_of_kind isComma (by decide)]
  exact .bind (.accept_some next (isPunctuator_true isComma)) (.pure _)

theorem elementRound_done {descent : Descent} (next : point.next settings.dialect = .ok closing)
    (closes : closing.kind = .punctuator .rightBracket) (trees : Array SyntaxTree) :
    Arrives settings (elementRound descent trees) point (.done trees) point := by
  refine .bind (.nextIs next _) ?_
  rw [isPunctuator_true closes]
  exact .pure _

section

variable (unbounded : settings.limit = none) (sized : settings.size = Text.size settings.source)

include unbounded sized

/-- A round reads a group as an element; what follows it ends the round. -/
theorem elementRound_item (ready : Ready settings expression)
    (enough : 2 * expression.words.length + 3 ≤ steps) (inText : point.InText settings)
    (words : Words settings point (grouped expression.words) middle)
    (behind : middle.next settings.dialect = .ok token) (ends : endsOperand token.kind = true) :
    ∃ tree, Conveys settings.source tree expression ∧
      ∀ {trees : Array SyntaxTree} {result : Round (Array SyntaxTree) (Array SyntaxTree)},
        Arrives settings (elementEnd (trees.push tree)) middle result last →
          Arrives settings (elementRound (within (steps + 1)) trees) point result last := by
  obtain ⟨opening, tree, next, opens, conveys, -, arrives⟩ :=
    group_item unbounded sized ready enough inText words behind ends
  refine ⟨tree, conveys, fun finish => .bind (.nextIs next _) ?_⟩
  rw [isPunctuator_of_kind opens (by decide)]
  exact .bind (.accept_none next (isPunctuator_of_kind opens (by decide))) (.bind arrives finish)

/-- The elements of an array are read one by one, and commas show the holes. -/
theorem elements_items {elements : List (Option Node)} (trees : Array SyntaxTree)
    (ready : ∀ element, some element ∈ elements → Ready settings element)
    (enough : 2 * (slotted (Node.slots elements)).length ≤ steps)
    (several : elements.length < rounds) (inText : point.InText settings)
    (words : Words settings point (slotted (Node.slots elements)) last)
    (behind : last.next settings.dialect = .ok closing)
    (closes : closing.kind = .punctuator .rightBracket) :
    ∃ all more, Collects settings.source trees all ((slotItems elements).map Fragment.entry) more ∧
      Arrives settings (iterate (elementRound (within (steps + 1))) rounds trees) point all
        last := by
  obtain ⟨rounds, rfl⟩ : ∃ fewer, rounds = fewer + 1 := ⟨rounds - 1, by omega⟩
  induction elements using slotItems.induct generalizing point trees rounds with
  | case1 =>
      cases words
      exact ⟨trees, [], .none, .iterate_done (by omega) (elementRound_done behind closes trees)⟩
  | case2 element =>
      simp only [Node.slots, slotted, grouped_length] at words enough
      have here := ready element List.mem_cons_self
      have few : 2 * element.words.length + 3 ≤ steps := by omega
      obtain ⟨tree, conveys, round⟩ := elementRound_item unbounded sized here few inText words
        behind (by rw [closes]; rfl)
      exact ⟨trees.push tree, [tree], .push conveys.means .none,
        .iterate_again (round (elementEnd_last behind closes _))
          (.iterate_done (by simp at several; omega) (elementRound_done behind closes _))⟩
  | case3 element others more ih =>
      have here := ready element List.mem_cons_self
      have behindHere : Node.slots others ≠ [] := by
        rw [Node.slots_eq]
        simpa using more
      rw [Node.slots, slotted_cons _ behindHere] at words enough
      obtain ⟨middle, group, rest⟩ := words.append_cases
      obtain ⟨comma, follows, isComma, rest⟩ := rest.sign_cases .comma
      simp only [List.length_append, List.length_cons, grouped_length] at enough
      have few : 2 * element.words.length + 3 ≤ steps := by omega
      obtain ⟨tree, conveys, round⟩ := elementRound_item unbounded sized here few inText group
        follows (by rw [isComma]; rfl)
      have inMiddle := group.inText inText
      obtain ⟨fewer, rfl⟩ : ∃ fewer, rounds = fewer + 1 := ⟨rounds - 1, by simp at several; omega⟩
      obtain ⟨all, items, collects, arrives⟩ := ih ((trees.push tree).push (commaLeaf comma))
        (fun other isIn => ready other (List.mem_cons_of_mem _ isIn)) (by omega)
        (inMiddle.after follows) rest fewer (by simpa using several)
      rw [slotItems]
      · exact ⟨all, tree :: commaLeaf comma :: items,
          .push conveys.means (.push (means_comma sized inMiddle follows isComma) collects),
          .iterate_again (round (elementEnd_comma follows isComma _)) arrives⟩
      · exact more
  | case4 others ih =>
      rw [Node.slots, slotted] at words enough
      obtain ⟨comma, follows, isComma, rest⟩ := words.sign_cases .comma
      simp only [List.length_cons] at enough
      obtain ⟨fewer, rfl⟩ : ∃ fewer, rounds = fewer + 1 := ⟨rounds - 1, by simp at several; omega⟩
      obtain ⟨all, items, collects, arrives⟩ := ih (trees.push (commaLeaf comma))
        (fun other isIn => ready other (List.mem_cons_of_mem _ isIn)) (by omega)
        (inText.after follows) rest fewer (by simpa using several)
      exact ⟨all, commaLeaf comma :: items,
        .push (means_comma sized inText follows isComma) collects,
        .iterate_again (elementRound_hole follows isComma trees) arrives⟩

end

/-! ## Sequences -/

section

variable (unbounded : settings.limit = none) (sized : settings.size = Text.size settings.source)

include unbounded sized

/-- The parts of a sequence behind its first one are read one by one. -/
theorem sequence_items {others : List Node} (trees : Array SyntaxTree)
    (ready : ∀ other ∈ others, Ready settings other)
    (enough : 2 * ((Node.phrases others).flatMap fun phrase => [','] :: phrase).length ≤ steps)
    (several : others.length < rounds) (inText : point.InText settings)
    (words : Words settings point ((Node.phrases others).flatMap fun phrase => [','] :: phrase)
      last)
    (behind : last.next settings.dialect = .ok closing) (ends : endsOperand closing.kind = true)
    (notComma : closing.isPunctuator .comma = false) :
    ∃ all more, Collects settings.source trees all
        (others.flatMap fun other => [.token ",", .node other]) more ∧
      Arrives settings (iterate (sequenceRound (within (steps + 1))) rounds trees) point all
        last := by
  obtain ⟨rounds, rfl⟩ : ∃ fewer, rounds = fewer + 1 := ⟨rounds - 1, by omega⟩
  induction others generalizing point trees rounds with
  | nil =>
      cases words
      exact ⟨trees, [], .none,
        .iterate_done (by omega) (.bind (.accept_none behind notComma) (.pure _))⟩
  | cons other others ih =>
      rw [Node.phrases, List.flatMap_cons, List.cons_append] at words enough
      obtain ⟨comma, follows, isComma, rest⟩ := words.sign_cases .comma
      obtain ⟨middle, group, rest⟩ := rest.append_cases
      simp only [List.length_append, List.length_cons, grouped_length] at enough
      have few : 2 * other.words.length + 3 ≤ steps := by omega
      -- What follows the group is a comma or the closing token.
      have follower : ∃ token, middle.next settings.dialect = .ok token ∧
          endsOperand token.kind = true := by
        cases others with
        | nil =>
            cases rest
            exact ⟨closing, behind, ends⟩
        | cons second others =>
            rw [Node.phrases, List.flatMap_cons, List.cons_append] at rest
            obtain ⟨token, next, kind, -⟩ := rest.sign_cases .comma
            exact ⟨token, next, by rw [kind]; rfl⟩
      obtain ⟨token, next, endsToken⟩ := follower
      obtain ⟨-, tree, -, -, conveys, reads, -⟩ :=
        group_item unbounded sized (ready other List.mem_cons_self) few (inText.after follows) group
          next endsToken
      obtain ⟨fewer, rfl⟩ : ∃ fewer, rounds = fewer + 1 := ⟨rounds - 1, by simp at several; omega⟩
      obtain ⟨all, more, collects, arrives⟩ := ih ((trees.push (commaLeaf comma)).push tree)
        (fun found isIn => ready found (List.mem_cons_of_mem other isIn)) (by omega)
        (group.inText (inText.after follows)) rest fewer (by simpa using several)
      exact ⟨all, commaLeaf comma :: tree :: more,
        .push (means_comma sized inText follows isComma) (.push conveys.means collects),
        .iterate_again (.bind (.accept_some follows (isPunctuator_true isComma))
          (.bind reads (.pure _))) arrives⟩

end

/-! ## How many there are -/

theorem length_le_flatMap (others : List Node) :
    others.length ≤ ((Node.phrases others).flatMap fun phrase => [','] :: phrase).length := by
  induction others with
  | nil => exact Nat.le_refl 0
  | cons other others ih =>
      rw [Node.phrases, List.flatMap_cons, List.cons_append, List.length_cons, List.length_cons,
        List.length_append]
      omega

theorem length_le_separated (arguments : List Node) :
    arguments.length ≤ (separated (Node.phrases arguments)).length := by
  cases arguments with
  | nil => exact Nat.le_refl 0
  | cons first others =>
      have more := length_le_flatMap others
      rw [Node.phrases, separated_cons, List.length_append, grouped_length, List.length_cons]
      omega

theorem length_le_slotted (elements : List (Option Node)) :
    elements.length ≤ (slotted (Node.slots elements)).length := by
  induction elements with
  | nil => exact Nat.le_refl 0
  | cons element others ih =>
      cases element with
      | none =>
          rw [Node.slots, slotted, List.length_cons, List.length_cons]
          omega
      | some element =>
          rw [Node.slots, List.length_cons]
          cases others with
          | nil => simp [Node.slots, slotted]
          | cons second others =>
              rw [slotted_cons _ (by cases second <;> simp [Node.slots])]
              simp only [List.length_append, List.length_cons] at ih ⊢
              omega

end Grammar

end ScriptTree
