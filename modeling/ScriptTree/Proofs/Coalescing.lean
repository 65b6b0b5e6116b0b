import ScriptTree.Proofs.Precedence

/-!
# Coalescing and logical or

Coalescing and logical or bind equally tightly, and less tightly than logical
and.  A chain of the two groups to the left, whichever comes first.
-/

namespace ScriptTree

open Grammar

variable {source : Text} {node left sign right : SyntaxTree} {spelling inner : Spelling}

/-- Coalescing and logical or. -/
def alternatives : List Spelling :=
  [.punctuator .coalesce, .punctuator .or]

/-- A binary expression by coalescing or by logical or, without parentheses
around it. -/
def IsAlternative (source : Text) (tree : SyntaxTree) : Prop :=
  ∃ spelling ∈ alternatives, tree.operation? source = some spelling

/-- Neither of the two operators stands to the right below one of them, nor on
any side below logical and. -/
def Coalesced (source : Text) (node : SyntaxTree) : Prop :=
  ∀ left sign right, node.children = [left, sign, right] →
    (IsAlternative source node → ¬IsAlternative source right) ∧
    (node.operation? source = some (.punctuator .and) →
      ¬IsAlternative source left ∧ ¬IsAlternative source right)

theorem alternatives_level : ∀ spelling ∈ alternatives, spelling.level = 1 := by
  decide

theorem Tree.label_of_operation (found : node.operation? source = some spelling) :
    node.label = .rule .binaryExpression := by
  unfold operation? at found
  split at found
  · rfl
  · cases found

namespace Grouped

variable (grouped : Grouped source node) (parts : node.children = [left, sign, right])
  (top : node.operation? source = some spelling)

include grouped parts top

theorem left_level (below : left.operation? source = some inner) :
    spelling.level ≤ inner.level := by
  obtain ⟨_, _, _, found, same, isTop, -, loose, -⟩ := grouped (Tree.label_of_operation top)
  cases parts.symm.trans same
  obtain rfl := Option.some.inj (top.symm.trans isTop)
  obtain ⟨-, other, isOther, le⟩ := loose (Tree.label_of_operation below)
  obtain rfl := Option.some.inj (below.symm.trans isOther)
  exact le

theorem right_level (notPower : spelling ≠ .power)
    (below : right.operation? source = some inner) : spelling.level < inner.level := by
  obtain ⟨_, _, _, found, same, isTop, -, -, tight⟩ := grouped (Tree.label_of_operation top)
  cases parts.symm.trans same
  obtain rfl := Option.some.inj (top.symm.trans isTop)
  obtain ⟨other, isOther, lt⟩ := tight (Tree.label_of_operation below)
  obtain rfl := Option.some.inj (below.symm.trans isOther)
  exact lt.resolve_right fun isPower => notPower isPower.2

end Grouped

theorem Grouped.coalesced (grouped : Grouped source node) : Coalesced source node := by
  intro left sign right parts
  constructor
  · rintro ⟨spelling, isLoose, top⟩ ⟨inner, isInner, below⟩
    have notPower : spelling ≠ .power := by
      rintro rfl
      revert isLoose
      decide
    have tighter := grouped.right_level parts top notPower below
    rw [alternatives_level _ isLoose, alternatives_level _ isInner] at tighter
    omega
  · intro top
    have level : Spelling.level (.punctuator .and) = 2 := by decide
    constructor
    · rintro ⟨inner, isInner, below⟩
      have looser := grouped.left_level parts top below
      rw [level, alternatives_level _ isInner] at looser
      omega
    · rintro ⟨inner, isInner, below⟩
      have tighter := grouped.right_level parts top (by decide) below
      rw [level, alternatives_level _ isInner] at tighter
      omega

/-! ## Chains of one level -/

/-- A variable with others joined to it one after the other. -/
def leftNested (first : Span) (links : List Link) : SyntaxTree :=
  links.foldl
    (fun left link => build .binaryExpression
      [left, .leaf link.kind link.sign, .leaf (.rule .variableName) link.operand])
    (.leaf (.rule .variableName) first)

/-- Operators of one level, other than that of `**`, group to the left. -/
theorem Joins.eq_leftNested {first : Span} {links : List Link} {tree : SyntaxTree} {level : Nat}
    (joins : Joins first links tree) (grouped : tree.Every (Grouped source))
    (notPower : level ≠ Spelling.power.level)
    (alike : ∀ link ∈ links, ∃ spelling, link.operation? source = some spelling ∧
      spelling.level = level) : tree = leftNested first links := by
  induction joins with
  | operand first => rfl
  | @join first before after links left right link leftJoins rightJoins same leftIh rightIh =>
      subst same
      obtain ⟨spelling, top, atLevel⟩ := alike link (by simp)
      have nested := leftIh (grouped.of_child left (by simp [build])) fun other isOther =>
        alike other (by simp [isOther])
      cases rightJoins with
      | operand => rw [nested, leftNested, leftNested, List.foldl_append]; rfl
      | @join _ near far _ _ _ later _ _ split =>
          -- The right operand would be joined by an operator of a higher level.
          obtain ⟨inner, below, sameLevel⟩ := alike later (by simp [split])
          have other : spelling ≠ .power := by
            rintro rfl
            exact notPower atLevel.symm
          have tighter := grouped.here.right_level rfl top other below
          omega

/-- The signs of a chain are spelled as its operators. -/
theorem chain_signs {name : Span} {links : List Link} {first : Text}
    {rest : List (Spelling × Text)}
    (same : (chainLeaves name links).map (·.span.text? source) =
      (chainWords first rest).map some) :
    List.Forall₂ (fun given link => link.sign.text? source = some given.1.chars) rest links := by
  induction links generalizing name first rest with
  | nil =>
      cases rest with
      | nil => exact .nil
      | cons given rest => simp [chainLeaves, chainWords] at same
  | cons link links ih =>
      cases rest with
      | nil => simp [chainLeaves, chainWords] at same
      | cons given rest =>
          simp only [chainLeaves, chainWords, List.flatMap_cons, List.cons_append, List.nil_append,
            List.map_cons, List.cons.injEq] at same
          obtain ⟨-, sign, operand, later⟩ := same
          have next : (chainLeaves link.operand links).map (·.span.text? source) =
              (chainWords given.2 rest).map some := by
            simp [chainLeaves, chainWords, operand, later]
          exact .cons sign (ih next)

theorem Link.operation_of_sign {link : Link} (isLoose : spelling ∈ alternatives)
    (sign : link.sign.text? source = some spelling.chars) :
    link.operation? source = some spelling := by
  have all : ∀ spelling ∈ alternatives, Spelling.ofChars? spelling.chars = some spelling := by
    decide
  rw [operation?, sign, Option.bind_some, all _ isLoose]

/-- Names with coalescing and logical or between them are grouped to the left. -/
theorem chain_leftNested {dialect : Dialect} (bounds : Bounds) {first : Text}
    {rest : List (Spelling × Text)} (unbounded : bounds.limit = none)
    (isName : IsName dialect first)
    (isChain : ∀ link ∈ rest, link.1 ∈ alternatives ∧ IsName dialect link.2) :
    ∃ name links,
      parse ⟨dialect, bounds⟩ (chainText first rest) =
        .ok (.node (.rule .script) ⟨0, Text.size (chainText first rest)⟩
          [build .expressionStatement [leftNested name links]]) ∧
      ((leftNested name links).leaves false).map (·.span.text? (chainText first rest)) =
        (chainWords first rest).map some ∧
      List.Forall₂ (fun given link =>
        link.operation? (chainText first rest) = some given.1) rest links := by
  let settings : Settings := .ofOptions ⟨dialect, bounds⟩ (chainText first rest)
  have same : settings.source = chainText first rest := rfl
  have operates : ∀ link ∈ rest, link.1.operator?.isSome = true ∧ IsName dialect link.2 := by
    intro link isLink
    obtain ⟨isLoose, named⟩ := isChain link isLink
    have all : ∀ spelling ∈ alternatives, spelling.operator?.isSome = true := by decide
    exact ⟨all _ isLoose, named⟩
  obtain ⟨name, links, tree, run, joins, leaves⟩ :=
    chain_whole same rfl unbounded isName operates
  have statement := (parseWith_grouped rfl run).of_child (build .expressionStatement [tree])
    (List.mem_singleton.mpr rfl)
  have grouped := statement.of_child tree (by simp [build])
  have isLoose : ∀ given ∈ rest, given.1 ∈ alternatives := fun given isGiven =>
    (isChain given isGiven).1
  have spelled := (List.forall₂_and_left _ _).mpr ⟨isLoose, chain_signs (joins.leaves_eq ▸ leaves)⟩
  have signs := spelled.imp fun given link both => Link.operation_of_sign both.1 both.2
  have levels : List.Forall₂ (fun link given =>
      (∃ spelling, link.operation? (chainText first rest) = some spelling ∧ spelling.level = 1) ∧
      given.1 ∈ alternatives) links rest :=
    spelled.flip.imp fun link given both =>
      ⟨⟨given.1, Link.operation_of_sign both.1 both.2, alternatives_level _ both.1⟩, both.1⟩
  have alike := ((List.forall₂_and_left _ _).mp levels).1
  obtain rfl := joins.eq_leftNested grouped (by decide) alike
  exact ⟨name, links, run, leaves, signs⟩

/-- No operand of a logical or is a coalescing without parentheses. -/
def CoalescingLoosest (source : Text) (node : SyntaxTree) : Prop :=
  ∀ left sign right, node.children = [left, sign, right] →
    node.operation? source = some (.punctuator .or) →
    left.operation? source ≠ some (.punctuator .coalesce) ∧
    right.operation? source ≠ some (.punctuator .coalesce)

theorem isName_letter : ∀ letter ∈ ['a', 'b', 'c', 'd'], IsName .script [letter] := by
  intro letter isLetter
  simp only [List.mem_cons, List.not_mem_nil, or_false] at isLetter
  rcases isLetter with rfl | rfl | rfl | rfl <;> exact ⟨by decide, by decide, by decide⟩

/-- A coalescing stands below the logical or behind it. -/
theorem parse_coalesce_below_or :
    ∃ tree, parse ⟨.script, ⟨none, 1, 2⟩⟩ "a ?? b || c".toList = .ok tree ∧
      ¬tree.Every (CoalescingLoosest "a ?? b || c".toList) := by
  have isChain : ∀ link ∈ [(Spelling.punctuator .coalesce, ['b']), (.punctuator .or, ['c'])],
      link.1 ∈ alternatives ∧ IsName .script link.2 := by
    simpa using ⟨⟨by decide, isName_letter 'b' (by simp)⟩, by decide, isName_letter 'c' (by simp)⟩
  obtain ⟨name, links, run, -, signs⟩ := chain_leftNested ⟨none, 1, 2⟩ rfl
    (isName_letter 'a' (by simp)) isChain
  refine ⟨_, run, fun loosest => ?_⟩
  obtain _ | ⟨coalesce, _ | ⟨either, _ | _⟩⟩ := signs
  have statement := loosest.of_child _ (List.mem_singleton.mpr rfl)
  have top := (statement.of_child _ (List.mem_singleton.mpr rfl)).here
  exact (top _ _ _ rfl either).1 coalesce

/-- In every text that is read, coalescing and logical or bind equally tightly,
and less tightly than logical and.  Names with the two operators between them,
in any mix, are read from left to right. -/
theorem parse_coalesces (dialect : Dialect) :
    (∀ bounds source tree, parse ⟨dialect, bounds⟩ source = .ok tree →
      tree.Every (Coalesced source)) ∧
    ∀ (bounds : Bounds) (first : Text) (rest : List (Spelling × Text)), bounds.limit = none →
      IsName dialect first → (∀ link ∈ rest, link.1 ∈ alternatives ∧ IsName dialect link.2) →
      ∃ name links,
        parse ⟨dialect, bounds⟩ (chainText first rest) =
          .ok (.node (.rule .script) ⟨0, Text.size (chainText first rest)⟩
            [build .expressionStatement [leftNested name links]]) ∧
        ((leftNested name links).leaves false).map (·.span.text? (chainText first rest)) =
          (chainWords first rest).map some ∧
        List.Forall₂ (fun given link =>
          link.operation? (chainText first rest) = some given.1) rest links := by
  constructor
  · intro bounds source tree run
    have grouped : tree.Every (Grouped source) := parseWith_grouped rfl run
    exact grouped.mono fun _ => Grouped.coalesced
  · intro bounds first rest unbounded isName isChain
    exact chain_leftNested bounds unbounded isName isChain

theorem parse_coalesces_mixed :
    (∀ link ∈ [(Spelling.punctuator .or, ['b']), (.punctuator .coalesce, ['c']),
        (.punctuator .or, ['d'])], link.1 ∈ alternatives ∧ IsName .script link.2) ∧
    (∃ name links,
      parse ⟨.script, ⟨none, 1, 2⟩⟩ "a || b ?? c || d".toList =
        .ok (.node (.rule .script) ⟨0, 16⟩ [build .expressionStatement [leftNested name links]]) ∧
      ((leftNested name links).leaves false).map (·.span.text? "a || b ?? c || d".toList) =
        ["a", "||", "b", "??", "c", "||", "d"].map (fun word => some word.toList) ∧
      (leftNested name links).Every (Coalesced "a || b ?? c || d".toList)) := by
  have isChain : ∀ link ∈ [(Spelling.punctuator .or, ['b']), (.punctuator .coalesce, ['c']),
      (.punctuator .or, ['d'])], link.1 ∈ alternatives ∧ IsName .script link.2 := by
    simpa using ⟨⟨by decide, isName_letter 'b' (by simp)⟩, ⟨by decide, isName_letter 'c' (by simp)⟩,
      by decide, isName_letter 'd' (by simp)⟩
  obtain ⟨every, accepted⟩ := parse_coalesces .script
  obtain ⟨name, links, run, leaves, -⟩ :=
    accepted ⟨none, 1, 2⟩ ['a'] _ rfl (isName_letter 'a' (by simp)) isChain
  have statement := (every _ _ _ run).of_child (build .expressionStatement [leftNested name links])
    (List.mem_singleton.mpr rfl)
  exact ⟨isChain, name, links, run, leaves, statement.of_child _ (by simp [build])⟩

end ScriptTree
