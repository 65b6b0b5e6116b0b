import ScriptTree.Proofs.Estree.Schema
import ScriptTree.Proofs.Rebuild.Agreement
import ScriptTree.Proofs.Rebuild.Builds

/-!
# Labels and fragments side by side

A rule sees the fragments below a node, the grammar fixes the labels of the
children they came from.  Matching the two lists from the back tells which
label each fragment came from, and so which slot its node conforms to.
-/

namespace ScriptTree

open Estree
open Fragment (flag option behind)

/-! ## Fragments and slots -/

def Rule.slot? : Rule → Option Slot
  | .script => some .program
  | .block | .finallyClause => some .block
  | .variableDeclaration => some .declaration
  | .classBody => some .classBody
  | .methodDeclaration => some .method
  | .catchClause => some .handler
  | .caseLabel | .defaultLabel => some .case
  | .property => some .property
  | .spread => some .spread
  | .templateString => some .template
  | .templateContent => some (.quasi false)
  | .functionExpression => some .function
  | .number | .string | .regExp => some .literal
  | .variableDefinition | .propertyName | .propertyDefinition | .label => some .name
  | rule =>
      if rule.isStatement then some .statement
      else if rule.isExpression then some .expression
      else none

/-- Parameters, of which only the last can be a rest element. -/
def ConformingParams (nodes : List Node) : Prop :=
  ∃ (plain : List Node) (last : Option Node), nodes = plain ++ last.toList ∧
    (∀ node ∈ plain, Conforms .param node) ∧ ∀ node ∈ last, Conforms .rest node

def LoopHead.Conforms : LoopHead → Prop
  | .counting init test update => (∀ node ∈ init, Estree.Conforms .loopStart node) ∧
      (∀ node ∈ test, Estree.Conforms .expression node) ∧
      ∀ node ∈ update, Estree.Conforms .expression node
  | .overKeys left right | .overValues left right =>
      Estree.Conforms .loopStart left ∧ Estree.Conforms .expression right

namespace Kind

/-- What a fragment holds conforms to the slots of the label it came from. -/
def Sorts (kind : Kind) : Fragment → Prop
  | .node node => ∀ rule, kind = .rule rule → ∀ slot ∈ rule.slot?, Conforms slot node
  | .list nodes =>
      (kind = .rule .argList → ∀ node ∈ nodes, Conforms .element node) ∧
      (kind = .rule .switchBody → ∀ node ∈ nodes, Conforms .case node) ∧
      (kind = .rule .paramList → ConformingParams nodes)
  | .loop head => head.Conforms
  | .token _ => True

/-- A fragment that a label can turn into in a text that was read. -/
structure Fits (kind : Kind) (fragment : Fragment) : Prop where
  yields : kind.Yields fragment
  sorts : kind.Sorts fragment

namespace Fits

variable {kind : Kind} {rule : Rule} {node : Node} {text : String}

theorem conforms {slot : Slot} (fits : Fits (.rule rule) (.node node))
    (isSlot : rule.slot? = some slot) : Conforms slot node :=
  fits.sorts rule rfl slot isSlot

theorem isNode_eq (fits : kind.Fits (.node node)) : kind.isNode = true :=
  fits.yields.isNode_eq

theorem mayBe (fits : kind.Fits (.token text)) : kind.mayBe text = true :=
  fits.yields.mayBe

theorem expression (fits : kind.Fits (.node node)) (isExpression : kind.isExpression = true) :
    Conforms .expression node := by
  cases kind with
  | fixed spelling => cases isExpression
  | rule rule =>
      cases rule
      case number => exact .literalValue (fits.conforms rfl)
      case string => exact .literalValue (fits.conforms rfl)
      case regExp => exact .literalValue (fits.conforms rfl)
      case functionExpression => exact .functionValue (fits.conforms rfl)
      case templateString => exact .templateValue (fits.conforms rfl)
      all_goals first
        | exact fits.conforms rfl
        | cases isExpression

theorem statement (fits : kind.Fits (.node node)) (isStatement : kind.isStatement = true) :
    Conforms .statement node := by
  cases kind with
  | fixed spelling => cases isStatement
  | rule rule =>
      cases rule
      case block => exact .block (fits.conforms rfl)
      case variableDeclaration => exact .declaration (fits.conforms rfl)
      all_goals first
        | exact fits.conforms rfl
        | cases isStatement

theorem element (fits : kind.Fits (.node node)) (isElement : kind.isElement = true) :
    Conforms .element node := by
  simp only [Kind.isElement, Bool.or_eq_true, beq_iff_eq] at isElement
  rcases isElement with isExpression | rfl
  · exact .expressionElement (fits.expression isExpression)
  · exact .spreadInElements (fits.conforms rfl)

theorem entry (fits : kind.Fits (.node node)) (isEntry : kind.isEntry = true) :
    Conforms .property node := by
  simp only [Kind.isEntry, Bool.or_eq_true, beq_iff_eq] at isEntry
  rcases isEntry with rfl | rfl
  · exact fits.conforms rfl
  · exact .spreadInProperties (fits.conforms rfl)

theorem key (fits : kind.Fits (.node node)) (isKey : kind.isKey = true) :
    Conforms (.key false) node := by
  simp only [Kind.isKey, Bool.or_eq_true, beq_iff_eq] at isKey
  rcases isKey with (rfl | rfl) | rfl
  · exact .namedKey (fits.conforms rfl)
  · exact .literalKey (fits.conforms rfl)
  · exact .literalKey (fits.conforms rfl)

theorem not_token (isNode : kind.isNode = true) : ¬kind.Fits (.token text) := by
  intro fits
  have mayBe := fits.mayBe
  rw [Kind.mayBe_of_isNode isNode] at mayBe
  cases mayBe

end Fits

end Kind

/-! ## Labels and fragments side by side -/

section Matching

open Shape Take Rebuild

variable {kinds inner : List Kind} {given items : List Fragment} {node : Node}

theorem forall₂_snoc {First Second : Type} {holds : First → Second → Prop} {firsts : List First}
    {seconds : List Second} {first : First} {second : Second} :
    List.Forall₂ holds (firsts ++ [first]) (seconds ++ [second]) ↔
      List.Forall₂ holds firsts seconds ∧ holds first second := by
  rw [← List.forall₂_reverse_iff]
  simp [and_comm]

theorem forall₂_bracketed {opening closing : Kind} {first last : Fragment}
    (fits : List.Forall₂ Kind.Fits (opening :: (inner ++ [closing])) (first :: items ++ [last])) :
    List.Forall₂ Kind.Fits inner items := by
  rw [List.cons_append, List.forall₂_cons, forall₂_snoc] at fits
  exact fits.2.1

theorem exists_fits {fragment : Fragment} (fits : List.Forall₂ Kind.Fits kinds given)
    (isIn : fragment ∈ given) : ∃ kind ∈ kinds, kind.Fits fragment := by
  induction fits with
  | nil => cases isIn
  | cons first rest ih =>
      rcases List.mem_cons.mp isIn with rfl | later
      · exact ⟨_, List.mem_cons_self, first⟩
      · obtain ⟨kind, member, fits⟩ := ih later
        exact ⟨kind, List.mem_cons_of_mem _ member, fits⟩

theorem exists_fragment {kind : Kind} (fits : List.Forall₂ Kind.Fits kinds given)
    (isIn : kind ∈ kinds) : ∃ fragment ∈ given, kind.Fits fragment := by
  induction fits with
  | nil => cases isIn
  | cons first rest ih =>
      rcases List.mem_cons.mp isIn with rfl | later
      · exact ⟨_, List.mem_cons_self, first⟩
      · obtain ⟨fragment, member, fits⟩ := ih later
        exact ⟨fragment, List.mem_cons_of_mem _ member, fits⟩

theorem mem_of_between {separator : String} {nodes : List Node}
    (between : Between separator items nodes) : ∀ node ∈ nodes, .node node ∈ items := by
  induction between with
  | nil => simp
  | separator earlier ih => simpa using ih
  | node given earlier ih =>
      intro found isIn
      rcases List.mem_append.mp isIn with isEarlier | isLast
      · exact List.mem_append_left _ (ih found isEarlier)
      · rw [List.mem_singleton.mp isLast]
        simp

theorem mem_of_arrayItems {elements : List (Option Node)} {isAfter : Bool}
    (isItems : ArrayItems items elements isAfter) :
    ∀ node, some node ∈ elements → .node node ∈ items := by
  induction isItems with
  | nil => simp
  | comma earlier ih => simpa using ih
  | hole earlier ih => simpa using ih
  | element element earlier ih =>
      intro found isIn
      rcases List.mem_append.mp isIn with isEarlier | isLast
      · exact List.mem_append_left _ (ih found isEarlier)
      · obtain rfl : found = element := Option.some.inj (List.mem_singleton.mp isLast)
        simp

/-- A node among separators came from a label of the sort that stands among
them. -/
theorem exists_sort {sort : Kind → Bool} {separator : Kind}
    (many : Many (OneOr sort separator) inner)
    (separates : separator.isNode = false) (fits : List.Forall₂ Kind.Fits inner items)
    (isIn : .node node ∈ items) : ∃ kind, sort kind = true ∧ kind.Fits (.node node) := by
  obtain ⟨kind, member, fit⟩ := exists_fits fits isIn
  obtain ⟨parts, all, rfl⟩ := many
  obtain ⟨part, isPart, inPart⟩ := List.mem_flatten.mp member
  rcases all part isPart with ⟨found, isSort, rfl⟩ | rfl
  · rw [List.mem_singleton.mp inPart] at fit
    exact ⟨found, isSort, fit⟩
  · rw [List.mem_singleton.mp inPart] at fit
    rw [fit.isNode_eq] at separates
    cases separates

theorem many_snoc_cases {item : Language} (many : Many item kinds) :
    kinds = [] ∨ ∃ earlier part, Many item earlier ∧ item part ∧ kinds = earlier ++ part := by
  obtain ⟨parts, all, rfl⟩ := many
  induction parts using List.reverseRecOn with
  | nil => exact .inl rfl
  | append_singleton earlier part _ =>
      refine .inr ⟨earlier.flatten, part, ⟨earlier, fun part isIn => all part ?_, rfl⟩,
        all part (by simp), by simp⟩
      exact List.mem_append_left _ isIn

/-- A part that may be missing before a token. -/
theorem option_matched {part rest : List Kind} {spelling : Spelling} {found : Option Node}
    {text : String} {later : List Fragment}
    (isPart : part = [] ∨ ∃ kind, kind.isNode = true ∧ part = [kind])
    (fits : List.Forall₂ Kind.Fits (part ++ .fixed spelling :: rest)
      (option found ++ .token text :: later)) :
    List.Forall₂ Kind.Fits part (option found) ∧ List.Forall₂ Kind.Fits rest later := by
  rcases isPart with rfl | ⟨kind, isNode, rfl⟩
  · cases found with
    | none => exact ⟨.nil, (List.forall₂_cons.mp fits).2⟩
    | some node => cases (List.forall₂_cons.mp fits).1.isNode_eq
  · cases found with
    | none => exact absurd (List.forall₂_cons.mp fits).1 (Kind.Fits.not_token isNode)
    | some node =>
        obtain ⟨first, others⟩ := List.forall₂_cons.mp fits
        exact ⟨.cons first .nil, (List.forall₂_cons.mp others).2⟩

/-- The value behind a bound name, or what else can follow its label. -/
theorem declarator_matched {part : List Kind} {fragments : List Fragment}
    (isPart : Shape.Declarator part) (item : Rebuild.Declarator fragments node)
    (fits : List.Forall₂ Kind.Fits part fragments) : Conforms .declarator node := by
  obtain ⟨id, init, rfl, rfl⟩ := item
  rcases isPart with rfl | ⟨value, isExpression, rfl⟩
  · cases init with
    | none =>
        refine .variableDeclarator ((List.forall₂_cons.mp fits).1.conforms rfl) ?_
        simp
    | some init => cases (List.forall₂_cons.mp fits).2
  · obtain ⟨isName, rest⟩ := List.forall₂_cons.mp fits
    cases init with
    | none => cases rest
    | some init =>
        have isValue := (List.forall₂_cons.mp (List.forall₂_cons.mp rest).2).1
        refine .variableDeclarator (isName.conforms rfl) ?_
        simpa using isValue.expression isExpression

theorem fits_comma {fragment : Fragment} (fits : Kind.Fits (sign .comma) fragment) :
    fragment = .token "," :=
  fits.yields

/-- The last commas on both sides belong together. -/
theorem split_at_comma {earlier later : List Kind} {before behind : List Fragment}
    (noLabel : ∀ kind ∈ later, ¬kind.Fits (.token ",")) (noToken : .token "," ∉ behind)
    (fits : List.Forall₂ Kind.Fits (earlier ++ sign .comma :: later)
      (before ++ .token "," :: behind)) :
    List.Forall₂ Kind.Fits earlier before ∧ List.Forall₂ Kind.Fits later behind := by
  induction later using List.reverseRecOn generalizing behind with
  | nil =>
      rcases List.eq_nil_or_concat' behind with rfl | ⟨init, last, rfl⟩
      · exact ⟨(forall₂_snoc.mp fits).1, .nil⟩
      · rw [← List.cons_append, ← List.append_assoc] at fits
        have last := fits_comma (forall₂_snoc.mp fits).2
        exact absurd (by simp [last]) noToken
  | append_singleton labels label ih =>
      rcases List.eq_nil_or_concat' behind with rfl | ⟨init, last, rfl⟩
      · rw [← List.cons_append, ← List.append_assoc] at fits
        exact absurd (forall₂_snoc.mp fits).2 (noLabel label (by simp))
      · rw [← List.cons_append, ← List.append_assoc, ← List.cons_append,
          ← List.append_assoc] at fits
        obtain ⟨others, lasts⟩ := forall₂_snoc.mp fits
        obtain ⟨first, second⟩ := ih (fun kind isIn => noLabel kind (by simp [isIn]))
          (fun isIn => noToken (by simp [isIn])) others
        exact ⟨first, forall₂_snoc.mpr ⟨second, lasts⟩⟩

section Commas

variable {language : Language} {Item : List Fragment → Node → Prop} {slot : Slot}

/-- Items between commas are matched one by one. -/
theorem commas_matched {nodes : List Node}
    (noLabel : ∀ part, language part → ∀ kind ∈ part, ¬kind.Fits (.token ","))
    (noToken : ∀ part node, Item part node → .token "," ∉ part)
    (each : ∀ part fragments node, language part → Item fragments node →
      List.Forall₂ Kind.Fits part fragments → Conforms slot node)
    (separated : Separated language inner) (commas : Commas Item items nodes)
    (fits : List.Forall₂ Kind.Fits inner items) : ∀ node ∈ nodes, Conforms slot node := by
  induction commas generalizing inner with
  | @first part node item =>
      obtain ⟨earlier, last, many, isLast, rfl⟩ := separated
      rcases many_snoc_cases many with rfl | ⟨_, _, _, ⟨kept, _, rfl⟩, rfl⟩
      · rw [List.forall_mem_singleton]
        exact each _ _ _ isLast item fits
      · have comma : Kind.Fits (sign .comma) (.token ",") := ⟨rfl, trivial⟩
        obtain ⟨fragment, isIn, fit⟩ := exists_fragment fits
          (by simp : sign .comma ∈ _ ++ (kept ++ [sign .comma]) ++ last)
        rw [fits_comma fit] at isIn
        exact absurd isIn (noToken _ _ item)
  | @comma items part nodes node earlier item ih =>
      obtain ⟨firsts, last, many, isLast, rfl⟩ := separated
      rcases many_snoc_cases many with rfl | ⟨most, _, isMost, ⟨kept, isKept, rfl⟩, rfl⟩
      · obtain ⟨kind, isIn, fit⟩ := exists_fits fits (by simp : .token "," ∈ _)
        exact absurd fit (noLabel _ isLast kind isIn)
      · have split := split_at_comma (noLabel _ isLast) (noToken _ _ item)
          (by simpa using fits : List.Forall₂ Kind.Fits ((most ++ kept) ++ sign .comma :: last) _)
        have before := ih ⟨most, kept, isMost, isKept, rfl⟩ split.1
        simp only [List.mem_append, List.mem_singleton, or_imp, forall_and, forall_eq]
        exact ⟨before, each _ _ _ isLast item split.2⟩

end Commas

theorem comma_not_in_declarator {part : List Kind} (isPart : Shape.Declarator part) :
    ∀ kind ∈ part, ¬kind.Fits (.token ",") := by
  intro kind isIn fits
  have mayBe := fits.mayBe
  rcases isPart with rfl | ⟨value, isExpression, rfl⟩
  · rw [List.mem_singleton.mp isIn] at mayBe
    cases mayBe
  · simp only [List.mem_cons, List.not_mem_nil, or_false] at isIn
    rcases isIn with rfl | rfl | rfl
    · cases mayBe
    · cases mayBe
    · rw [Kind.mayBe_of_isNode (Kind.isNode_of_isWhole
        (Kind.isWhole_of_isExpression isExpression))] at mayBe
      cases mayBe

theorem declarators_conform {nodes : List Node} (separated : Separated Shape.Declarator inner)
    (commas : Commas Rebuild.Declarator items nodes) (fits : List.Forall₂ Kind.Fits inner items) :
    ∀ node ∈ nodes, Conforms .declarator node := by
  refine commas_matched (fun part => comma_not_in_declarator) ?_
    (fun _ _ _ => declarator_matched) separated commas fits
  rintro _ _ ⟨id, init, rfl, rfl⟩
  cases init <;> simp

theorem sequence_conforms {nodes : List Node} (separated : Separated (One Kind.isExpression) inner)
    (commas : Commas (fun part node => part = [.node node]) items nodes)
    (fits : List.Forall₂ Kind.Fits inner items) : ∀ node ∈ nodes, Conforms .expression node := by
  refine commas_matched ?_ ?_ ?_ separated commas fits
  · rintro _ ⟨kind, isExpression, rfl⟩ found isIn
    rw [List.mem_singleton.mp isIn]
    exact Kind.Fits.not_token (Kind.isNode_of_isWhole (Kind.isWhole_of_isExpression isExpression))
  · rintro _ node rfl
    simp
  · rintro _ _ node ⟨kind, isExpression, rfl⟩ rfl fits
    exact (List.forall₂_cons.mp fits).1.expression isExpression

theorem commas_length {Item : List Fragment → Node → Prop} {nodes : List Node}
    (commas : Commas Item items nodes) : nodes ≠ [] := by
  cases commas <;> simp

theorem sequence_length {nodes : List Node}
    (commas : Commas (fun part node => part = [.node node]) items nodes)
    (long : 1 < items.length) : 2 ≤ nodes.length := by
  cases commas with
  | first item =>
      subst item
      simp at long
  | @comma items part nodes node earlier item =>
      have nonempty := commas_length earlier
      have positive := List.length_pos_iff.mpr nonempty
      simp only [List.length_append, List.length_singleton]
      omega

/-! ### Parameters -/

theorem isNode_of_isExpression {kind : Kind} (isExpression : kind.isExpression = true) :
    kind.isNode = true :=
  Kind.isNode_of_isWhole (Kind.isWhole_of_isExpression isExpression)

theorem not_fits_nil {kind : Kind} {earlier : List Kind}
    (fits : List.Forall₂ Kind.Fits (earlier ++ [kind]) []) : False := by
  cases earlier <;> cases fits

/-- The only token that parameters end in is a comma. -/
theorem parameterItems_token {params : List Node} {text : String}
    (isItems : ParameterItems items params) (ends : items.getLast? = some (.token text)) :
    text = "," := by
  cases isItems with
  | nil => cases ends
  | comma earlier => simpa using ends.symm
  | rest target earlier => simp at ends
  | plain param earlier => simp at ends
  | initialized target value earlier => simp at ends

/-- The last label before some fragment that ends parameters. -/
theorem many_parameter_token {text : String} (many : Many Parameter inner)
    (fits : List.Forall₂ Kind.Fits inner (items ++ [.token text])) : text = "," := by
  rcases many_snoc_cases many with rfl | ⟨earlier, part, _, isPart, rfl⟩
  · cases items <;> cases fits
  · rcases isPart with rfl | rfl | ⟨value, isExpression, rfl⟩
    · exact Fragment.token.inj (fits_comma (forall₂_snoc.mp fits).2)
    · exact absurd (forall₂_snoc.mp fits).2 (Kind.Fits.not_token rfl)
    · rw [List.append_cons, List.append_cons] at fits
      exact absurd (forall₂_snoc.mp fits).2
        (Kind.Fits.not_token (isNode_of_isExpression isExpression))

theorem params_conform {params : List Node} (many : Many Parameter inner)
    (isItems : ParameterItems items params) (fits : List.Forall₂ Kind.Fits inner items) :
    ∀ node ∈ params, Conforms .param node := by
  induction isItems generalizing inner with
  | nil => simp
  | @comma items params earlier ih =>
      rcases many_snoc_cases many with rfl | ⟨before, part, isMany, isPart, rfl⟩
      · cases items <;> cases fits
      rcases isPart with rfl | rfl | ⟨value, isExpression, rfl⟩
      · exact ih isMany (forall₂_snoc.mp fits).1
      · exact absurd (forall₂_snoc.mp fits).2 (Kind.Fits.not_token rfl)
      · rw [List.append_cons, List.append_cons] at fits
        exact absurd (forall₂_snoc.mp fits).2
          (Kind.Fits.not_token (isNode_of_isExpression isExpression))
  | @rest items params target earlier ih =>
      rw [List.append_cons] at fits
      rcases many_snoc_cases many with rfl | ⟨before, part, isMany, isPart, rfl⟩
      · cases items <;> cases fits
      rcases isPart with rfl | rfl | ⟨value, isExpression, rfl⟩
      · cases (forall₂_snoc.mp fits).2.isNode_eq
      · exact absurd (many_parameter_token isMany (forall₂_snoc.mp fits).1) (by decide)
      · rw [List.append_cons, List.append_cons] at fits
        cases (forall₂_snoc.mp (forall₂_snoc.mp fits).1).2.mayBe
  | @plain items params param earlier ih =>
      rcases many_snoc_cases many with rfl | ⟨before, part, isMany, isPart, rfl⟩
      · cases items <;> cases fits
      rcases isPart with rfl | rfl | ⟨value, isExpression, rfl⟩
      · cases (forall₂_snoc.mp fits).2.isNode_eq
      · obtain ⟨others, isName⟩ := forall₂_snoc.mp fits
        simp only [List.mem_append, List.mem_singleton, or_imp, forall_and, forall_eq]
        exact ⟨ih isMany others, .namedParam (isName.conforms rfl)⟩
      · -- A value stands behind a sign that parameters do not end in.
        rw [List.append_cons, List.append_cons] at fits
        obtain ⟨others, -⟩ := forall₂_snoc.mp fits
        rcases List.eq_nil_or_concat' items with rfl | ⟨most, last, rfl⟩
        · cases (not_fits_nil others)
        · have sign : last = .token "=" := (forall₂_snoc.mp others).2.yields
          have comma : "=" = "," := parameterItems_token earlier (by simp [sign])
          exact absurd comma (by decide)
  | @initialized items params target value earlier ih =>
      rw [List.append_cons, List.append_cons] at fits
      rcases many_snoc_cases many with rfl | ⟨before, part, isMany, isPart, rfl⟩
      · cases items <;> cases fits
      rcases isPart with rfl | rfl | ⟨kind, isExpression, rfl⟩
      · cases (forall₂_snoc.mp fits).2.isNode_eq
      · exact absurd (many_parameter_token isMany (forall₂_snoc.mp fits).1) (by decide)
      · rw [List.append_cons before, List.append_cons] at fits
        obtain ⟨others, isValue⟩ := forall₂_snoc.mp fits
        obtain ⟨others, -⟩ := forall₂_snoc.mp others
        obtain ⟨others, isName⟩ := forall₂_snoc.mp others
        simp only [List.mem_append, List.mem_singleton, or_imp, forall_and, forall_eq]
        exact ⟨ih isMany others,
          .assignmentPattern (isName.conforms rfl) (isValue.expression isExpression)⟩

theorem paramList_conforms {params : List Node} {rest : List Kind} (many : Many Parameter inner)
    (isRest : rest = [] ∨ RestParameter rest) (isItems : ParameterItems items params)
    (fits : List.Forall₂ Kind.Fits (inner ++ rest) items) : ConformingParams params := by
  rcases isRest with rfl | rfl
  · rw [List.append_nil] at fits
    exact ⟨params, none, by simp, params_conform many isItems fits, by simp⟩
  rw [List.append_cons] at fits
  cases isItems with
  | nil => cases not_fits_nil fits
  | comma earlier => exact absurd (forall₂_snoc.mp fits).2 (Kind.Fits.not_token rfl)
  | @rest items params target earlier =>
      rw [List.append_cons items] at fits
      obtain ⟨others, isName⟩ := forall₂_snoc.mp fits
      refine ⟨params, some (.restElement target), rfl,
        params_conform many earlier (forall₂_snoc.mp others).1, ?_⟩
      simpa using .restElement (isName.conforms rfl)
  | @plain items params param earlier =>
      obtain ⟨others, -⟩ := forall₂_snoc.mp fits
      rcases List.eq_nil_or_concat' items with rfl | ⟨most, last, rfl⟩
      · cases (not_fits_nil others)
      · have dots : last = .token "..." := (forall₂_snoc.mp others).2.yields
        have comma : "..." = "," := parameterItems_token earlier (by simp [dots])
        exact absurd comma (by decide)
  | @initialized items params target value earlier =>
      rw [List.append_cons items, List.append_cons (items ++ _)] at fits
      cases (forall₂_snoc.mp (forall₂_snoc.mp fits).1).2.mayBe

/-! ### Cases, templates and keys -/

/-- A case starts a list of statements, and a statement goes to the last
case. -/
theorem addToCases_conforms {cases after : List Node}
    (isPart : Conforms .case node ∨ Conforms .statement node)
    (all : ∀ found ∈ cases, Conforms .case found) (added : addToCases cases node = some after) :
    ∀ found ∈ after, Conforms .case found := by
  rcases isPart with isCase | isStatement
  · cases isCase with
    | switchCase value statements =>
        cases added
        simpa using ⟨.switchCase value statements, all⟩
  · unfold addToCases at added
    split at added
    · have home : Slot.case ∈ Slot.statement.takes := isStatement.home_mem
      exact absurd home (by decide)
    · cases added
      obtain ⟨last, earlier⟩ := List.forall_mem_cons.mp all
      refine List.forall_mem_cons.mpr ⟨?_, earlier⟩
      cases last with
      | switchCase value statements =>
          refine .switchCase value fun found isIn => ?_
          rcases List.mem_append.mp isIn with isEarlier | isLast
          · exact statements found isEarlier
          · rw [List.mem_singleton.mp isLast]
            exact isStatement
    · cases added

theorem caseItems_conform {cases : List Node}
    (all : ∀ node, .node node ∈ items → Conforms .case node ∨ Conforms .statement node)
    (isItems : CaseItems items cases) : ∀ node ∈ cases, Conforms .case node := by
  induction isItems with
  | nil => simp
  | add node earlier added ih =>
      exact addToCases_conforms (all node (by simp))
        (ih fun found isIn => all found (by simp [isIn])) added

theorem cases_conform {cases : List Node} (isCases : Shape.Cases inner)
    (isItems : CaseItems items cases) (fits : List.Forall₂ Kind.Fits inner items) :
    ∀ node ∈ cases, Conforms .case node := by
  refine caseItems_conform (fun node isIn => ?_) isItems
  obtain ⟨kind, member, fit⟩ := exists_fits fits isIn
  have allowed :
      kind.isStatement = true ∨ kind = .rule .caseLabel ∨ kind = .rule .defaultLabel := by
    rcases isCases with rfl | ⟨label, rest, isLabel, all, rfl⟩
    · cases member
    · rcases List.mem_cons.mp member with rfl | later
      · exact .inr isLabel
      · exact all kind later
  rcases allowed with isStatement | rfl | rfl
  · exact .inr (fit.statement isStatement)
  · exact .inl (fit.conforms rfl)
  · exact .inl (fit.conforms rfl)

structure ConformingParts (parts : TemplateParts) : Prop where
  texts : ∀ node ∈ parts.quasis, Conforms (.quasi false) node
  holes : ∀ node ∈ parts.expressions, Conforms .expression node
  size : parts.quasis.size = parts.expressions.size

theorem templateItems_conform {parts : TemplateParts} (many : Many Piece inner)
    (isItems : TemplateItems items parts) (fits : List.Forall₂ Kind.Fits inner items) :
    ConformingParts parts := by
  induction isItems generalizing inner with
  | nil => exact ⟨by simp, by simp, rfl⟩
  | @text items parts value isTail earlier ih =>
      rcases many_snoc_cases many with rfl | ⟨before, part, isMany, isPart, rfl⟩
      · cases items <;> cases fits
      rcases isPart with rfl | ⟨hole, isExpression, rfl⟩
      · have before := ih isMany (forall₂_snoc.mp fits).1
        exact ⟨before.texts, before.holes, before.size⟩
      · rw [List.append_cons, List.append_cons] at fits
        cases (forall₂_snoc.mp fits).2.isNode_eq
  | @hole items parts given earlier ih =>
      rw [List.append_cons, List.append_cons] at fits
      rcases many_snoc_cases many with rfl | ⟨before, part, isMany, isPart, rfl⟩
      · cases items <;> cases fits
      rcases isPart with rfl | ⟨hole, isExpression, rfl⟩
      · exact absurd (forall₂_snoc.mp fits).2 (Kind.Fits.not_token rfl)
      · rw [List.append_cons before, List.append_cons (before ++ _)] at fits
        obtain ⟨others, -⟩ := forall₂_snoc.mp fits
        obtain ⟨others, isValue⟩ := forall₂_snoc.mp others
        have before := ih isMany (forall₂_snoc.mp others).1
        refine ⟨?_, ?_, ?_⟩
        · simpa [TemplateParts.closeText, or_imp, forall_and] using ⟨before.texts, .templateElement⟩
        · simpa [TemplateParts.closeText, or_imp, forall_and] using
            ⟨before.holes, isValue.expression isExpression⟩
        · simpa [TemplateParts.closeText] using before.size

theorem template_conforms {parts : TemplateParts} (many : Many Piece inner)
    (isItems : TemplateItems items parts) (fits : List.Forall₂ Kind.Fits inner items) :
    Conforms .template
      (.templateLiteral (parts.closeText true).quasis.toList parts.expressions.toList) := by
  have conforming := templateItems_conform many isItems fits
  simp only [TemplateParts.closeText, Array.toList_push]
  refine .templateLiteral (fun node isIn => ?_) .templateElement ?_ fun node isIn => ?_
  · exact conforming.texts node (by simpa using isIn)
  · simpa using conforming.size
  · exact conforming.holes node (by simpa using isIn)

/-- A key stands last among the labels before it on both sides. -/
theorem key_conforms {words key : List Kind} {given keys : List Fragment} {isComputed : Bool}
    (isShape : Shape.Key key) (isKey : KeyOf keys node isComputed)
    (fits : List.Forall₂ Kind.Fits (words ++ key) (given ++ keys)) :
    Conforms (.key isComputed) node ∧ Conforms .expression node ∧
      key.length = keys.length := by
  obtain ⟨kind, ⟨isPlain, rfl⟩ | ⟨isExpression, rfl⟩⟩ := isShape
  · cases isKey with
    | plain =>
        have fit := (forall₂_snoc.mp fits).2
        have conforms := fit.key isPlain
        refine ⟨conforms, ?_, rfl⟩
        cases conforms with
        | namedKey isName => exact .nameValue isName
        | literalKey isLiteral => exact .literalValue isLiteral
    | computed =>
        rw [List.append_cons given, List.append_cons (given ++ _)] at fits
        exact absurd (forall₂_snoc.mp fits).2
          (Kind.Fits.not_token (Kind.isNode_of_isWhole (Kind.isWhole_of_isKey isPlain)))
  · rw [List.append_cons, List.append_cons] at fits
    cases isKey with
    | plain => cases (forall₂_snoc.mp fits).2.isNode_eq
    | computed =>
        rw [List.append_cons given, List.append_cons (given ++ _)] at fits
        have fit := (forall₂_snoc.mp (forall₂_snoc.mp fits).1).2
        have conforms := fit.expression isExpression
        exact ⟨.computedKey conforms, conforms, rfl⟩

/-! ### Functions and statements -/

/-- A name that may be missing behind a token. -/
theorem name_matched {name before : List Kind} {kind : Kind} {earlier : List Fragment}
    {text : String} {id : Option Node} (isName : name ∈ maybe (.rule .variableDefinition))
    (notNode : kind.isNode = false)
    (fits : List.Forall₂ Kind.Fits (before ++ [kind] ++ name)
      (earlier ++ [.token text] ++ option id)) :
    (∀ node ∈ id, Conforms .name node) ∧ (name ≠ [] → id.isSome = true) := by
  simp only [List.mem_cons, List.not_mem_nil, or_false] at isName
  rcases isName with rfl | rfl
  · rw [List.append_nil] at fits
    cases id with
    | none => simp
    | some node =>
        have fit := (forall₂_snoc.mp fits).2
        rw [fit.isNode_eq] at notNode
        cases notNode
  · cases id with
    | none =>
        rw [option, Option.toList_none, List.map_nil, List.append_nil] at fits
        exact absurd (forall₂_snoc.mp fits).2 (Kind.Fits.not_token rfl)
    | some node =>
        have fit := (forall₂_snoc.mp fits).2
        simpa using fit.conforms rfl

theorem function_conforms {isAsync isGenerator : Bool} {id : Option Node}
    {params : List Node} {body : Node} {modifier star name : List Kind}
    (isStar : star ∈ maybe (.rule .star)) (isName : name ∈ maybe (.rule .variableDefinition))
    (fits : List.Forall₂ Kind.Fits
      (modifier ++ word .functionWord :: (star ++ name ++ [.rule .paramList, .rule .block]))
      (flag isAsync "async" ++ .token "function" :: flag isGenerator "*" ++ option id ++
        [.list params, .node body])) :
    (∀ node ∈ id, Conforms .name node) ∧ (name ≠ [] → id.isSome = true) ∧
      ConformingParams params ∧ Conforms .block body := by
  have labels (first third fourth : List Kind) (second fifth last : Kind) :
      first ++ second :: (third ++ fourth ++ [fifth, last]) =
        first ++ [second] ++ third ++ fourth ++ [fifth] ++ [last] := by
    simp
  have fragments (first third fourth : List Fragment) (second fifth last : Fragment) :
      first ++ second :: third ++ fourth ++ [fifth, last] =
        first ++ [second] ++ third ++ fourth ++ [fifth] ++ [last] := by
    simp
  rw [labels, fragments] at fits
  obtain ⟨others, isBody⟩ := forall₂_snoc.mp fits
  obtain ⟨others, isParams⟩ := forall₂_snoc.mp others
  have named : (∀ node ∈ id, Conforms .name node) ∧ (name ≠ [] → id.isSome = true) := by
    simp only [List.mem_cons, List.not_mem_nil, or_false] at isStar
    rcases isStar with rfl | rfl <;> cases isGenerator
    · rw [List.append_nil, Fragment.flag_false, List.append_nil] at others
      exact name_matched isName rfl others
    · rw [List.append_nil] at others
      exact name_matched isName rfl others
    · rw [Fragment.flag_false, List.append_nil] at others
      exact name_matched isName rfl others
    · exact name_matched isName rfl others
  exact ⟨named.1, named.2, isParams.sorts.2.2 rfl, isBody.conforms rfl⟩

theorem method_conforms {words key : List Kind} {earlier keys : List Fragment} {isComputed : Bool}
    {params : List Node} {body : Node} (isShape : Shape.Key key)
    (isKey : KeyOf keys node isComputed) (modifiers : MethodModifiers)
    (fits : List.Forall₂ Kind.Fits (words ++ key ++ [.rule .paramList, .rule .block])
      (earlier ++ keys ++ [.list params, .node body])) :
    Conforms (.key isComputed) node ∧ Conforms .function (modifiers.function params body) := by
  rw [List.append_cons, List.append_cons (earlier ++ keys)] at fits
  obtain ⟨others, isBody⟩ := forall₂_snoc.mp fits
  obtain ⟨before, isParams⟩ := forall₂_snoc.mp others
  obtain ⟨plain, last, rfl, allPlain, isRest⟩ := isParams.sorts.2.2 rfl
  exact ⟨(key_conforms isShape isKey before).1,
    .functionExpression (by simp) allPlain isRest (isBody.conforms rfl)⟩

theorem class_matched {name heritage : List Kind} {id superClass : Option Node} {body : Node}
    (isName : name ∈ maybe (.rule .variableDefinition))
    (isHeritage : heritage = [] ∨ ∃ parent, parent.isExpression = true ∧
      heritage = [word .extendsWord, parent])
    (fits : List.Forall₂ Kind.Fits
      (word .classWord :: (name ++ heritage ++ [.rule .classBody]))
      (.token "class" :: option id ++ behind "extends" superClass ++ [.node body])) :
    (∀ node ∈ id, Conforms .name node) ∧ (name ≠ [] → id.isSome = true) ∧
      (∀ node ∈ superClass, Conforms .expression node) ∧ Conforms .classBody body := by
  rw [List.cons_append, List.cons_append, List.forall₂_cons, forall₂_snoc] at fits
  obtain ⟨-, others, isBody⟩ := fits
  have lengths := others.length_eq
  simp only [List.mem_cons, List.not_mem_nil, or_false] at isName
  rcases isName with rfl | rfl <;> rcases isHeritage with rfl | ⟨parent, isExpression, rfl⟩ <;>
    cases id <;> cases superClass <;> simp at lengths <;> simp at others ⊢
  · exact isBody.conforms rfl
  · exact ⟨others.2.expression isExpression, isBody.conforms rfl⟩
  · exact ⟨others.conforms rfl, isBody.conforms rfl⟩
  · exact ⟨others.1.conforms rfl, others.2.2.expression isExpression, isBody.conforms rfl⟩

/-- A jump to a target that may be missing. -/
theorem target_matched {target ending : List Kind} {sort : Kind → Bool} {found : Option Node}
    {ends : Bool} {keyword : Kind} {text : String} (isTarget : target = [] ∨ One sort target)
    (isEnding : ending ∈ maybe (sign .semicolon))
    (fits : List.Forall₂ Kind.Fits (keyword :: (target ++ ending))
      (.token text :: option found ++ flag ends ";")) :
    ∀ node ∈ found, ∃ kind, sort kind = true ∧ kind.Fits (.node node) := by
  rw [List.cons_append, List.forall₂_cons] at fits
  obtain ⟨-, fits⟩ := fits
  rintro node ⟨⟩
  rcases isTarget with rfl | ⟨kind, isSort, rfl⟩
  · simp only [List.mem_cons, List.not_mem_nil, or_false] at isEnding
    rcases isEnding with rfl | rfl
    · cases fits
    · cases (List.forall₂_cons.mp fits).1.isNode_eq
  · exact ⟨kind, isSort, (List.forall₂_cons.mp fits).1⟩

/-- Declarators before a semicolon that may be missing. -/
theorem ending_matched {ending : List Kind} {ends : Bool} {nodes : List Node}
    (separated : Separated Shape.Declarator inner) (commas : Commas Rebuild.Declarator items nodes)
    (isEnding : ending ∈ maybe (sign .semicolon))
    (fits : List.Forall₂ Kind.Fits (inner ++ ending) (items ++ flag ends ";")) :
    List.Forall₂ Kind.Fits inner items := by
  have lastLabel : ∃ most kind, inner = most ++ [kind] ∧ kind.isNode = true := by
    obtain ⟨earlier, last, -, rfl | ⟨value, isExpression, rfl⟩, rfl⟩ := separated
    · exact ⟨earlier, _, rfl, rfl⟩
    · exact ⟨earlier ++ [.rule .variableDefinition, .rule .equals], value, by simp,
        isNode_of_isExpression isExpression⟩
  have lastFragment : ∃ most node, items = most ++ [.node node] := by
    have ofItem {part : List Fragment} {node : Node} (item : Rebuild.Declarator part node) :
        ∃ most found, part = most ++ [.node found] := by
      obtain ⟨id, init, rfl, rfl⟩ := item
      cases init with
      | none => exact ⟨[], id, rfl⟩
      | some init => exact ⟨[.node id, .token "="], init, rfl⟩
    cases commas with
    | first item => exact ofItem item
    | @comma items part nodes node earlier item =>
        obtain ⟨most, found, rfl⟩ := ofItem item
        exact ⟨items ++ .token "," :: most, found, by simp⟩
  obtain ⟨most, kind, rfl, isNode⟩ := lastLabel
  obtain ⟨earlier, node, rfl⟩ := lastFragment
  simp only [List.mem_cons, List.not_mem_nil, or_false] at isEnding
  rcases isEnding with rfl | rfl <;> cases ends
  · simpa using fits
  · rw [List.append_nil] at fits
    exact absurd (forall₂_snoc.mp fits).2 (Kind.Fits.not_token isNode)
  · rw [Fragment.flag_false, List.append_nil] at fits
    cases (forall₂_snoc.mp fits).2.isNode_eq
  · exact (forall₂_snoc.mp fits).1

theorem try_conforms {block : Node} {handler finalizer : Option Node}
    {handlers finalizers : List Kind} (isHandlers : handlers ∈ maybe (.rule .catchClause))
    (isFinalizers : finalizers ∈ maybe (.rule .finallyClause))
    (isHandler : ∀ node ∈ handler, ∃ param body, node = .catchClause param body)
    (isFinalizer : handler = none →
      ∃ node, finalizer = some node ∧ ∀ param body, node ≠ .catchClause param body)
    (fits : List.Forall₂ Kind.Fits
      (word .tryWord :: .rule .block :: (handlers ++ finalizers))
      (.token "try" :: .node block :: option handler ++ option finalizer)) :
    Conforms .statement (.tryStatement block handler finalizer) := by
  rw [List.cons_append, List.cons_append, List.forall₂_cons, List.forall₂_cons] at fits
  obtain ⟨-, isBlock, others⟩ := fits
  have either : handler.isSome = true ∨ finalizer.isSome = true := by
    cases handler with
    | some node => exact .inl rfl
    | none =>
        obtain ⟨node, rfl, -⟩ := isFinalizer rfl
        exact .inr rfl
  have lengths := others.length_eq
  suffices (∀ node ∈ handler, Conforms .handler node) ∧ ∀ node ∈ finalizer, Conforms .block node
    from .tryStatement (isBlock.conforms rfl) this.1 this.2 either
  simp only [List.mem_cons, List.not_mem_nil, or_false] at isHandlers isFinalizers
  rcases isHandlers with rfl | rfl <;> rcases isFinalizers with rfl | rfl <;>
    cases handler <;> cases finalizer <;> simp at lengths <;> simp at others isHandler isFinalizer ⊢
  · exact others.conforms rfl
  · obtain ⟨param, body, rfl⟩ := isHandler
    have isBlock : Conforms .block (.catchClause param body) := others.conforms rfl
    cases isBlock
  · have isHandler : Conforms .handler _ := others.conforms rfl
    cases isHandler
    exact absurd rfl (isFinalizer _ _)
  · exact others.conforms rfl
  · exact ⟨others.1.conforms rfl, others.2.conforms rfl⟩

theorem sorts_node {rule : Rule} {slot : Slot} (isSlot : rule.slot? = some slot)
    (conforms : Conforms slot node) : Kind.Sorts (.rule rule) (.node node) := by
  rintro _ ⟨⟩ found isFound
  obtain rfl : slot = found := Option.some.inj (isSlot.symm.trans isFound)
  exact conforms

theorem option_conforms {slot : Slot} {part : List Kind} {found : Option Node}
    (sort : Kind → Bool) (isPart : part = [] ∨ One sort part)
    (each : ∀ kind node, sort kind = true → kind.Fits (.node node) → Conforms slot node)
    (fits : List.Forall₂ Kind.Fits part (option found)) : ∀ node ∈ found, Conforms slot node := by
  rintro node ⟨⟩
  rcases isPart with rfl | ⟨kind, isSort, rfl⟩
  · cases fits
  · exact each kind node isSort (List.forall₂_cons.mp fits).1

theorem isNode_part {sort : Kind → Bool} {part : List Kind}
    (isNode : ∀ kind, sort kind = true → kind.isNode = true) (isPart : part = [] ∨ One sort part) :
    part = [] ∨ ∃ kind, kind.isNode = true ∧ part = [kind] :=
  isPart.imp_right fun ⟨kind, isSort, same⟩ => ⟨kind, isNode kind isSort, same⟩

/-- The head of a counting loop. -/
theorem counting_conforms {init test update : List Kind} {starts tests steps : Option Node}
    (isInit : init = [] ∨ One Kind.isExpression init ∨ init = [.rule .variableDeclaration])
    (isTest : test = [] ∨ One Kind.isExpression test)
    (isUpdate : update = [] ∨ One Kind.isExpression update)
    (fits : List.Forall₂ Kind.Fits
      (sign .leftParen :: (init ++ sign .semicolon :: (test ++ sign .semicolon ::
        (update ++ [sign .rightParen]))))
      (.token "(" :: option starts ++ .token ";" :: option tests ++ .token ";" :: option steps ++
        [.token ")"])) :
    (LoopHead.counting starts tests steps).Conforms := by
  let startSort (kind : Kind) : Bool := kind.isExpression || kind == .rule .variableDeclaration
  have isStart : init = [] ∨ One startSort init := by
    rcases isInit with rfl | ⟨kind, isExpression, rfl⟩ | rfl
    · exact .inl rfl
    · exact .inr ⟨kind, by simp [startSort, isExpression], rfl⟩
    · exact .inr ⟨_, rfl, rfl⟩
  have startNode (kind : Kind) (isSort : startSort kind = true) : kind.isNode = true := by
    simp only [startSort, Bool.or_eq_true, beq_iff_eq] at isSort
    rcases isSort with isExpression | rfl
    · exact isNode_of_isExpression isExpression
    · rfl
  have expressionNode (kind : Kind) := @isNode_of_isExpression kind
  simp only [List.cons_append, List.append_assoc, List.forall₂_cons] at fits
  obtain ⟨-, fits⟩ := fits
  obtain ⟨startFits, fits⟩ := option_matched (isNode_part startNode isStart) fits
  obtain ⟨testFits, fits⟩ := option_matched (isNode_part expressionNode isTest) fits
  obtain ⟨stepFits, -⟩ := option_matched (isNode_part expressionNode isUpdate) fits
  refine ⟨option_conforms startSort isStart ?_ startFits,
    option_conforms _ isTest (fun _ _ isSort fit => fit.expression isSort) testFits,
    option_conforms _ isUpdate (fun _ _ isSort fit => fit.expression isSort) stepFits⟩
  intro kind node isSort fit
  simp only [startSort, Bool.or_eq_true, beq_iff_eq] at isSort
  rcases isSort with isExpression | rfl
  · exact .expressionStart (fit.expression isExpression)
  · exact .declaredStart (fit.conforms rfl)

/-- The head of a loop over keys or values. -/
theorem iteration_conforms {target : List Kind} {subject opening keyword closing : Kind}
    {given : List Fragment} {first middle last : Fragment} {left right : Node}
    (isSubject : subject.isExpression = true)
    (isTarget : One Kind.isExpression target ∨
      ∃ keyword ∈ [word .varWord, word .letWord, word .constWord],
        target = [keyword, .rule .variableDefinition])
    (isLeft : TargetOf given left)
    (fits : List.Forall₂ Kind.Fits (opening :: (target ++ [keyword, subject, closing]))
      (first :: given ++ [middle, .node right, last])) :
    Conforms .loopStart left ∧ Conforms .expression right := by
  rw [List.cons_append, List.forall₂_cons, List.append_cons, List.append_cons (target ++ _),
    List.append_cons given, List.append_cons (given ++ _), forall₂_snoc, forall₂_snoc,
    forall₂_snoc] at fits
  obtain ⟨-, ⟨⟨fits, -⟩, isRight⟩, -⟩ := fits
  refine ⟨?_, isRight.expression isSubject⟩
  cases isLeft with
  | declared isKeyword id =>
      rcases isTarget with ⟨kind, isExpression, rfl⟩ | ⟨kind, -, rfl⟩
      · cases (List.forall₂_cons.mp fits).2
      · have isName := (List.forall₂_cons.mp (List.forall₂_cons.mp fits).2).1
        refine .declaredStart (.variableDeclaration (by simp) ?_)
        simpa using .variableDeclarator (isName.conforms rfl) (by simp)
  | plain =>
      rcases isTarget with ⟨kind, isExpression, rfl⟩ | ⟨kind, -, rfl⟩
      · exact .expressionStart ((List.forall₂_cons.mp fits).1.expression isExpression)
      · cases (List.forall₂_cons.mp fits).2

/-- A key on its own matches neither a method nor a value behind a key. -/
theorem key_not_longer {key : List Kind} {fragment : Fragment} {earlier : List Fragment}
    (isShape : Shape.Key key)
    (fits : List.Forall₂ Kind.Fits key (earlier ++ [fragment] ++ [.node node])) : False := by
  obtain ⟨kind, ⟨-, rfl⟩ | ⟨-, rfl⟩⟩ := isShape
  · have lengths := fits.length_eq
    simp at lengths
  · rw [show [sign .leftBracket, kind, sign .rightBracket] =
      [sign .leftBracket, kind] ++ [sign .rightBracket] from rfl] at fits
    cases (forall₂_snoc.mp fits).2.isNode_eq

theorem propertyValue_conforms {words keys : List Fragment} {key value : Node} {isComputed : Bool}
    (takes : Rule.property.Takes kinds) (isKey : KeyOf keys key isComputed)
    (fits : List.Forall₂ Kind.Fits kinds (words ++ keys ++ [.token ":", .node value])) :
    Conforms (.key isComputed) key ∧ Conforms .expression value := by
  rw [List.append_cons] at fits
  obtain ⟨modifiers, -, part, isPart, rfl | ⟨rfl, rfl | ⟨kind, isExpression, rfl⟩⟩⟩ := takes
  · rw [List.append_cons] at fits
    obtain ⟨nodes, same⟩ := (forall₂_snoc.mp (forall₂_snoc.mp fits).1).2.yields
    cases same
  · exact (key_not_longer isPart fits).elim
  · rw [List.append_cons] at fits
    obtain ⟨others, isValue⟩ := forall₂_snoc.mp fits
    have keyFits : List.Forall₂ Kind.Fits ([] ++ part) (words ++ keys) := (forall₂_snoc.mp others).1
    exact ⟨(key_conforms isPart isKey keyFits).1, isValue.expression isExpression⟩

theorem propertyMethod_conforms {words keys : List Fragment} {key body : Node} {params : List Node}
    {isComputed : Bool} (modifiers : MethodModifiers) (takes : Rule.property.Takes kinds)
    (isKey : KeyOf keys key isComputed)
    (fits : List.Forall₂ Kind.Fits kinds (words ++ keys ++ [.list params, .node body])) :
    Conforms (.key isComputed) key ∧ Conforms .function (modifiers.function params body) := by
  obtain ⟨_, -, part, isPart, rfl | ⟨rfl, rfl | ⟨kind, isExpression, rfl⟩⟩⟩ := takes
  · exact method_conforms isPart isKey modifiers fits
  · rw [List.append_cons] at fits
    exact (key_not_longer isPart fits).elim
  · rw [List.append_cons, List.append_cons (words ++ keys)] at fits
    cases (forall₂_snoc.mp (forall₂_snoc.mp fits).1).2.yields

/-- A key on its own takes the place of nothing that ends with a node behind
another part. -/
theorem key_not_behind {keys : List Fragment} {key : Node} {isComputed : Bool} {last : Kind}
    (isKey : KeyOf keys key isComputed) (isNode : last.isNode = true) (nonempty : kinds ≠ [])
    (fits : List.Forall₂ Kind.Fits (kinds ++ [last]) keys) : False := by
  cases isKey with
  | computed =>
      rw [show [Fragment.token "[", .node key, .token "]"] =
        [.token "[", .node key] ++ [.token "]"] from rfl] at fits
      exact absurd (forall₂_snoc.mp fits).2 (Kind.Fits.not_token isNode)
  | plain =>
      have lengths := fits.length_eq
      simp [nonempty] at lengths

theorem propertyShorthand_conforms {keys : List Fragment} {key : Node} {isComputed : Bool}
    (takes : Rule.property.Takes kinds) (isKey : KeyOf keys key isComputed)
    (fits : List.Forall₂ Kind.Fits kinds keys) :
    Conforms (.key isComputed) key ∧ Conforms .expression key := by
  obtain ⟨words, -, part, isPart, rfl | ⟨rfl, same | ⟨kind, isExpression, rfl⟩⟩⟩ := takes
  · rw [List.append_cons] at fits
    exact (key_not_behind isKey rfl (by simp) fits).elim
  · have keyFits : List.Forall₂ Kind.Fits ([] ++ part) ([] ++ keys) := by rwa [same] at fits
    have conforms := key_conforms isPart isKey keyFits
    exact ⟨conforms.1, conforms.2.1⟩
  · rw [List.append_cons] at fits
    exact (key_not_behind isKey (isNode_of_isExpression isExpression) (by simp) fits).elim

/-- The flag of an arrow function tells its two sorts of bodies apart. -/
theorem arrow_conforms {body : Node} {isAsync : Bool} {params : List Node} {kind : Kind}
    (isParams : ConformingParams params) (isBody : kind.isExpression = true ∨ kind = .rule .block)
    (fits : kind.Fits (.node body)) :
    Conforms .expression (.function .arrow none (!isBlock body) false isAsync params body) := by
  obtain ⟨plain, last, rfl, allPlain, isRest⟩ := isParams
  rcases isBody with isExpression | rfl
  · have value := fits.expression isExpression
    have notBlock : isBlock body = false := by
      unfold isBlock
      split
      · have home : Slot.block ∈ Slot.expression.takes := value.home_mem
        exact absurd home (by decide)
      · rfl
    rw [notBlock]
    exact .arrowWithValue allPlain isRest value
  · have inner : Conforms .block body := fits.conforms rfl
    have isBlock : isBlock body = true := by
      cases inner
      rfl
    rw [isBlock]
    exact .arrowWithBlock allPlain isRest inner

theorem operand_conforms {operator : Fragment}
    (takes : Rule.unaryExpression.Takes kinds)
    (fits : List.Forall₂ Kind.Fits kinds [operator, .node node]) : Conforms .expression node := by
  obtain ⟨_, operand, -, isExpression, rfl⟩ := takes
  simp only [List.forall₂_cons] at fits
  exact fits.2.1.expression isExpression

theorem operand_not_after {text : String} (takes : Rule.postfixExpression.Takes kinds)
    (fits : List.Forall₂ Kind.Fits kinds [.token text, .node node]) : False := by
  obtain ⟨operand, isExpression, rfl⟩ := takes
  simp only [List.forall₂_cons] at fits
  exact Kind.Fits.not_token (isNode_of_isExpression isExpression) fits.1

end Matching

end ScriptTree
