import ScriptTree.Proofs.Grammar.Member
import ScriptTree.Proofs.Grammar.Reserved
import ScriptTree.Proofs.Rebuild.Becomes

/-!
# Names that are not reserved

A rebuilt text has names in many places, but they all come from words that the
scanner took for names.  Only the names of members may be reserved, and those
are not used as variables, except in an entry of an object that is short for a
variable.
-/

namespace ScriptTree

open Estree

namespace Estree.Node

/-- A node is not a name that is reserved. -/
def IsFree (dialect : Dialect) (node : Node) : Prop :=
  ∀ name, node = .identifier name → ¬dialect.Reserves name.toList

/-- The entry of an object that is short for a variable named `extends`. -/
def extendsEntry : Node :=
  .property false true false (.identifier "extends") (.identifier "extends") .init

/-- A node binds and refers to free names, unless it is the entry that is
short for `extends`. -/
def UsesFree (dialect : Dialect) (node : Node) : Prop :=
  (∀ used ∈ node.uses, used.IsFree dialect) ∨ dialect = .typeScript ∧ node = extendsEntry

end Estree.Node

open Estree Node Rebuild Take
open Fragment (nodesOf)

/-! ## Parts -/

theorem Kind.Fits.memberName {kind : Kind} {fragment : Fragment} (fits : kind.Fits fragment)
    (isMemberName : kind.isMemberName = true) : ∃ node, fragment = .node node := by
  unfold Kind.isMemberName at isMemberName
  split at isMemberName
  case h_3 => cases isMemberName
  all_goals exact fits.yields

section Parts

variable {dialect : Dialect} {given : List Node} {node : Node}

theorem isFree_of_unnamed (unnamed : ∀ name, node ≠ .identifier name) : node.IsFree dialect :=
  fun name same => absurd same (unnamed name)

theorem UsesFree.of_isInner (inner : isInner node = true) (uses : node.UsesFree dialect) :
    ∀ child ∈ node.children, child.IsFree dialect := by
  rw [← uses_of_isInner inner]
  rcases uses with free | ⟨-, rfl⟩
  · exact free
  · cases inner

/-- Parts are free if what was given is. -/
theorem part_free
    (all : ∀ other ∈ given, other.IsFree dialect ∧ other.Every (UsesFree dialect))
    (part : Part given node) : node.IsFree dialect ∧ node.Every (UsesFree dialect) := by
  induction part with
  | given isGiven => exact all _ isGiven
  | inner inner parts ih =>
      refine ⟨isFree_of_unnamed (unnamed_of_isInner inner),
        .node (.inl ?_) fun child isChild => (ih child isChild).2⟩
      rw [uses_of_isInner inner]
      exact fun child isChild => (ih child isChild).1
  | child _ inner isChild ih =>
      exact ⟨UsesFree.of_isInner inner ih.2.here _ isChild, ih.2.of_child _ isChild⟩

end Parts

/-! ## Rules -/

/-- What a label may become: nodes that use free names, and that are free
unless the label is that of the name of a member. -/
structure Kind.Frees (dialect : Dialect) (kind : Kind) (fragment : Fragment) : Prop where
  every : ∀ node ∈ fragment.nodes, node.Every (UsesFree dialect)
  free : kind.isMemberName = false → ∀ node ∈ fragment.nodes, node.IsFree dialect

section Rules

variable {dialect : Dialect} {rule : Rule} {given : List Fragment} {built : Fragment}

/-- A rule that is given free nodes builds free nodes. -/
theorem frees_of_builds
    (all : ∀ node ∈ nodesOf given, node.IsFree dialect ∧ node.Every (UsesFree dialect))
    (named : ∀ node, rule.Names given node → (Kind.rule rule).isMemberName = false →
      node.IsFree dialect)
    (builds : rule.Builds given built) : Kind.Frees dialect (.rule rule) built := by
  refine ⟨fun node isIn => ?_, fun plain node isIn => ?_⟩
  · obtain part | ⟨-, isMade⟩ | ⟨-, text, -, rfl⟩ := builds.made node isIn
    · exact (part_free all part).2
    · have parts := fun child isChild => part_free all (isMade.parts child isChild)
      exact .node (.inl fun child isUse => (parts child (uses_subset node isUse)).1)
        fun child isChild => (parts child isChild).2
    · exact .node (.inl nofun) nofun
  · obtain part | ⟨-, isMade⟩ | names := builds.made node isIn
    · exact (part_free all part).1
    · exact isFree_of_unnamed isMade.unnamed
    · exact named node names plain

variable {kinds : List Kind}

/-- A label and what it became, side by side. -/
def Stands (dialect : Dialect) (kind : Kind) (fragment : Fragment) : Prop :=
  kind.Fits fragment ∧ kind.Frees dialect fragment

theorem forall₂_middle {First Second : Type} {holds : First → Second → Prop} {firsts : List First}
    {before after : List Second} {second : Second}
    (each : List.Forall₂ holds firsts (before ++ second :: after)) :
    ∃ earlier first later, firsts = earlier ++ first :: later ∧ earlier.length = before.length ∧
      holds first second ∧ List.Forall₂ holds later after := by
  induction before generalizing firsts with
  | nil =>
      obtain ⟨first, later, here, rest, rfl⟩ := List.forall₂_cons_right_iff.mp each
      exact ⟨[], first, later, rfl, rfl, here, rest⟩
  | cons other before ih =>
      obtain ⟨label, labels, -, rest, rfl⟩ := List.forall₂_cons_right_iff.mp each
      obtain ⟨earlier, first, later, rfl, length, here, behind⟩ := ih rest
      exact ⟨label :: earlier, first, later, rfl, by simp [length], here, behind⟩

/-- Where the name of a member can stand among the fragments below a rule. -/
def Rule.GivesMember (rule : Rule) (before : List Fragment) (fragment : Fragment)
    (after : List Fragment) : Prop :=
  (∃ node, fragment = .node node) ∧
    ((rule = .memberExpression ∧ before.length = 2 ∧ after = []) ∨
      (rule = .property ∨ rule = .methodDeclaration) ∧ (before = [] ∧ after = [] ∨
        ∃ rest, (∃ nodes, after = .list nodes :: rest) ∨ after = .token ":" :: rest))

theorem free_at (takes : rule.Takes kinds) (each : List.Forall₂ (Stands dialect) kinds given)
    (before : List Fragment) (fragment : Fragment) (after : List Fragment)
    (same : given = before ++ fragment :: after)
    (elsewhere : ¬rule.GivesMember before fragment after) :
    ∀ node ∈ fragment.nodes, node.IsFree dialect := by
  subst same
  obtain ⟨earlier, kind, later, rfl, length, ⟨fits, frees⟩, behind⟩ := forall₂_middle each
  cases isMemberName : kind.isMemberName with
  | false => exact frees.free isMemberName
  | true =>
      refine absurd ⟨fits.memberName isMemberName, ?_⟩ elsewhere
      obtain ⟨rfl, two, rfl⟩ | ⟨isRule, ⟨rfl, rfl⟩ | ⟨rest, rfl | rfl⟩⟩ :=
        takes.namesMember isMemberName
      · exact .inl ⟨rfl, by rw [← length, two], List.forall₂_nil_left_iff.mp behind⟩
      · exact .inr ⟨isRule, .inl ⟨List.length_eq_zero_iff.mp length.symm,
          List.forall₂_nil_left_iff.mp behind⟩⟩
      · obtain ⟨next, rest, isNext, -, rfl⟩ := List.forall₂_cons_left_iff.mp behind
        obtain ⟨nodes, rfl⟩ := isNext.1.yields
        exact .inr ⟨isRule, .inr ⟨rest, .inl ⟨nodes, rfl⟩⟩⟩
      · obtain ⟨next, rest, isNext, -, rfl⟩ := List.forall₂_cons_left_iff.mp behind
        obtain rfl := isNext.1.yields
        exact .inr ⟨isRule, .inr ⟨rest, .inr rfl⟩⟩

theorem every_of_each (each : List.Forall₂ (Stands dialect) kinds given) :
    ∀ node ∈ nodesOf given, node.Every (UsesFree dialect) := by
  induction each with
  | nil => simp
  | cons first rest ih => exact List.forall_mem_append.mpr ⟨first.2.every, ih⟩

theorem free_of_each (each : List.Forall₂ (Stands dialect) kinds given)
    (nameless : Shape.Nameless kinds) :
    ∀ node ∈ nodesOf given, node.IsFree dialect ∧ node.Every (UsesFree dialect) := by
  induction each with
  | nil => simp
  | cons first rest ih =>
      obtain ⟨here, others⟩ := (Shape.nameless_cons _ _).mp nameless
      refine List.forall_mem_append.mpr ⟨fun node isIn => ?_, ih others⟩
      exact ⟨first.2.free here node isIn, first.2.every node isIn⟩

theorem frees_node {node : Node} (unnamed : ∀ name, node ≠ .identifier name)
    (every : node.Every (UsesFree dialect)) : Kind.Frees dialect (.rule rule) (.node node) :=
  ⟨by simpa using every, fun _ => by simpa using isFree_of_unnamed unnamed⟩

theorem member_frees (takes : Rule.memberExpression.Takes kinds)
    (each : List.Forall₂ (Stands dialect) kinds given)
    (builds : Rule.memberExpression.Builds given built) :
    Kind.Frees dialect (.rule .memberExpression) built := by
  have all := every_of_each each
  cases builds with
  | member object property =>
      have objectFree := free_at takes each [] (.node object) _ rfl (by simp [Rule.GivesMember])
      refine frees_node (by simp) (.node (.inl ?_) (by simpa [children] using all))
      simpa [uses] using objectFree
  | computedMember object property =>
      have objectFree := free_at takes each [] (.node object) _ rfl (by simp [Rule.GivesMember])
      have propertyFree := free_at takes each [.node object, .token "["] (.node property) _ rfl
        (by simp [Rule.GivesMember])
      refine frees_node (by simp) (.node (.inl ?_) (by simpa [children] using all))
      simpa [uses] using ⟨objectFree object (by simp), propertyFree property (by simp)⟩
  | name isRule | literal isRule | operator isRule => simp at isRule
  | unaryUpdate isUnary | unary isUnary | updateAfter isUnary => simp at isUnary

/-- A key with a value. -/
theorem keyed_every {node key value : Node} (isComputed : Bool)
    (isChildren : node.children = [key, value])
    (isUses : node.uses = if isComputed then [key, value] else [value])
    (keyEvery : key.Every (UsesFree dialect)) (keyFree : isComputed = true → key.IsFree dialect)
    (valueFree : value.IsFree dialect) (valueEvery : value.Every (UsesFree dialect)) :
    node.Every (UsesFree dialect) := by
  refine .node (.inl ?_) (by simpa [isChildren] using ⟨keyEvery, valueEvery⟩)
  rw [isUses]
  cases isComputed with
  | false => simpa using valueFree
  | true => simpa using ⟨keyFree rfl, valueFree⟩

/-- A computed key is free wherever it stands. -/
theorem key_free {earlier keys later : List Fragment} {key : Node} {isComputed : Bool}
    (takes : rule.Takes kinds)
    (each : List.Forall₂ (Stands dialect) kinds (earlier ++ keys ++ later))
    (isRule : rule ≠ .memberExpression) (isKey : KeyOf keys key isComputed) :
    isComputed = true → key.IsFree dialect := by
  rintro rfl
  cases isKey with
  | computed =>
      have free := free_at takes each (earlier ++ [.token "["]) (.node key) (.token "]" :: later)
        (by simp) (by simp [Rule.GivesMember, isRule])
      simpa using free

/-- The function behind the key of a method. -/
theorem function_free {earlier : List Fragment} {params : List Node} {body : Node}
    (takes : rule.Takes kinds)
    (each : List.Forall₂ (Stands dialect) kinds (earlier ++ [.list params, .node body]))
    (isRule : rule ≠ .memberExpression) (modifiers : MethodModifiers) :
    (modifiers.function params body).IsFree dialect ∧
      (modifiers.function params body).Every (UsesFree dialect) := by
  have paramsFree := free_at takes each earlier (.list params) _ rfl (by simp [Rule.GivesMember])
  have bodyFree := free_at takes each (earlier ++ [.list params]) (.node body) [] (by simp)
    (by simp [Rule.GivesMember, isRule])
  have all := every_of_each each
  refine part_free (fun node isIn => ⟨?_, all node ?_⟩) (method_part modifiers params body)
  · rcases List.mem_append.mp isIn with isParam | isBody
    · exact paramsFree node isParam
    · exact bodyFree node isBody
  · simpa using .inr (by simpa using isIn)

theorem method_frees (takes : Rule.methodDeclaration.Takes kinds)
    (each : List.Forall₂ (Stands dialect) kinds given)
    (builds : Rule.methodDeclaration.Builds given built) :
    Kind.Frees dialect (.rule .methodDeclaration) built := by
  cases builds with
  | @methodDeclaration words keys modifiers key isComputed isStatic isWords isKey params body =>
      have keyEvery := every_of_each each key (by simp [key_nodes isKey])
      obtain ⟨valueFree, valueEvery⟩ := function_free takes each nofun modifiers
      exact frees_node (by simp)
        (keyed_every _ rfl rfl keyEvery (key_free takes each nofun isKey) valueFree valueEvery)
  | name isRule | literal isRule | operator isRule => simp at isRule
  | unaryUpdate isUnary | unary isUnary | updateAfter isUnary => simp at isUnary

theorem property_frees (takes : Rule.property.Takes kinds)
    (each : List.Forall₂ (Stands dialect) kinds given)
    (short : ∀ key, given = [.node key] →
      key.IsFree dialect ∨ dialect = .typeScript ∧ key = .identifier "extends")
    (builds : Rule.property.Builds given built) : Kind.Frees dialect (.rule .property) built := by
  have all := every_of_each each
  cases builds with
  | @propertyValue words keys _ key isComputed isWords isKey value =>
      have keyEvery := all key (by simp [key_nodes isKey])
      have valueFree := free_at takes each (words ++ keys ++ [.token ":"]) (.node value) []
        (by simp) (by simp [Rule.GivesMember])
      exact frees_node (by simp) (keyed_every _ rfl rfl keyEvery (key_free takes each nofun isKey)
        (valueFree value (by simp)) (all value (by simp)))
  | @propertyMethod words keys modifiers key isComputed isWords isKey params body =>
      have keyEvery := all key (by simp [key_nodes isKey])
      obtain ⟨valueFree, valueEvery⟩ := function_free takes each nofun modifiers
      exact frees_node (by simp)
        (keyed_every _ rfl rfl keyEvery (key_free takes each nofun isKey) valueFree valueEvery)
  | @propertyShorthand _ key _ isKey =>
      refine frees_node (by simp) ?_
      cases isKey with
      | computed =>
          have free := free_at takes each [.token "["] (.node key) _ rfl
            (by simp [Rule.GivesMember])
          have keyFree := free key (by simp)
          have keyEvery := all key (by simp)
          exact keyed_every true rfl rfl keyEvery (fun _ => keyFree) keyFree keyEvery
      | plain =>
          have keyEvery := all key (by simp)
          rcases short key rfl with keyFree | ⟨isDialect, rfl⟩
          · exact keyed_every false rfl rfl keyEvery (fun _ => keyFree) keyFree keyEvery
          · exact .node (.inr ⟨isDialect, rfl⟩) (by simpa [children] using keyEvery)
  | name isRule | literal isRule | operator isRule => simp at isRule
  | unaryUpdate isUnary | unary isUnary | updateAfter isUnary => simp at isUnary

end Rules

/-! ## Trees -/

section Trees

variable {dialect : Dialect} {source : Text} {limit : Option Nat} {rule : Rule} {span : Span}
  {children : List SyntaxTree} {given : List Fragment} {fragment : Fragment}

/-- A leaf becomes a free name, unless it is the name of a member. -/
theorem leaf_frees {text : Text} (covers : span.text? source = some text)
    (named : FreelyNamed dialect source (.node (.rule rule) span []))
    (builds : rule.Builds [.token (String.ofList text)] fragment) :
    Kind.Frees dialect (.rule rule) fragment := by
  refine frees_of_builds (by simp) ?_ builds
  rintro node ⟨isNamed, _, same, rfl⟩ plain name isName
  cases same
  cases isName
  have isWord : (Kind.rule rule).isName = true := by
    simp only [List.mem_cons, List.not_mem_nil, or_false] at isNamed
    rcases isNamed with rfl | rfl | rfl | rfl | rfl <;> first | rfl | simp at plain
  obtain ⟨found, same, free⟩ := named isWord
  cases covers.symm.trans same
  rwa [String.toList_ofList]

/-- An entry that is short for a variable is checked for reserved words, but
not for the one that only the typed dialect reserves. -/
theorem short_free {key : Node} (shaped : ∀ child ∈ children, child.Every Grammar.Shaped)
    (passes : Grammar.Passes source children .property)
    (fits : List.Forall₂ Kind.Fits (children.map Tree.label) [.node key])
    (each : List.Forall₂ (Becomes source limit) children [.node key]) :
    key.IsFree dialect ∨ dialect = .typeScript ∧ key = .identifier "extends" := by
  obtain ⟨tree, _, becomes, rest, rfl⟩ := List.forall₂_cons_right_iff.mp each
  obtain rfl := List.forall₂_nil_right_iff.mp rest
  have treeFits := (List.forall₂_cons.mp fits).1
  have isShort : Grammar.isShorthand source [tree] = true := by
    rcases passes with isShort | ⟨other, isOther, isLabel⟩
    · exact isShort
    · rw [List.mem_singleton.mp isOther] at isLabel
      rcases isLabel with isList | isColon
      · rw [isList] at treeFits
        cases treeFits.isNode_eq
      · rw [isColon] at treeFits
        cases treeFits.isNode_eq
  obtain ⟨label, span, below⟩ := tree
  obtain ⟨isLabel, isWord⟩ : label = .rule .propertyDefinition ∧
      (span.text? source).any (fun name => (Keyword.ofChars? name).isNone) = true := by
    rwa [Grammar.isShorthand, List.head?_cons, Bool.and_eq_true, beq_iff_eq] at isShort
  subst isLabel
  obtain ⟨text, rfl, covers, builds⟩ | ⟨given, nonempty, -, -⟩ := becomes.builds
  · obtain rfl : key = .identifier (String.ofList text) := by
      cases builds with
      | name => rfl
      | literal isRule => simp at isRule
    rw [covers] at isWord
    have missing : Keyword.ofChars? text = none := by simpa using isWord
    by_cases reserves : dialect.Reserves text
    · obtain ⟨keyword, isReserved, same⟩ | ⟨isDialect, same⟩ := reserves
      · exact absurd same (Keyword.ofChars?_eq_none missing keyword isReserved)
      · exact .inr ⟨isDialect, by rw [same]; rfl⟩
    · refine .inl fun name same => ?_
      cases same
      rwa [String.toList_ofList]
  · obtain ⟨isLeaf, -⟩ | ⟨other, -⟩ | takes := (shaped _ List.mem_cons_self).here
    · exact absurd isLeaf nonempty
    · cases other
    · cases takes

theorem nameless_template {kinds : List Kind} (template : Shape.Template kinds) :
    Shape.Nameless kinds :=
  Shape.nameless_between (fun _ => Shape.nameless_piece) template

theorem not_terminal {kinds : List Kind} (takes : rule.Takes kinds) : rule.isTerminal = false := by
  cases rule <;> first | rfl | cases takes

/-- A rule that is given free nodes without names of members. -/
theorem frees_of_nameless {kinds : List Kind} (composed : rule.isTerminal = false)
    (nameless : Shape.Nameless kinds) (each : List.Forall₂ (Stands dialect) kinds given)
    (builds : rule.Builds given fragment) : Kind.Frees dialect (.rule rule) fragment := by
  refine frees_of_builds (free_of_each each nameless) ?_ builds
  rintro node ⟨isNamed, -⟩
  simp only [List.mem_cons, List.not_mem_nil, or_false] at isNamed
  rcases isNamed with rfl | rfl | rfl | rfl | rfl <;> cases composed

/-- Whatever a tree becomes uses free names. -/
theorem Becomes.frees {tree : SyntaxTree} (vetted : Vetted source tree)
    (named : tree.Every (FreelyNamed dialect source))
    (becomes : Becomes source limit tree fragment) :
    tree.label.Frees dialect fragment := by
  induction tree using Tree.induct generalizing fragment with
  | node label span children ih =>
      cases label with
      | fixed spelling =>
          rw [becomes.token_of_fixed]
          exact ⟨by simp, by simp⟩
      | rule rule =>
          obtain ⟨text, rfl, covers, builds⟩ | ⟨given, nonempty, each, builds⟩ := becomes.builds
          · exact leaf_frees covers named.here builds
          · have stands : List.Forall₂ (Stands dialect) (children.map Tree.label) given :=
              labels_become each fun child isChild _ childBecomes =>
                ⟨childBecomes.fits (vetted.of_child child isChild),
                  ih child isChild (vetted.of_child child isChild) (named.of_child child isChild)
                    childBecomes⟩
            obtain ⟨isLeaf, -⟩ | ⟨rfl, template⟩ | takes := vetted.shaped.here
            · exact absurd isLeaf nonempty
            · exact frees_of_nameless rfl (nameless_template template) stands builds
            · by_cases plain : rule ∈ [Rule.memberExpression, .property, .methodDeclaration]
              · simp only [List.mem_cons, List.not_mem_nil, or_false] at plain
                rcases plain with rfl | rfl | rfl
                · exact member_frees takes stands builds
                · refine property_frees takes stands ?_ builds
                  rintro key rfl
                  exact short_free vetted.shaped.of_child (vetted.checked.here _ rfl nonempty)
                    (becomes_fit vetted.of_child each) each
                · exact method_frees takes stands builds
              · exact frees_of_nameless (not_terminal takes) (takes.nameless plain) stands builds

end Trees

/-- Whatever a rebuilt text binds or refers to has a name that is not reserved,
but an entry of an object can be short for `extends` in the typed dialect. -/
theorem transform_names (options : Options) (source : Text) (program : Node)
    (run : transform options source = .ok program) :
    program.Every (UsesFree options.dialect) := by
  obtain ⟨trees, parsed, becomes, vetted⟩ := transform_becomes run
  obtain ⟨_, same, named⟩ := Grammar.parse_free parsed
  cases same
  have frees : Kind.Frees options.dialect (.rule .script) (.node program) := by
    obtain ⟨text, rfl, covers, builds⟩ | ⟨given, -, each, builds⟩ := becomes.builds
    · exact leaf_frees covers nofun builds
    · have stands : List.Forall₂ (Stands options.dialect) (trees.map Tree.label) given :=
        labels_become each fun tree isIn _ treeBecomes =>
          ⟨treeBecomes.fits (vetted tree isIn).2,
            treeBecomes.frees (vetted tree isIn).2 (named tree isIn)⟩
      have nameless : Shape.Nameless (trees.map Tree.label) := by
        simp only [Shape.Nameless, List.forall_mem_map]
        exact fun tree isIn => Kind.not_memberName_of_isStatement (vetted tree isIn).1
      exact frees_of_nameless rfl nameless stands builds
  exact frees.every program (by simp)

/-- A label, a loop variable and reserved names of members. -/
theorem transform_names_members :
    ∃ program, transform ⟨.typeScript, .standard⟩
        "l: for (var a of b) \x7b a.if = \x7bvar: a\x7d; break l \x7d".toList = .ok program ∧
      program.Every (UsesFree .typeScript) := by
  have rebuilt : (transform ⟨.typeScript, .standard⟩
      "l: for (var a of b) \x7b a.if = \x7bvar: a\x7d; break l \x7d".toList).isOk = true := by
    decide +kernel
  cases run : transform ⟨.typeScript, .standard⟩
      "l: for (var a of b) \x7b a.if = \x7bvar: a\x7d; break l \x7d".toList with
  | error error =>
      rw [run] at rebuilt
      cases rebuilt
  | ok program => exact ⟨program, rfl, transform_names _ _ _ run⟩

def isShortObject : Except TransformError Node → Bool
  | .ok (.program [.expressionStatement (.objectExpression
      [.property false true false _ (.identifier name) .init])] _) => name == "extends"
  | _ => false

/-- The typed dialect reserves `extends`, but an entry of an object refers to
a variable of that name. -/
theorem transform_extends :
    ∃ program, transform ⟨.typeScript, .standard⟩ "(\x7bextends\x7d)".toList = .ok program ∧
      ¬program.Every fun node => ∀ used ∈ node.uses, used.IsFree .typeScript := by
  have short : isShortObject
      (transform ⟨.typeScript, .standard⟩ "(\x7bextends\x7d)".toList) = true := by
    decide +kernel
  generalize transform ⟨.typeScript, .standard⟩ "(\x7bextends\x7d)".toList = result at short ⊢
  unfold isShortObject at short
  split at short
  case h_2 => cases short
  case h_1 key name form =>
    refine ⟨_, rfl, fun every => ?_⟩
    have statement := every.of_child _ List.mem_cons_self
    have object := statement.of_child _ List.mem_cons_self
    have entry := object.of_child _ List.mem_cons_self
    rw [beq_iff_eq.mp short] at entry
    exact entry.here _ (by simp [uses]) "extends" rfl (.inr ⟨rfl, rfl⟩)

end ScriptTree
