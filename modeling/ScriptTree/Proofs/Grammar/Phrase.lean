import Mathlib.Logic.Relation
import ScriptTree.Grammar.Program

/-!
# Phrases

A phrase describes what a production may read: which tokens it consumes, in
which scopes it asks for further goals, and how the trees it collects are put
together.  The phrases are the grammar without the reader.  Their meaning is
given relative to a category, which says what trees each goal may yield, so
that a fact about every tree of the grammar is a category that is closed under
the productions.
-/

namespace ScriptTree

namespace Grammar

/-! ## Points and scopes -/

/-- Where the next token is scanned, and whether a slash there opens a
pattern. -/
structure Point where
  place : Place
  patternAllowed : Bool
  deriving DecidableEq

namespace Point

def next (point : Point) (dialect : Dialect) : Except SyntaxError Token :=
  Token.scan dialect point.place point.patternAllowed

/-- The point behind a consumed token. -/
def after (token : Token) : Point :=
  ⟨token.stop, token.kind.allowsPatternAfter⟩

def chunk (point : Point) (size : Nat) : Option Verdict :=
  (Recognizer.template (Probe.ofPlace size point.place)).verdict

/-- The point at a later offset, behind a piece that was not scanned as a
token. -/
def jump (point : Point) (stop : Nat) (patternAllowed : Bool) : Point :=
  ⟨point.place.moveTo stop, patternAllowed⟩

end Point

/-- What the constructs around a point allow there. -/
structure Scope where
  inFunction : Bool
  inAsync : Bool
  noIn : Bool
  deriving DecidableEq

namespace Scope

def withNoIn (noIn : Bool) (scope : Scope) : Scope :=
  { scope with noIn }

def withAsync (inAsync : Bool) (scope : Scope) : Scope :=
  { scope with inAsync }

def functionBody (inAsync : Bool) (_ : Scope) : Scope :=
  ⟨true, inAsync, false⟩

end Scope

namespace State

/-- The point a state stands at. -/
def point (state : State) : Point :=
  ⟨state.place, state.patternAllowed⟩

def scope (state : State) : Scope :=
  ⟨state.inFunction, state.inAsync, state.noIn⟩

/-- If a token has been looked at, it is the one that is scanned at the
point. -/
def Valid (settings : Settings) (state : State) : Prop :=
  ∀ token, state.peeked = some token → state.point.next settings.dialect = .ok token

end State

end Grammar

/-! ## Tokens and labels -/

namespace Kind

open Grammar

/-- Whether a token may become a leaf with the given label. -/
def admits (kind : Kind) (token : Token) : Bool :=
  match kind with
  | .fixed (.keyword .extendsWord) => isExtends token
  | .fixed (.keyword word) => token.isKeyword word
  | .fixed (.punctuator sign) => token.isPunctuator sign
  | .fixed (.contextual word) => token.isWord word
  | .rule .number => token.kind == .number
  | .rule .string => token.kind == .string
  | .rule .regExp => token.kind == .pattern
  | .rule .variableName | .rule .variableDefinition | .rule .label => token.isIdentifier
  | .rule .propertyName | .rule .propertyDefinition =>
      match token.kind with
      | .identifier | .keyword _ => true
      | _ => false
  | .rule .equals => token.isPunctuator .equals
  | .rule .star => token.isPunctuator .star
  | .rule .updateOp => token.isPunctuator .increment || token.isPunctuator .decrement
  | .rule .assignOp => assignmentKind? token.kind == some .assignOp
  | .rule .arithOp | .rule .compareOp | .rule .logicOp | .rule .bitOp =>
      prefixKind? token.kind == some kind ||
        (BinaryOperator.ofToken? token.kind false).any (·.kind == kind)
  | _ => false

end Kind

namespace Grammar

/-! ## Phrases and their meaning -/

/-- What a production may read. -/
inductive Phrase where
  /-- Nothing. -/
  | done
  /-- One token, as a leaf with the given label. -/
  | take (kind : Kind)
  /-- A tree that is asked for recursively. -/
  | ask (goal : Goal)
  /-- A part that collects its trees apart from those before. -/
  | sub (inner : Phrase)
  /-- Nothing, but the trees collected so far become one node. -/
  | reduce (rule : Rule)
  | seq (first second : Phrase)
  | either (first second : Phrase)
  | many (inner : Phrase)
  | within (change : Scope → Scope) (inner : Phrase)
  /-- Nothing, provided a condition holds. -/
  | given (holds : Settings → Scope → Point → List SyntaxTree → Prop)
  /-- A phrase chosen by the kind of the next token. -/
  | byKind (family : TokenKind → Phrase)
  /-- A template between backticks. -/
  | template

namespace Phrase

instance : OrElse Phrase :=
  ⟨fun first second => .either first (second ())⟩

/-- Some phrases one after another. -/
def all : List Phrase → Phrase
  | [] => .done
  | [last] => last
  | first :: second :: rest => .seq first (all (second :: rest))

def sign (sign : Punctuator) : Phrase :=
  .take (.fixed (.punctuator sign))

/-- A reserved word. -/
def word (word : Keyword) : Phrase :=
  .take (.fixed (.keyword word))

def contextual (word : ContextualWord) : Phrase :=
  .take (.fixed (.contextual word))

/-- A token that is labelled by a rule. -/
def named (rule : Rule) : Phrase :=
  .take (.rule rule)

/-- Nothing, provided the next token passes a test. -/
def ahead (test : Token → Bool) : Phrase :=
  .given fun settings _ point _ =>
    ∃ token, point.next settings.dialect = .ok token ∧ test token = true

/-- Nothing, provided the trees collected so far pass a test. -/
def ensure (test : Text → List SyntaxTree → Bool) : Phrase :=
  .given fun settings _ _ trees => test settings.source trees = true

/-- Nothing, provided a statement goes on with the next token in the same
line, if that is asked for. -/
def sameLine (asked : Bool) : Phrase :=
  .given fun settings _ point _ => asked = true →
    ∃ token, point.next settings.dialect = .ok token ∧ continuesAt settings token = true

/-- Marks the end of a round of a loop as one that goes on or one that does
not; the other rounds cannot be read to their end. -/
def leave (again goesOn : Bool) : Phrase :=
  .given fun _ _ _ _ => again = goesOn

/-- Rounds up to one that does not go on. -/
def loop (round : Bool → Phrase) : Phrase :=
  .seq (.many (round true)) (round false)

end Phrase

/-- What trees a goal may yield between two points. -/
abbrev Category : Type :=
  Goal → Scope → Point → SyntaxTree → Point → Prop

variable (settings : Settings) (category : Category)

/-- The trees of a template behind its opening backtick. -/
inductive Chunks (scope : Scope) : Point → List SyntaxTree → Point → Prop where
  | close {point : Point} {stop : Nat}
      (found : point.chunk settings.size = some ⟨.templateEnd, stop⟩) :
      Chunks scope point
        [.leaf (.fixed (.punctuator .backtick)) ⟨point.place.offset, stop⟩]
        (point.jump stop false)
  | text {point last : Point} {stop : Nat} {rest : List SyntaxTree}
      (found : point.chunk settings.size = some ⟨.templateText, stop⟩)
      (later : Chunks scope (point.jump stop false) rest last) :
      Chunks scope point
        (.leaf (.rule .templateContent) ⟨point.place.offset, stop⟩ :: rest) last
  | hole {point behind last : Point} {stop : Nat} {inner : SyntaxTree} {brace : Token}
      {rest : List SyntaxTree}
      (found : point.chunk settings.size = some ⟨.holeOpen, stop⟩)
      (filled : category .expression (scope.withNoIn false) (point.jump stop true) inner behind)
      (scanned : behind.next settings.dialect = .ok brace)
      (closes : brace.isPunctuator .rightBrace = true)
      (later : Chunks scope (.after brace) rest last) :
      Chunks scope point
        (.leaf (.fixed .holeOpen) ⟨point.place.offset, stop⟩ :: inner ::
          .leaf (.fixed (.punctuator .rightBrace)) brace.span :: rest) last

/-- The goals that are asked for in a template behind its opening backtick. -/
inductive ChunkCalls (scope : Scope) : Point → Goal → Scope → Point → Prop where
  | here {point : Point} {stop : Nat}
      (found : point.chunk settings.size = some ⟨.holeOpen, stop⟩) :
      ChunkCalls scope point .expression (scope.withNoIn false) (point.jump stop true)
  | text {point target : Point} {stop : Nat} {goal : Goal} {inside : Scope}
      (found : point.chunk settings.size = some ⟨.templateText, stop⟩)
      (later : ChunkCalls scope (point.jump stop false) goal inside target) :
      ChunkCalls scope point goal inside target
  | hole {point behind target : Point} {stop : Nat} {inner : SyntaxTree} {brace : Token}
      {goal : Goal} {inside : Scope}
      (found : point.chunk settings.size = some ⟨.holeOpen, stop⟩)
      (filled : category .expression (scope.withNoIn false) (point.jump stop true) inner behind)
      (scanned : behind.next settings.dialect = .ok brace)
      (closes : brace.isPunctuator .rightBrace = true)
      (later : ChunkCalls scope (.after brace) goal inside target) :
      ChunkCalls scope point goal inside target

namespace Phrase

/-- A phrase leads from one point to another and adds to the trees collected
before. -/
def Reads : Phrase → Scope → Point → List SyntaxTree → Point → List SyntaxTree → Prop
  | .done, _, point, before, last, trees => last = point ∧ trees = before
  | .take kind, _, point, before, last, trees =>
      ∃ token, point.next settings.dialect = .ok token ∧ kind.admits token = true ∧
        last = .after token ∧ trees = before ++ [.leaf kind token.span]
  | .ask goal, scope, point, before, last, trees =>
      ∃ tree, category goal scope point tree last ∧ trees = before ++ [tree]
  | .sub inner, scope, point, before, last, trees =>
      ∃ added, inner.Reads scope point [] last added ∧ trees = before ++ added
  | .reduce rule, _, point, before, last, trees => last = point ∧ trees = [build rule before]
  | .seq first second, scope, point, before, last, trees =>
      ∃ middle between, first.Reads scope point before middle between ∧
        second.Reads scope middle between last trees
  | .either first second, scope, point, before, last, trees =>
      first.Reads scope point before last trees ∨ second.Reads scope point before last trees
  | .many inner, scope, point, before, last, trees =>
      Relation.ReflTransGen
        (fun current next => inner.Reads scope current.1 current.2 next.1 next.2)
        (point, before) (last, trees)
  | .within change inner, scope, point, before, last, trees =>
      inner.Reads (change scope) point before last trees
  | .given holds, scope, point, before, last, trees =>
      holds settings scope point before ∧ last = point ∧ trees = before
  | .byKind family, scope, point, before, last, trees =>
      ∃ token, point.next settings.dialect = .ok token ∧
        (family token.kind).Reads scope point before last trees
  | .template, scope, point, before, last, trees =>
      ∃ token rest, point.next settings.dialect = .ok token ∧
        token.isPunctuator .backtick = true ∧
        Chunks settings category scope (.after token) rest last ∧
        trees = before ++ [build .templateString
          (.leaf (.fixed (.punctuator .backtick)) token.span :: rest)]

variable {settings category}

/-- A repeated phrase is read round by round. -/
@[elab_as_elim]
theorem Reads.rounds {inner : Phrase} {scope : Scope} {point : Point} {before : List SyntaxTree}
    {motive : ∀ last trees,
      (Phrase.many inner).Reads settings category scope point before last trees → Prop}
    (start : motive point before .refl)
    (round : ∀ {middle between last trees}
      (earlier : (Phrase.many inner).Reads settings category scope point before middle between)
      (step : inner.Reads settings category scope middle between last trees),
      motive middle between earlier → motive last trees (.tail earlier step))
    {last : Point} {trees : List SyntaxTree}
    (reads : (Phrase.many inner).Reads settings category scope point before last trees) :
    motive last trees reads := by
  have all : ∀ (final : Point × List SyntaxTree)
      (rounds : Relation.ReflTransGen (fun current next : Point × List SyntaxTree =>
        inner.Reads settings category scope current.1 current.2 next.1 next.2)
        (point, before) final), motive final.1 final.2 rounds := by
    intro final rounds
    induction rounds with
    | refl => exact start
    | tail earlier step ih => exact round earlier step ih
  exact all (last, trees) reads

variable (settings category)

/-- A phrase that is read from a point, perhaps not to its end, asks for a
goal at another point. -/
def Calls : Phrase → Scope → Point → List SyntaxTree → Goal → Scope → Point → Prop
  | .done, _, _, _, _, _, _ | .take _, _, _, _, _, _, _ => False
  | .reduce _, _, _, _, _, _, _ | .given _, _, _, _, _, _, _ => False
  | .ask goal, scope, point, _, asked, inside, target =>
      asked = goal ∧ inside = scope ∧ target = point
  | .sub inner, scope, point, _, asked, inside, target =>
      inner.Calls scope point [] asked inside target
  | .seq first second, scope, point, before, asked, inside, target =>
      first.Calls scope point before asked inside target ∨
        ∃ middle between, first.Reads settings category scope point before middle between ∧
          second.Calls scope middle between asked inside target
  | .either first second, scope, point, before, asked, inside, target =>
      first.Calls scope point before asked inside target ∨
        second.Calls scope point before asked inside target
  | .many inner, scope, point, before, asked, inside, target =>
      ∃ middle between,
        (Phrase.many inner).Reads settings category scope point before middle between ∧
          inner.Calls scope middle between asked inside target
  | .within change inner, scope, point, before, asked, inside, target =>
      inner.Calls (change scope) point before asked inside target
  | .byKind family, scope, point, before, asked, inside, target =>
      ∃ token, point.next settings.dialect = .ok token ∧
        (family token.kind).Calls scope point before asked inside target
  | .template, scope, point, _, asked, inside, target =>
      ∃ token, point.next settings.dialect = .ok token ∧
        token.isPunctuator .backtick = true ∧
        ChunkCalls settings category scope (.after token) asked inside target

end Phrase

end Grammar

end ScriptTree
