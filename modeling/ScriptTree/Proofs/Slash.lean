import ScriptTree.Proofs.Grammar.Closing
import ScriptTree.Proofs.Grammar.Opening

/-!
# What a slash is taken for

The lookahead is scanned as what stands in front of it on the trail says.
Where an operand starts a slash opens a pattern, but for the first operand of a
statement and those behind a few words and signs.  Behind an operand a slash
divides, unless the operand ends in a brace or in a reserved word.
-/

namespace ScriptTree

open Grammar

variable {settings : Settings} {state : State}

namespace Grammar

/-- The reader stands where the trail of the text comes to, and what it has
looked at is what is scanned there. -/
structure State.OnTrail (settings : Settings) (state : State) : Prop where
  valid : state.Valid settings
  behind : ∃ previous, state.point.Behind settings previous

/-- An operand may start at a point behind `previous`: a slash there opens a
pattern, or a statement is asked for at the same point, or `previous` is one of
the tokens that an operand may follow although a slash divides. -/
def StartsOperand (settings : Settings) (point : Point) (previous : Previous) : Prop :=
  previous.allowsPattern = true ∨
    (∃ steps outer, Reached settings steps .statement outer ∧ outer.point = point) ∨
    previous.precedesOperand = true

/-- Behind an operand that was read, the next token is scanned as the last leaf
of the operand says. -/
def EndsOperand (settings : Settings) (tree : SyntaxTree) (after : State) : Prop :=
  after.OnTrail settings ∧
    after.patternAllowed = tree.endsOpen settings.dialect settings.source

theorem startsOperand_readying : Readying settings fun point =>
    ∃ previous, point.Behind settings previous ∧ StartsOperand settings point previous := by
  rintro point previous behind (allows | precedes)
  · exact ⟨previous, behind, .inl allows⟩
  · exact ⟨previous, behind, .inr (.inr precedes)⟩

theorem Reached.startsOperand {steps : Nat} {goal : Goal}
    (reached : Reached settings steps goal state) :
    goal = .statement ∨ ∃ previous, state.point.Behind settings previous ∧
      StartsOperand settings state.point previous := by
  induction reached with
  | script asks =>
      obtain ⟨-, calls⟩ := script_calls asks
      exact (Phrase.script_guards .none).calls_ready Derives.keeping startsOperand_readying
        (script_tracked settings) (.none _) calls
  | @within _ goal _ state _ reached asks ih =>
      obtain ⟨-, calls⟩ := Reached.calls reached.valid asks
      obtain ⟨previous, behind⟩ := reached.behind
      have starts : ∃ previous, state.point.Behind settings previous ∧
          StartsOperand settings state.point previous := by
        rcases ih with rfl | starts
        · exact ⟨previous, behind, .inr (.inl ⟨_, _, reached, rfl⟩)⟩
        · exact starts
      exact (Phrase.ofGoal_guards goal).calls_ready Derives.keeping startsOperand_readying
        (behind.tracked goal) (.full starts) calls

section

variable {Value : Type} {before : List SyntaxTree} {phrase : Value → Phrase}
  {view : Value → List SyntaxTree} {step : Descent → Parse Value} {descent : Descent}
  (rule : Implements settings (Derives settings) anywhere before phrase view step)
  (sound : descent.Sound settings (Derives settings)) {value : Value} {tree : SyntaxTree}
  {after : State} (onTrail : state.OnTrail settings)
  (run : step descent settings state = .ok value after)

include rule sound onTrail run

/-- The trail goes along with a step that succeeds. -/
theorem Implements.keepsTrail
    (balanced : ∀ holds braces, (phrase value).Braces holds braces ↔ holds braces) :
    after.OnTrail settings := by
  have along := rule.reads sound onTrail.valid trivial run
  obtain ⟨previous, braces, outer, traced⟩ := onTrail.behind
  have known : (phrase value).Braces (fun _ => True) braces := (balanced _ _).mpr trivial
  obtain ⟨later, -, other, there⟩ := known.within Derives.keeping along.reads ⟨_, traced⟩
  exact ⟨along.valid, other, later, outer, there⟩

/-- A step whose phrase ends an operand leaves a state behind the operand. -/
theorem Implements.endsOperand (sized : settings.size = Text.size settings.source)
    (balanced : ∀ holds braces, (phrase value).Braces holds braces ↔ holds braces)
    (closes : (phrase value).Closes False) (shows : view value = [tree]) :
    EndsOperand settings tree after := by
  refine ⟨rule.keepsTrail sound onTrail run balanced, ?_⟩
  have reads := (rule.reads sound onTrail.valid trivial run).reads
  rw [shows] at reads
  obtain ⟨previous, behind⟩ := onTrail.behind
  obtain ⟨-, ended⟩ := Phrase.closes_ended sized (·.ending sized) reads behind.inText
    fun never : False => never.elim
  obtain ⟨other, isLast, follows⟩ := ended closes
  cases isLast
  exact follows

end

theorem expectKeyword_new {tree : SyntaxTree} {after : State}
    (onTrail : state.OnTrail settings)
    (run : expectKeyword .newWord settings state = .ok tree after) :
    after.OnTrail settings ∧ after.patternAllowed = true := by
  have rule : Implements settings (Derives settings) anywhere [] (fun _ => .word .newWord)
      (fun tree => [] ++ [tree]) (fun _ => expectKeyword .newWord) := Implements.takes_word
  have sound : Descent.Sound settings (Derives settings) ⟨0, read 0⟩ :=
    read_sound derives_closed 0 0
  obtain ⟨-, -, token, -, admits, last, -⟩ := rule.reads sound onTrail.valid trivial run
  have isNew : token.kind = .keyword .newWord := eq_of_beq admits
  have allows := congrArg Point.patternAllowed last
  change after.patternAllowed = token.kind.allowsPatternAfter at allows
  refine ⟨rule.keepsTrail sound onTrail run fun _ _ => Iff.rfl, ?_⟩
  rw [allows, isNew]
  rfl

end Grammar

namespace Slash

def bracesSource : Text :=
  "!\x7b\x7d\n/2/1".toList

/-- The settings for reading it. -/
def bracesSettings : Settings :=
  .ofOptions ⟨.script, .standard⟩ bracesSource

/-- The reader in front of the first statement. -/
def beforeBang : State :=
  { State.initial bracesSource with
    peeked := some ⟨.punctuator .bang, ['!'], ⟨0, bracesSource⟩, ⟨1, bracesSource.tail⟩, .plain⟩ }

def beforeBraces : State :=
  { State.initial bracesSource with
    place := ⟨1, bracesSource.tail⟩
    depth := 3 }

theorem braces_reached : Reached bracesSettings 38 .unary beforeBraces := by
  have statement : Reached bracesSettings 40 .statement beforeBang :=
    .script (.of_without (by decide +kernel) (by decide +kernel))
  have assignment : Reached bracesSettings 39 .assignment { beforeBang with depth := 1 } :=
    .within statement (.of_without (by decide +kernel) (by decide +kernel))
  exact .within assignment (.of_without (by decide +kernel) (by decide +kernel))

/-- Whether a step succeeded, and a slash opens a pattern behind what it
read. -/
def opensPattern {Value : Type} : Outcome Value → Bool
  | .ok _ after => after.patternAllowed
  | .error _ _ => false

theorem braces_read : ∃ tree after, read 38 .unary bracesSettings beforeBraces = .ok tree after ∧
    after.patternAllowed = true := by
  have opens : opensPattern (read 38 .unary bracesSettings beforeBraces) = true := by
    decide +kernel
  cases run : read 38 .unary bracesSettings beforeBraces with
  | error fault after =>
      rw [run] at opens
      cases opens
  | ok tree after =>
      rw [run] at opens
      exact ⟨tree, after, rfl, opens⟩

end Slash

end ScriptTree
