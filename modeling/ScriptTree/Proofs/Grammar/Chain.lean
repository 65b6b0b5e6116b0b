import ScriptTree.Proofs.Grammar.Forward
import ScriptTree.Proofs.Grammar.Precedence

/-!
# Chains of names and operators

Names with binary operators between them are read as one expression.
-/

namespace ScriptTree

namespace Grammar

/-- The tokens of an operator and of the name behind it. -/
structure Joint where
  operator : BinaryOperator
  sign : Token
  name : Token

namespace Joint

/-- The leaves made of the tokens. -/
def link (joint : Joint) : Link :=
  ⟨joint.operator.kind, joint.sign.span, joint.name.span⟩

/-- The token in front of some joints, where another one ends them. -/
def front (last : Token) (joints : List Joint) : Token :=
  (joints.head?.map Joint.sign).getD last

@[simp]
theorem front_nil (last : Token) : front last [] = last :=
  rfl

/-- The last name of a chain that starts with the given one. -/
def lastName (name : Token) (joints : List Joint) : Token :=
  (joints.getLast?.map Joint.name).getD name

theorem lastName_append (name : Token) (joints others : List Joint) :
    lastName name (joints ++ others) = lastName (lastName name joints) others := by
  unfold lastName
  cases others using List.reverseRecOn with
  | nil => simp
  | append_singleton others joint => simp [← List.append_assoc]

theorem lastName_cons (name : Token) (joint : Joint) (joints : List Joint) :
    lastName name (joint :: joints) = lastName joint.name joints :=
  lastName_append name [joint] joints

end Joint

open Joint

variable {settings : Settings} {last : Token} {state : State} {name : Token} {point : Point}

/-- Operators and names follow each other behind a point, up to a last
token. -/
inductive Behind (settings : Settings) (last : Token) : Point → List Joint → Prop where
  | ends {point : Point} (run : point.next settings.dialect = .ok last) :
      Behind settings last point []
  | link {point : Point} {joint : Joint} {joints : List Joint}
      (run : point.next settings.dialect = .ok joint.sign)
      (found : BinaryOperator.ofToken? joint.sign.kind false = some joint.operator)
      (operand : (Point.after joint.sign).next settings.dialect = .ok joint.name)
      (isName : joint.name.kind = .identifier)
      (later : Behind settings last (.after joint.name) joints) :
      Behind settings last point (joint :: joints)

namespace Behind

variable {joints : List Joint}

theorem front_next (behind : Behind settings last point joints) :
    point.next settings.dialect = .ok (front last joints) := by
  cases behind with
  | ends run | link run => exact run

theorem front_cases (behind : Behind settings last point joints) (isLast : last.isEnd = true) :
    (front last joints).kind = .endOfText ∨
      (BinaryOperator.ofToken? (front last joints).kind false).isSome = true := by
  cases behind with
  | ends run =>
      have kind : last.kind = .endOfText := by simpa [Token.isEnd] using isLast
      exact .inl kind
  | @link point joint joints run found =>
      refine .inr ?_
      change (BinaryOperator.ofToken? joint.sign.kind false).isSome = true
      rw [found]
      rfl

/-- The token behind a name is no sign but an operator. -/
theorem isSign_front (behind : Behind settings last point joints) (isLast : last.isEnd = true)
    {sign : Punctuator} (other : BinaryOperator.ofPunctuator? sign = none) :
    (front last joints).isPunctuator sign = false := by
  rw [Token.isPunctuator, beq_eq_false_iff_ne]
  intro same
  obtain isEnd | isOperator := behind.front_cases isLast
  · cases same.symm.trans isEnd
  · rw [same] at isOperator
    change (BinaryOperator.ofPunctuator? sign).isSome = true at isOperator
    rw [other] at isOperator
    cases isOperator

theorem isName_front (behind : Behind settings last point joints) (isLast : last.isEnd = true) :
    (front last joints).isIdentifier = false := by
  rw [Token.isIdentifier, beq_eq_false_iff_ne]
  intro same
  obtain isEnd | isOperator := behind.front_cases isLast
  · cases same.symm.trans isEnd
  · rw [same] at isOperator
    cases isOperator

theorem leavesName_front (behind : Behind settings last point joints) (isLast : last.isEnd = true) :
    leavesName (front last joints).kind = true := by
  obtain isEnd | isOperator := behind.front_cases isLast
  · rw [isEnd]
    rfl
  · obtain ⟨operator, found⟩ := Option.isSome_iff_exists.mp isOperator
    exact leavesName_of_operator found

/-- The last token is the next one behind the last name. -/
theorem last_next (behind : Behind settings last (.after name) joints) :
    (Point.after (lastName name joints)).next settings.dialect = .ok last := by
  induction joints generalizing name with
  | nil =>
      cases behind with
      | ends run => exact run
  | cons joint more ih =>
      cases behind with
      | link run found operand isName later =>
          rw [lastName_cons]
          exact ih later

theorem bare (behind : Behind settings last (.after name) joints) (isLast : last.isEnd = true)
    (isName : name.kind = .identifier) : Bare settings name (front last joints) :=
  ⟨isName, behind.front_next, behind.leavesName_front isLast⟩

end Behind

/-- Reading operators of at least some level gives a tree of the first joints,
and stops before one with an operator of a lower level. -/
def Climbs (settings : Settings) (last name : Token) (first : Span) (links : List Link)
    (joints : List Joint) (state : State) (level : Nat) (outcome : Outcome SyntaxTree) : Prop :=
  ∃ taken left tree, joints = taken ++ left ∧ Joins first (links ++ taken.map link) tree ∧
    (∀ joint ∈ left.head?, joint.operator.level < level) ∧
    Behind settings last (.after (lastName name taken)) left ∧
    outcome = .ok tree ((state.pass (lastName name taken)).look (front last left))

theorem rounds_climb {steps level : Nat} {name : Token} {joints : List Joint} {first : Span}
    {links : List Link} {tree : SyntaxTree}
    (operands : ∀ more : List Joint, more.length < joints.length → ∀ (state : State) (name : Token)
      (level : Nat), Faces settings state name → name.kind = .identifier →
      Behind settings last (.after name) more → state.inAsync = false → state.noIn = false →
      Climbs settings last name name.span [] more state level
        (read steps (.binary level) settings state))
    (unbounded : settings.limit = none)
    (behind : Behind settings last (.after name) joints)
    (isIn : state.noIn = false) (notAsync : state.inAsync = false) {rounds : Nat}
    (enough : joints.length < rounds) (isLast : last.isEnd = true)
    (joins : Joins first links tree) :
    Climbs settings last name first links joints state level
      (iterate (binaryStep ⟨steps, read steps⟩ level) rounds tree settings
        ((state.pass name).look (front last joints))) := by
  obtain ⟨rounds, rfl⟩ : ∃ fewer, rounds = fewer + 1 := ⟨rounds - 1, by omega⟩
  have faces : Faces settings ((state.pass name).look (front last joints)) (front last joints) :=
    (Faces.pass behind.front_next).look
  cases id behind with
  | ends run =>
      refine ⟨[], [], tree, rfl, by simpa using joins, by simp, behind, ?_⟩
      have kind : last.kind = .endOfText := by simpa [Token.isEnd] using isLast
      refine iterate_done (by omega) (binaryStep_done faces fun operator found => ?_)
      rw [front_nil, kind] at found
      cases found
  | @link _ joint more run found operand isName later =>
      by_cases tight : level ≤ joint.operator.level
      · let deeper : State := { state.pass joint.sign with depth := state.depth + 1 }
        have facesName : Faces settings deeper joint.name := (Faces.pass operand).deepen _
        obtain ⟨taken, left, right, rfl, rightJoins, -, behindLeft, rightRun⟩ :=
          operands more (by simp) deeper joint.name joint.operator.operandLevel facesName isName
            later notAsync isIn
        have shorter : left.length < (joint :: (taken ++ left)).length := by
          simp only [List.length_cons, List.length_append]
          omega
        have isOperator :
            BinaryOperator.ofToken? joint.sign.kind state.noIn = some joint.operator :=
          isIn ▸ found
        have step : binaryStep ⟨steps, read steps⟩ level tree settings _ = _ :=
          binaryStep_again faces isOperator tight (nested_run unbounded rightRun rfl)
        obtain ⟨further, final, whole, rfl, joined, ends, behindFinal, finalRun⟩ := rounds_climb
          (fun other fewer => operands other (fewer.trans shorter)) unbounded behindLeft isIn
          notAsync
          (by omega : left.length < rounds) isLast (.join joint.link joins rightJoins rfl)
        refine ⟨joint :: (taken ++ further), final, whole, by simp, by simpa using joined, ends, ?_,
          ?_⟩
        · rwa [← lastName_append, ← lastName_cons] at behindFinal
        · rw [iterate_again step, lastName_cons, lastName_append]
          exact finalRun
      · refine ⟨[], joint :: more, tree, rfl, by simpa using joins, by simpa using tight, behind,
          iterate_done (by omega) (binaryStep_done faces fun operator same => ?_)⟩
        have isFound : BinaryOperator.ofToken? joint.sign.kind false = some operator := isIn ▸ same
        rw [found] at isFound
        cases isFound
        omega
termination_by joints.length

/-- A chain is read at a level up to the first operator below it. -/
theorem binary_climbs (unbounded : settings.limit = none) (isLast : last.isEnd = true)
    {joints : List Joint} {state : State} {name : Token} {level steps : Nat}
    (faces : Faces settings state name) (isName : name.kind = .identifier)
    (behind : Behind settings last (.after name) joints) (notAsync : state.inAsync = false)
    (isIn : state.noIn = false) (enough : joints.length < steps) :
    Climbs settings last name name.span [] joints state level
      (binary ⟨steps, read steps⟩ level settings state) := by
  have bare := behind.bare isLast isName
  unfold binary
  rw [bind_run (bare.unary_run faces (by simpa using Nat.zero_lt_of_lt enough)
    (by rw [notAsync, Bool.false_and]))]
  refine rounds_climb (fun more fewer state name level faces isName behind notAsync isIn => ?_)
    unbounded behind isIn notAsync enough isLast (.operand name.span)
  cases steps with
  | zero => cases enough
  | succ fewerSteps =>
      exact binary_climbs unbounded isLast faces isName behind notAsync isIn (by omega)
termination_by joints.length

/-! ## Whole texts -/

variable {joints : List Joint}

/-- What is known where a chain starts that goes on to the end of the text. -/
structure Starts (settings : Settings) (last name : Token) (joints : List Joint) (state : State) :
    Prop where
  faces : Faces settings state name
  isName : name.kind = .identifier
  behind : Behind settings last (.after name) joints
  notAsync : state.inAsync = false
  isIn : state.noIn = false
  isLast : last.isEnd = true
  mayEnd : mayEndBefore settings last = true
  unbounded : settings.limit = none

namespace Starts

variable {steps : Nat}

/-- The state behind the whole chain. -/
theorem faces_last (starts : Starts settings last name joints state) :
    Faces settings ((state.pass (lastName name joints)).look last) last :=
  (Faces.pass starts.behind.last_next).look

theorem last_not_sign (isLast : last.isEnd = true) (sign : Punctuator) :
    last.isPunctuator sign = false := by
  have kind : last.kind = .endOfText := by simpa [Token.isEnd] using isLast
  rw [Token.isPunctuator, kind]
  rfl

/-- No operator is below the lowest level, so a whole chain is one operand. -/
theorem binary_whole (starts : Starts settings last name joints state)
    (enough : joints.length < steps) :
    ∃ tree, Joins name.span (joints.map link) tree ∧
      binary ⟨steps, read steps⟩ BinaryOperator.lowest settings state =
        .ok tree ((state.pass (lastName name joints)).look last) := by
  have climbs : Climbs settings last name name.span [] joints state BinaryOperator.lowest _ :=
    binary_climbs starts.unbounded starts.isLast starts.faces starts.isName starts.behind
      starts.notAsync starts.isIn enough
  obtain ⟨taken, left, tree, rfl, joins, ends, behind, run⟩ := climbs
  cases behind with
  | ends found =>
      exact ⟨tree, by simpa using joins, by simpa using run⟩
  | @link _ joint more found isOperator =>
      exfalso
      have low := ends joint (by simp)
      obtain ⟨spelling, operates, -⟩ := operator_operates isOperator
      have := operates.lowest
      omega

theorem assignment_whole (starts : Starts settings last name joints state)
    (enough : joints.length < steps) :
    ∃ tree, Joins name.span (joints.map link) tree ∧
      assignment ⟨steps, read steps⟩ settings state =
        .ok tree ((state.pass (lastName name joints)).look last) := by
  have bare := starts.behind.bare starts.isLast starts.isName
  have deeper := starts.faces.deepen (state.depth + 1)
  have noArrow : arrow? ⟨steps, read steps⟩ settings _ = _ := bare.arrow_none deeper
    (starts.behind.isSign_front starts.isLast rfl) (starts.behind.isName_front starts.isLast)
  have inside : Starts settings last name joints
      (State.look { state with depth := state.depth + 1 } name) :=
    { starts with faces := deeper.look }
  obtain ⟨tree, joins, run⟩ := inside.binary_whole enough
  have tested := conditional_run run inside.faces_last (last_not_sign starts.isLast _)
  have kind : last.kind = .endOfText := by simpa [Token.isEnd] using starts.isLast
  refine ⟨tree, joins, ?_⟩
  rw [assignment_run starts.unbounded noArrow tested inside.faces_last.look (by rw [kind]; rfl)]
  rfl

theorem expressionStatement_whole (starts : Starts settings last name joints state)
    (enough : joints.length + 1 < steps) :
    ∃ tree, Joins name.span (joints.map link) tree ∧
      expressionStatement ⟨steps, read steps⟩ settings state =
        .ok (build .expressionStatement [tree])
          ((state.pass (lastName name joints)).look last) := by
  obtain ⟨fewer, rfl⟩ : ∃ fewer, steps = fewer + 1 := ⟨steps - 1, by omega⟩
  have fewerEnough : joints.length < fewer := by omega
  obtain ⟨tree, joins, run⟩ := starts.assignment_whole fewerEnough
  have asked : read (fewer + 1) .assignment settings state = _ := run
  have whole : expression ⟨fewer + 1, read (fewer + 1)⟩ settings state = _ :=
    expression_run asked starts.faces_last (last_not_sign starts.isLast _)
  refine ⟨tree, joins, ?_⟩
  unfold expressionStatement
  rw [bind_run whole, bind_run (terminate_run starts.faces_last.look (last_not_sign starts.isLast _)
    starts.mayEnd)]
  rfl

theorem statement_whole (starts : Starts settings last name joints state)
    (enough : joints.length + 1 < steps) :
    ∃ tree, Joins name.span (joints.map link) tree ∧
      statement ⟨steps, read steps⟩ settings state =
        .ok (build .expressionStatement [tree])
          ((state.pass (lastName name joints)).look last) := by
  have bare := starts.behind.bare starts.isLast starts.isName
  have deeper := starts.faces.deepen (state.depth + 1)
  have inside : Starts settings last name joints
      (State.look { state with depth := state.depth + 1 } name) :=
    { starts with faces := deeper.look }
  obtain ⟨tree, joins, run⟩ := inside.expressionStatement_whole enough
  exact ⟨tree, joins, (statement_run starts.unbounded bare starts.faces
    (starts.behind.isSign_front starts.isLast rfl) run).trans rfl⟩

/-- A text that is a chain is read as one expression. -/
theorem parseWith_whole
    (starts : Starts settings last name joints (State.initial settings.source))
    (enough : joints.length + 2 < stepsFor settings.size) :
    ∃ tree, Joins name.span (joints.map link) tree ∧
      parseWith settings = .ok (.node (.rule .script) ⟨0, settings.size⟩
        [build .expressionStatement [tree]]) := by
  obtain ⟨steps, same⟩ : ∃ steps, stepsFor settings.size = steps + 1 + 1 :=
    ⟨stepsFor settings.size - 2, by omega⟩
  have inside : Starts settings last name joints ((State.initial settings.source).look name) :=
    { starts with faces := starts.faces.look }
  have stepsEnough : joints.length + 1 < steps + 1 := by omega
  obtain ⟨tree, joins, run⟩ := inside.statement_whole stepsEnough
  have notEnd : name.isEnd = false := by
    rw [Token.isEnd, starts.isName]
    rfl
  have asked :
      read (steps + 1 + 1) .statement settings ((State.initial settings.source).look name) =
      _ := run
  have whole : script ⟨steps + 1 + 1, read (steps + 1 + 1)⟩ settings _ = _ :=
    script_run (by simp) starts.faces notEnd asked inside.faces_last starts.isLast
  refine ⟨tree, joins, ?_⟩
  unfold parseWith
  simp only [same, whole]

end Starts

end Grammar

end ScriptTree
