import ScriptTree.Proofs.Grammar.Operator

/-!
# Phrases of arrow functions and assignments
-/

namespace ScriptTree

namespace Grammar

namespace Phrase

/-- The parameters of an arrow function, or its only one. -/
def inputs : Phrase :=
  .named .variableDefinition <|> .sub parameters

def arrowRest (isAsync : Bool) : Phrase :=
  .all [.sign .arrow,
    .all [.ahead (·.isPunctuator .leftBrace), .sub (functionBody isAsync)] <|>
      .all [.ahead fun token => !token.isPunctuator .leftBrace,
        .within (.withAsync isAsync) (.ask .assignment)],
    .reduce .arrowFunction]

/-- Nothing, perhaps after an attempt that is undone. -/
def tried (inner : Phrase) : Phrase :=
  .done <|> .all [inner, .given fun _ _ _ _ => False]

def arrow : Phrase :=
  .all [.modifier .asyncWord true, inputs, arrowRest true] <|> .all [inputs, arrowRest false]

/-- An expression that binds more tightly than an assignment, and perhaps a
value that is assigned to it. -/
def assigned : Phrase :=
  .all [conditional,
    .byKind fun kind =>
      match assignmentKind? kind with
      | some rule => .all [.ensure assignsLast, .named rule, .ask .assignment,
          .reduce .assignmentExpression]
      | none => .done]

/-- An arrow function, an assignment, or an expression that binds more
tightly. -/
def assignment : Phrase :=
  arrow <|> assigned

def sequenceRound (again : Bool) : Phrase :=
  .all [.sign .comma, .ask .assignment, .leave again true] <|>
    .all [.ahead fun token => !token.isPunctuator .comma, .leave again false]

/-- Assignments separated by commas. -/
def expression : Phrase :=
  .all [.ask .assignment,
    .all [.ahead (·.isPunctuator .comma), .loop sequenceRound, .reduce .sequenceExpression] <|>
      .ahead fun token => !token.isPunctuator .comma]

end Phrase

variable {settings : Settings} {category : Category}

open Implements

/-! ## Heads of arrow functions -/

/-- The next token is the modifier of an asynchronous arrow function, if one
is asked for. -/
def Announced (settings : Settings) (isAsync : Bool) (point : Point) : Prop :=
  isAsync = true → ∃ first second, point.next settings.dialect = .ok first ∧
    (Point.after first).next settings.dialect = .ok second ∧ continuesAt settings second = true

section Head

variable {Value : Type} [Nonempty Value] {pre : Scope → Point → Prop}
  {before : List SyntaxTree} {phrase : Value → Phrase} {view : Value → List SyntaxTree}

theorem startsAsyncHead_then {next : Bool → Descent → Parse Value}
    (rule : ∀ isAsync, Implements settings category
      (fun scope point => pre scope point ∧ Announced settings isAsync point) before phrase view
      (next isAsync)) :
    Implements settings category pre before phrase view
      (fun descent => startsAsyncHead >>= fun isAsync => next isAsync descent) := by
  have plain {stronger : Scope → Point → Prop}
      (implies : ∀ scope point, stronger scope point → pre scope point) :
      Implements settings category stronger before phrase view (next false) :=
    (rule false).under fun _ _ holds => ⟨implies _ _ holds, nofun⟩
  unfold startsAsyncHead
  simp only [bind_assoc, ite_bind, pure_bind, continues]
  refine test rfl ?_ (plain fun _ _ holds => holds.1)
  refine second_then fun second => ite (fun _ => ?_) fun _ => plain fun _ _ holds => holds.1.1
  refine settings_then ?_
  cases inLine : continuesAt settings second with
  | false => exact plain fun _ _ holds => holds.1.1
  | true =>
      refine (rule true).under fun _ _ holds => ⟨holds.1.1, fun _ => ?_⟩
      obtain ⟨first, isFirst, isSecond⟩ := holds.2
      exact ⟨first, second, isFirst, isSecond, inLine⟩

theorem mayStartArrow_then {isAsync : Bool} {next : Bool → Descent → Parse Value}
    (rule : ∀ starts, Implements settings category pre before phrase view (next starts)) :
    Implements settings category pre before phrase view
      (fun descent => mayStartArrow isAsync >>= fun starts => next starts descent) := by
  have goOn {stronger : Scope → Point → Prop} (starts : Bool)
      (implies : ∀ scope point, stronger scope point → pre scope point) :
      Implements settings category stronger before phrase view (next starts) :=
    (rule starts).under implies
  unfold mayStartArrow
  simp only [bind_assoc, ite_bind, pure_bind]
  refine peek_then fun token => ite (fun _ => goOn _ fun _ _ holds => holds.1) fun _ => ?_
  refine ite (fun _ => ?_) fun _ => goOn _ fun _ _ holds => holds.1
  exact second_then fun second => goOn _ fun _ _ holds => holds.1.1

end Head

/-- The phrase of a head that was read, which tells whether it has a
modifier. -/
private def headPhrase (isAsync : Bool) (head : Option SyntaxTree × SyntaxTree) : Phrase :=
  if isAsync then .all [.modifier .asyncWord true, .inputs, modified] else .all [.inputs, modified]
where
  modified : Phrase := .given fun _ _ _ _ => head.1.isSome = isAsync

private theorem headTail_implements {pre : Scope → Point → Prop} (modifier : Option SyntaxTree) :
    Implements settings category pre modifier.toList
      (fun head => .all [.inputs, .given fun _ _ _ _ => head.1.isSome = modifier.isSome])
      (fun head => head.1.toList ++ [head.2]) (fun descent => do
        let inputs ←
          if (← peek).isIdentifier then named .variableDefinition else parameters descent
        let arrow ← peek
        if arrow.isPunctuator .arrow then
          return (modifier, inputs)
        else
          failAt arrow (.spelling (.punctuator .arrow))) := by
  refine peek_part (takes fun _ _ holds => holds.2) (sub parameters_produces) fun inputs => ?_
  refine peek_then fun arrow => ite (fun _ => ?_) fun _ => fail
  exact yields fun _ _ _ => ⟨rfl, rfl, rfl⟩

private theorem arrowHead_implements {isAsync : Bool} :
    Implements settings category (fun _ point => Announced settings isAsync point) []
      (headPhrase isAsync) (fun head => head.1.toList ++ [head.2]) (arrowHead · isAsync) := by
  unfold arrowHead
  cases isAsync with
  | false =>
      simp only [Bool.false_eq_true, if_false, pure_bind]
      exact headTail_implements none
  | true =>
      simp only [if_true, bind_map_left]
      refine andThen (ensures takes_contextual fun _ _ _ _ announced taken _ => ?_)
        fun modifier => ?_
      · obtain ⟨first, second, isFirst, isSecond, inLine⟩ := announced rfl
        exact ⟨second, second_is_next ⟨first, isFirst, isSecond⟩ taken, inLine⟩
      · exact headTail_implements (some modifier)

theorem arrowRest_implements (modifier : Option SyntaxTree) (inputs : SyntaxTree) :
    Implements settings category anywhere (modifier.toList ++ [inputs])
      (fun _ => .arrowRest modifier.isSome) (fun tree => [tree])
      (arrowRest · modifier inputs) := by
  unfold arrowRest
  refine andThen takes_sign fun arrow => ?_
  refine test_part rfl (given (fun _ _ holds => holds.2) (sub functionBody_produces))
    (given (fun _ _ holds => holds.2) (withAsync ask)) fun body => ?_
  exact reduces (by simp)

private def arrowPhrase (result : Option SyntaxTree) : Phrase :=
  match result with
  | some _ => .arrow
  | none => .tried .arrow

/-- What follows a head, provided an arrow function is found. -/
private def restPhrase (isAsync : Bool) (result : Option SyntaxTree) : Phrase :=
  match result with
  | some _ => .arrowRest isAsync
  | none => .given fun _ _ _ _ => False

/-- Nothing, provided no arrow function is found. -/
private def absentPhrase (result : Option SyntaxTree) : Phrase :=
  match result with
  | some _ => .given fun _ _ _ _ => False
  | none => .done

private theorem head_calls {isAsync : Bool} {head : Option SyntaxTree × SyntaxTree}
    {scope inside : Scope} {point target : Point} {before : List SyntaxTree} {goal : Goal}
    (called : (headPhrase isAsync head).Calls settings category scope point before goal inside
      target) :
    Phrase.arrow.Calls settings category scope point before goal inside target := by
  cases isAsync with
  | false =>
      obtain called | ⟨_, _, _, called⟩ := called
      · exact Or.inr (Or.inl called)
      · cases called
  | true =>
      obtain called | ⟨_, _, modifier, called | ⟨_, _, _, called⟩⟩ := called
      · exact Or.inl (Or.inl called)
      · exact Or.inl (Or.inr ⟨_, _, modifier, Or.inl called⟩)
      · cases called

/-- A head and what follows it make an arrow function. -/
private theorem head_covers (isAsync : Bool) (head : Option SyntaxTree × SyntaxTree)
    (result : Option SyntaxTree) :
    Covers settings category (.seq (headPhrase isAsync head) (restPhrase head.1.isSome result))
      (arrowPhrase result) := by
  cases result with
  | none =>
      constructor
      · rintro scope point before last trees ⟨_, _, _, wrong, _⟩
        cases wrong
      · rintro scope point before goal inside target (called | ⟨_, _, _, called⟩)
        · exact Or.inr (Or.inl (head_calls called))
        · cases called
  | some tree =>
      constructor
      · rintro scope point before last trees ⟨_, _, read, rest⟩
        cases isAsync with
        | false =>
            obtain ⟨_, _, inputs, modified, rfl, rfl⟩ := read
            rw [show head.1.isSome = false from modified] at rest
            exact Or.inr ⟨_, _, inputs, rest⟩
        | true =>
            obtain ⟨_, _, modifier, _, _, inputs, modified, rfl, rfl⟩ := read
            rw [show head.1.isSome = true from modified] at rest
            exact Or.inl ⟨_, _, modifier, _, _, inputs, rest⟩
      · rintro scope point before goal inside target (called | ⟨_, _, read, called⟩)
        · exact head_calls called
        cases isAsync with
        | false =>
            obtain ⟨_, _, inputs, modified, rfl, rfl⟩ := read
            rw [show head.1.isSome = false from modified] at called
            exact Or.inr (Or.inr ⟨_, _, inputs, called⟩)
        | true =>
            obtain ⟨_, _, modifier, _, _, inputs, modified, rfl, rfl⟩ := read
            rw [show head.1.isSome = true from modified] at called
            exact Or.inl (Or.inr ⟨_, _, modifier, Or.inr ⟨_, _, inputs, called⟩⟩)

private theorem absent_covers (result : Option SyntaxTree) :
    Covers settings category (absentPhrase result) (arrowPhrase result) := by
  cases result with
  | some tree => exact ⟨fun read => read.1.elim, fun called => called.elim⟩
  | none => exact ⟨fun read => Or.inl read, fun called => called.elim⟩

private theorem rejected_implements {offset : Nat} :
    Implements settings category anywhere [] absentPhrase Option.toList
      (fun _ => reject offset >>= fun _ => pure none) where
  reads := by
    intro descent state last value sound valid holds run
    cases run
    exact ⟨valid, ⟨rfl, rfl, fun _ member => List.mem_cons_of_mem _ member⟩, rfl, rfl⟩
  fails _ _ _ run := nomatch run
  asks _ _ _ _ _ := rfl

private theorem arrow?_implements :
    Implements settings category anywhere [] arrowPhrase Option.toList arrow? := by
  have missing {pre : Scope → Point → Prop} :
      Implements settings category pre [] arrowPhrase Option.toList (fun _ => pure none) :=
    yields fun _ _ _ => Or.inl ⟨rfl, rfl⟩
  unfold arrow?
  refine peek_then fun token => startsAsyncHead_then fun isAsync => ?_
  refine mayStartArrow_then fun starts => ite (fun _ => ?_) fun _ => missing
  simp only [wasRejected, bind_assoc, pure_bind]
  refine settings_then (state_then fun current => ite (fun _ => missing) fun _ => ?_)
  refine attempt_then
    (arrowHead_implements.under fun _ _ holds => holds.1.2)
    (head_covers isAsync) absent_covers (fun head => ?_) ?_
  · exact mapped (arrowRest_implements head.1 head.2) fun _ => rfl
  · exact rejected_implements

private def behindArrow (found : Option SyntaxTree) : Phrase :=
  match found with
  | some _ => .done
  | none => .assigned

private theorem behindArrow_covers (found : Option SyntaxTree) :
    Covers settings category (.seq (arrowPhrase found) (behindArrow found)) .assignment := by
  cases found with
  | some tree =>
      constructor
      · rintro scope point before last trees ⟨_, _, read, rfl, rfl⟩
        exact Or.inl read
      · rintro scope point before goal inside target (called | ⟨_, _, _, called⟩)
        · exact Or.inl called
        · cases called
  | none =>
      constructor
      · rintro scope point before last trees ⟨_, _, ⟨rfl, rfl⟩ | ⟨_, _, _, wrong, _⟩, read⟩
        · exact Or.inr read
        · cases wrong
      · rintro scope point before goal inside target
          ((called | called | ⟨_, _, _, called⟩) | ⟨_, _, ⟨rfl, rfl⟩ | ⟨_, _, _, wrong, _⟩, called⟩)
        · cases called
        · exact Or.inl called
        · cases called
        · exact Or.inr called
        · cases wrong

theorem admits_assignment {token : Token} {rule : Rule}
    (found : assignmentKind? token.kind = some rule) : (Kind.rule rule).admits token = true := by
  have again := found
  unfold assignmentKind? at found
  split at found
  all_goals cases found
  all_goals simp_all [Kind.admits, Token.isPunctuator]

theorem assignment_produces : Produces settings category .assignment assignment := by
  unfold assignment
  refine nested ?_
  refine arrow?_implements.followed (fun found _ => behindArrow found)
    (fun _ _ _ _ _ _ => trivial) (fun found _ => behindArrow_covers found) fun found => ?_
  cases found with
  | some function => exact finish rfl
  | none =>
      refine andThen conditional_produces fun target => ?_
      refine peek_byKind fun token => ?_
      cases assigns : assignmentKind? token.kind with
      | none => exact finish rfl
      | some rule =>
          simp only [assignable, bind_assoc, pure_bind]
          refine settings_then (ite (fun isTarget => ?_) fun _ => fail)
          refine given (fun _ _ _ => by simpa [Phrase.assignsLast] using isTarget) ?_
          refine andThen (takes fun _ _ holds => ⟨token, holds.2, admits_assignment assigns⟩)
            fun operator => ?_
          exact andThen ask fun value => reduces (by simp)

theorem expression_produces : Produces settings category .expression expression := by
  unfold expression
  refine andThen ask fun first => ?_
  refine test_ite rfl (given (fun _ _ holds => holds.2) ?_) ?_
  · refine andThen (collects rfl fun trees => ?_) fun trees => reduces rfl
    refine accept_then (fun comma => ?_) (given (fun _ _ holds => holds.2) (stop rfl))
    exact andThen ask fun value => again (by simp)
  · exact yields fun _ _ holds => ⟨holds.2, rfl, rfl⟩

end Grammar

end ScriptTree
