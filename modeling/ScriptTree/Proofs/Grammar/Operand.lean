import ScriptTree.Proofs.Grammar.Function
import ScriptTree.Proofs.Grammar.Template

/-!
# Phrases of operands
-/

namespace ScriptTree

namespace Grammar

namespace Phrase

def spread : Phrase :=
  .all [.sign .ellipsis, .ask .assignment, .reduce .spread]

def element : Phrase :=
  spread <|> .ask .assignment

def argument (again : Bool) : Phrase :=
  .leave again false <|> .all [.sub element, commaOrEnd again]

def arguments : Phrase :=
  .within (.withNoIn false)
    (.all [.sign .leftParen, .loop argument, .sign .rightParen, .reduce .argList])

/-- A hole or an element of an array with the comma after it, or the end of
the array. -/
def arrayRound (again : Bool) : Phrase :=
  .all [.ahead (·.isPunctuator .rightBracket), .leave again false] <|>
    .all [.sign .comma, .leave again true] <|>
    .all [.ahead fun token => !token.isPunctuator .rightBracket, .sub element,
      .all [.ahead (·.isPunctuator .rightBracket), .leave again true] <|>
        .all [.sign .comma, .leave again true]]

def array : Phrase :=
  .within (.withNoIn false)
    (.all [.sign .leftBracket, .loop arrayRound, .sign .rightBracket, .reduce .arrayExpression])

def propertyMethod (isAsync : Bool) : Phrase :=
  .all [.sub propertyKey, .sub (methodRest isAsync), .reduce .property]

/-- An entry of an object without modifiers. -/
def plainProperty : Phrase :=
  .all [.sub propertyKey,
    .all [.ahead (·.isPunctuator .leftParen), .sub (methodRest false), .reduce .property] <|>
      .all [.sign .colon, .ask .assignment, .reduce .property] <|>
      .all [.ensure isShorthand, .reduce .property]]

/-- One entry of an object literal. -/
def property : Phrase :=
  leading (starred (propertyMethod true) (propertyMethod true)) (propertyMethod false)
    (starred (propertyMethod false) plainProperty)

/-- An entry of an object or a spread element. -/
def entry : Phrase :=
  spread <|> property

def objectRound (again : Bool) : Phrase :=
  .leave again false <|> .all [.sub entry, commaOrEnd again]

def object : Phrase :=
  .within (.withNoIn false)
    (.all [.sign .leftBrace, .loop objectRound, .sign .rightBrace, .reduce .objectExpression])

/-- An expression between parentheses. -/
def parenthesized : Phrase :=
  .within (.withNoIn false)
    (.all [.sign .leftParen, .ask .expression, .sign .rightParen,
      .reduce .parenthesizedExpression])

/-- A name, or an asynchronous function if the name is its modifier. -/
def nameOrFunction : Phrase :=
  .asyncFunction .functionExpression <|> .named .variableName

/-- An operand without anything following it. -/
def primary : Phrase :=
  .byKind fun kind =>
    match kind with
    | .identifier => nameOrFunction
    | .number => .named .number
    | .string => .named .string
    | .pattern => .named .regExp
    | .keyword .functionWord => .function .functionExpression false
    | .keyword .classWord => .classDefinition .classExpression
    | .punctuator .leftParen => parenthesized
    | .punctuator .leftBracket => array
    | .punctuator .leftBrace => object
    | .punctuator .backtick => .template
    | _ => .given fun _ _ _ _ => False

def goesOnWith (allowCall : Bool) (kind : TokenKind) : Bool :=
  match kind with
  | .punctuator .dot | .punctuator .leftBracket | .punctuator .backtick => true
  | .punctuator .leftParen => allowCall
  | _ => false

def memberRound (allowCall again : Bool) : Phrase :=
  .all [.sign .dot, .named .propertyName, .reduce .memberExpression, .leave again true] <|>
    .all [.sign .leftBracket, .within (.withNoIn false) (.ask .expression), .sign .rightBracket,
      .reduce .memberExpression, .leave again true] <|>
    .all [.given fun _ _ _ _ => allowCall = true, .sub arguments, .reduce .callExpression,
      .leave again true] <|>
    .all [.sub .template, .reduce .taggedTemplateExpression, .leave again true] <|>
    .all [.ahead fun token => !goesOnWith allowCall token.kind, .leave again false]

/-- An operand that starts with `new`. -/
def construction : Phrase :=
  .all [.word .newWord,
    .sub (.all [.all [.ahead (·.isKeyword .newWord), .ask .construction] <|> primary,
      .loop (memberRound false)]),
    .all [.sub arguments, .reduce .newExpression] <|> .reduce .newExpression]

def leftHandSide : Phrase :=
  .all [construction <|> primary, .loop (memberRound true)]

end Phrase

variable {settings : Settings} {category : Category}

open Implements

/-! ## Lists between brackets -/

theorem spreadAfter_implements {dots : SyntaxTree} :
    Implements settings category anywhere [dots]
      (fun _ => .all [.ask .assignment, .reduce .spread]) (fun tree => [tree])
      (spreadAfter · dots) := by
  unfold spreadAfter
  exact andThen ask fun value => reduces (by simp)

theorem element_produces : Produces settings category .element element := by
  unfold element
  refine accept_then (fun dots => ?_) ask
  exact spreadAfter_implements

theorem arguments_produces : Produces settings category .arguments arguments := by
  unfold arguments
  refine withIn ?_
  refine andThen takes_sign fun opening => ?_
  refine andThen (collects rfl fun trees => ?_) fun trees => ?_
  · refine test_ite rfl (stop rfl) ?_
    refine andThen (sub element_produces) fun entry => ?_
    exact accept_then (fun comma => again (by simp)) (stop (by simp))
  · refine andThen takes_sign fun closing => ?_
    exact reduces (by simp)

theorem array_produces : Produces settings category .array array := by
  unfold array
  refine withIn ?_
  refine andThen takes_sign fun opening => ?_
  refine andThen (collects rfl fun trees => ?_) fun trees => ?_
  · refine test_ite rfl (given (fun _ _ holds => holds.2) (stop rfl)) ?_
    refine accept_then (fun comma => again (by simp)) (given (fun _ _ holds => holds.1.2) ?_)
    refine andThen (sub element_produces) fun entry => ?_
    refine test_ite rfl (given (fun _ _ holds => holds.2) (again (by simp))) ?_
    exact andThen takes_sign fun comma => again (by simp)
  · refine andThen takes_sign fun closing => ?_
    exact reduces (by simp)

private theorem propertyMethod_implements {added : List SyntaxTree} {isAsync : Bool} :
    Implements settings category anywhere added (fun _ => .propertyMethod isAsync)
      (fun tree => [tree]) (fun descent => do
        let key ← propertyKey descent
        let rest ← methodRest descent isAsync
        return build .property (added ++ key ++ rest)) := by
  refine andThen (sub propertyKey_produces) fun key => ?_
  refine andThen (sub methodRest_produces) fun rest => ?_
  exact reduces rfl

theorem property_produces : Produces settings category .property property := by
  unfold property
  refine methodModifiers_then ⟨?_, ?_, ?_, ?_⟩
  · intro modifiers added same async
    have force : modifiers.forceMethod = true := by simp [Modifiers.forceMethod, async]
    simp only [force, if_true, pure_bind, async, same, Option.toList_none, List.nil_append]
    exact propertyMethod_implements
  · intro modifiers added same async accessor
    have force : modifiers.forceMethod = true := by simp [Modifiers.forceMethod, accessor]
    simp only [force, if_true, pure_bind, async, same, Option.toList_none, List.nil_append]
    exact propertyMethod_implements
  · intro modifiers added same async generator
    have force : modifiers.forceMethod = true := by simp [Modifiers.forceMethod, generator]
    simp only [force, if_true, pure_bind, async, same, Option.toList_none, List.nil_append]
    exact propertyMethod_implements
  · intro modifiers same async force
    simp only [force, Bool.false_eq_true, if_false, async, same, Option.toList_none,
      List.nil_append]
    refine andThen (sub propertyKey_produces) fun key => ?_
    refine test_ite rfl (given (fun _ _ holds => holds.2) ?_) ?_
    · refine andThen (sub methodRest_produces) fun rest => ?_
      exact reduces rfl
    · refine accept_then (fun colon => ?_) ?_
      · exact andThen ask fun value => reduces (by simp)
      · refine settings_then (ite (fun shorthand => ?_) fun _ => peek_then fun _ => fail)
        exact given (fun _ _ _ => shorthand) (reduces rfl)

theorem object_produces : Produces settings category .object object := by
  unfold object
  refine withIn ?_
  refine andThen takes_sign fun opening => ?_
  refine andThen (collects rfl fun trees => ?_) fun trees => ?_
  · refine test_ite rfl (stop rfl) ?_
    refine accept_part (fun dots => spreadAfter_implements) property_produces
      (fun _ _ => rfl) (fun _ => rfl) fun entry => ?_
    exact accept_then (fun comma => again (by simp)) (stop (by simp))
  · refine andThen takes_sign fun closing => ?_
    exact reduces (by simp)

theorem parenthesized_produces : Produces settings category .parenthesized parenthesized := by
  unfold parenthesized
  refine withIn ?_
  refine andThen takes_sign fun opening => ?_
  refine andThen ask fun inner => ?_
  refine andThen takes_sign fun closing => ?_
  exact reduces (by simp)

/-! ## Primary expressions -/

theorem nameOrFunction_implements {token : Token} (isName : token.isIdentifier = true) :
    Implements settings category
      (fun scope point => anywhere scope point ∧ point.next settings.dialect = .ok token) []
      (fun _ => .nameOrFunction) (fun tree => [tree]) nameOrFunction := by
  have name {pre : Scope → Point → Prop}
      (known : ∀ scope point, pre scope point → point.next settings.dialect = .ok token) :
      Implements settings category pre [] (fun _ => .named .variableName) (fun tree => [tree])
        (fun _ => named .variableName) :=
    takes fun _ _ holds => ⟨token, known _ _ holds, isName⟩
  unfold nameOrFunction
  refine test rfl ?_ (inr (name fun _ _ holds => holds.1.2))
  simp only [continues, bind_assoc, pure_bind]
  refine second_then fun second => settings_then (ite (fun starts => ?_) fun _ => ?_)
  · rw [Bool.and_eq_true] at starts
    refine inl ((asyncFunction_implements starts.2).under fun _ _ holds => ?_)
    exact holds.2
  · exact inr (name fun _ _ holds => holds.1.1.2)

theorem primary_produces : Produces settings category .primary primary := by
  unfold primary
  refine peek_byKind fun token => ?_
  cases is : token.kind with
  | identifier => exact nameOrFunction_implements (by simp [Token.isIdentifier, is])
  | number | string | pattern =>
      exact takes fun _ _ known => ⟨token, known.2, by simp [Kind.admits, is]⟩
  | endOfText => exact fail
  | keyword word =>
      cases word with
      | functionWord => exact always (function_implements .functionExpression none)
      | classWord => exact always classDefinition_produces
      | _ => exact fail
  | punctuator sign =>
      cases sign with
      | leftParen => exact always parenthesized_produces
      | leftBracket => exact always array_produces
      | leftBrace => exact always object_produces
      | backtick => exact always template_produces
      | _ => exact fail

theorem memberName_implements {pre : Scope → Point → Prop} {before : List SyntaxTree} :
    Implements settings category pre before (fun _ => .named .propertyName)
      (fun tree => before ++ [tree]) (fun _ => memberName) := by
  unfold memberName
  refine peek_then fun token => ?_
  split
  case h_1 is => exact takes fun _ _ known => ⟨token, known.2, by simp [Kind.admits, is]⟩
  case h_2 is => exact takes fun _ _ known => ⟨token, known.2, by simp [Kind.admits, is]⟩
  case h_3 => exact fail

theorem member_rounds {allowCall : Bool} :
    Rounds settings category (.memberRound allowCall) (fun tree => [tree]) (fun tree => [tree])
      (fun operand descent => memberStep descent allowCall operand) := by
  intro operand
  unfold memberStep
  refine peek_then fun token => ?_
  split
  case h_1 is =>
    refine inl (andThen (takes fun _ _ known => ⟨token, known.2, ?_⟩) fun dot => ?_)
    · simp [Kind.admits, Token.isPunctuator, is]
    · exact andThen memberName_implements fun name => again_with (by simp)
  case h_2 is =>
    refine inr (inl (andThen (takes fun _ _ known => ⟨token, known.2, ?_⟩) fun opening => ?_))
    · simp [Kind.admits, Token.isPunctuator, is]
    · refine andThen (withIn ask) fun key => ?_
      exact andThen takes_sign fun closing => again_with (by simp)
  case h_3 is =>
    refine ite (fun allowed => ?_) fun refused => ?_
    · refine inr (inr (inl (given (fun _ _ _ => allowed) ?_)))
      exact andThen (sub arguments_produces) fun inputs => again_with (by simp)
    · refine inr (inr (inr (inr (given (fun _ _ known => ⟨token, known.2, ?_⟩) (stop rfl)))))
      simp [Phrase.goesOnWith, is, refused]
  case h_4 is =>
    refine inr (inr (inr (inl ?_)))
    exact andThen (sub template_produces) fun inner => again_with (by simp)
  case h_5 =>
    refine inr (inr (inr (inr (given (fun _ _ known => ⟨token, known.2, ?_⟩) (stop rfl)))))
    simp only [Phrase.goesOnWith, Bool.not_false]

theorem memberChain_implements {pre : Scope → Point → Prop} (allowCall : Bool)
    (operand : SyntaxTree) :
    Implements settings category pre [operand] (fun _ => .loop (.memberRound allowCall))
      (fun tree => [tree]) (memberChain · allowCall operand) :=
  loops member_rounds

private def constructed (descent : Descent) : Parse SyntaxTree := do
  let base ← if ← nextIsKeyword .newWord then descent.read .construction else primary descent
  memberChain descent false base

private theorem constructed_produces :
    Produces settings category
      (.all [.all [.ahead (·.isKeyword .newWord), .ask .construction] <|> .primary,
        .loop (.memberRound false)]) constructed := by
  unfold constructed
  exact test_part rfl (given (fun _ _ holds => holds.2) ask) primary_produces.always
    (memberChain_implements false)

theorem construction_produces : Produces settings category .construction construction := by
  have same : construction = fun descent => Parse.nested do
      let keyword ← expectKeyword .newWord
      let callee ← constructed descent
      if ← nextIs .leftParen then
        return build .newExpression [keyword, callee, ← arguments descent]
      else
        return build .newExpression [keyword, callee] := by
    funext descent
    simp only [construction, constructed, bind_assoc, ite_bind]
  rw [same]
  refine nested ?_
  refine andThen takes_word fun keyword => ?_
  refine andThen (sub constructed_produces) fun callee => ?_
  refine test_ite rfl ?_ (reduces (by simp))
  exact andThen (sub arguments_produces) fun inputs => reduces (by simp)

theorem leftHandSide_produces : Produces settings category .leftHandSide leftHandSide := by
  unfold leftHandSide
  exact test_part rfl construction_produces.always primary_produces.always
    (memberChain_implements true)

end Grammar

end ScriptTree
