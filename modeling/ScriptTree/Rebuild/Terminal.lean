import ScriptTree.Literal.Escape
import ScriptTree.Literal.Number
import ScriptTree.Literal.Pattern
import ScriptTree.Rebuild.Arguments

/-!
# Names, literals and templates
-/

namespace ScriptTree

open Estree

namespace Rebuild

def namedValue? (name : String) : Option Node :=
  if name = "true" then some (.literal ⟨.boolean true, "true"⟩)
  else if name = "false" then some (.literal ⟨.boolean false, "false"⟩)
  else if name = "null" then some (.literal ⟨.null, "null"⟩)
  else if name = "this" then some .thisExpression
  else if name = "super" then some .super
  else none

def variableName : Take Fragment := do
  let name ← Take.token "name"
  return .node ((namedValue? name).getD (.identifier name))

/-- A name in any other position. -/
def name : Take Fragment := do
  return .node (.identifier (← Take.token "name"))

def operatorToken : Take Fragment := do
  return .token (← Take.token "operator")

/-- Decodes the text of a literal. -/
def decodeLiteral (decode : Text → Except LiteralFlaw LiteralValue) (raw : String) :
    Except TransformError Literal :=
  match decode raw.toList with
  | .ok value => .ok ⟨value, raw⟩
  | .error flaw => .error (.literal raw flaw)

/-- A literal with its own way of decoding. -/
def literal (what : String) (decode : Text → Except LiteralFlaw LiteralValue) :
    Take Fragment := do
  let raw ← Take.token what
  return .node (.literal (← decodeLiteral decode raw))

def templateContent : Take Fragment := do
  let text ← Take.token "template text"
  return .node (.templateElement (.ofText text.toList) false)

/-- The parts of a template that have been taken, with the text since the
last hole. -/
structure TemplateParts where
  quasis : Array Node
  expressions : Array Node
  text : String

namespace TemplateParts

def closeText (parts : TemplateParts) (isTail : Bool) : TemplateParts :=
  { parts with
    quasis := parts.quasis.push (.templateElement (.ofText parts.text.toList) isTail)
    text := "" }

end TemplateParts

/-- Takes the runs and holes of a template up to the closing backtick.
Adjacent runs are merged, and there is an element before every hole and at the
end, be it empty. -/
def templateParts : Nat → TemplateParts → Take TemplateParts
  | 0, _ => Take.mismatch .openTemplate
  | fuel + 1, parts => do
      match ← Take.next with
      | some (.node (.templateElement value _)) =>
          templateParts fuel { parts with text := parts.text ++ value.raw }
      | some (.token text) =>
          if text = "$\x7b" then
            let closed := parts.closeText false
            let inner ← Take.node "template expression"
            Take.expect "\x7d"
            templateParts fuel { closed with expressions := closed.expressions.push inner }
          else if text = "\x60" then
            return parts.closeText true
          else
            Take.mismatch (.inTemplate (.token text))
      | some other => Take.mismatch (.inTemplate other)
      | none => Take.mismatch .openTemplate

/-- A template literal. -/
def templateString : Take Fragment := do
  Take.expect "\x60"
  let parts ← templateParts ((← get).rest.length + 1) ⟨#[], #[], ""⟩
  return .node (.templateLiteral parts.quasis.toList parts.expressions.toList)

end Rebuild

end ScriptTree
