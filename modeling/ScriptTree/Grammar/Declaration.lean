import ScriptTree.Grammar.Assignment

/-!
# Variable declarations

A declaration is a keyword followed by names, each with an optional value.
The head of a loop shares its parts.
-/

namespace ScriptTree

namespace Grammar

/-- The keywords that declare variables. -/
def declares (kind : TokenKind) : Option Keyword :=
  match kind with
  | .keyword .varWord => some .varWord
  | .keyword .letWord => some .letWord
  | .keyword .constWord => some .constWord
  | _ => none

/-- What follows a bound name: its value, and perhaps another name. -/
def binding (descent : Descent) (trees : Array SyntaxTree) :
    Parse (Round (Array SyntaxTree) (Array SyntaxTree)) := do
  let mut trees := trees
  if ← nextIs .equals then
    trees := trees.push (← named .equals)
    trees := trees.push (← descent.read .assignment)
  match ← accept? .comma with
  | some comma =>
      return .again ((trees.push comma).push (← expectName .variableDefinition))
  | none => return .done trees

def declarationRest (descent : Descent) (noIn : Bool) (trees : Array SyntaxTree) :
    Parse (List SyntaxTree) :=
  Parse.withNoIn noIn do
    return (← collect descent trees (binding descent)).toList

def declaration (descent : Descent) (word : Keyword) : Parse SyntaxTree := do
  let keyword ← spelled (.keyword word)
  let name ← expectName .variableDefinition
  let children ← declarationRest descent false #[keyword, name]
  return build .variableDeclaration (← terminate children)

end Grammar

end ScriptTree
