import ScriptTree.Rebuild.Fragment
import ScriptTree.SyntaxError

/-!
# Errors of a transform

A transform gives a whole tree or the first error.
-/

namespace ScriptTree

/-- How the fragments below a node differ from what its rule expects. -/
inductive Mismatch where
  | expected (what : String) (position : Nat) (found : Option Fragment)
  | leftOver (found : Fragment) (position : Nat)
  | neitherOperatorNorOperand
  | notPostfix (operator : String)
  | notDeclaration (keyword : String)
  | notArrowParameters
  | inTemplate (found : Fragment)
  | openTemplate
  | bareTry
  | statementBeforeCase
  | notANode (found : Fragment)

namespace Mismatch

def message : Mismatch → String
  | .expected what position found =>
      "expected " ++ what ++ " at argument " ++ toString position ++ ", found " ++
        (found.map Fragment.describe).getD "nothing"
  | .leftOver found position =>
      "unexpected " ++ found.describe ++ " at argument " ++ toString position
  | .neitherOperatorNorOperand => "expected operator or operand"
  | .notPostfix operator => "'" ++ operator ++ "' is not a postfix operator"
  | .notDeclaration keyword => "'" ++ keyword ++ "' is not a declaration keyword"
  | .notArrowParameters => "expected arrow parameters"
  | .inTemplate found => "unexpected " ++ found.describe ++ " in template"
  | .openTemplate => "template without closing '\x60'"
  | .bareTry => "try without catch or finally"
  | .statementBeforeCase => "statement before the first case label"
  | .notANode found => "expected a node, found " ++ found.describe

end Mismatch

inductive TransformError where
  /-- The text could not be read. -/
  | unreadable (error : SyntaxError)
  /-- A node has no rule and is not a token of its own name. -/
  | unhandled (name : String) (fragments : List Fragment)
  /-- What is below a node does not fit its rule. -/
  | malformed (name : String) (mismatch : Mismatch)
  | depthExceeded (limit : Nat)
  | literal (raw : String) (flaw : LiteralFlaw)
  /-- The span of a leaf does not lie in the text. -/
  | invalidSpan (name : String) (span : Span)
  /-- The steps allowed for a tree of this size were used up. -/
  | stalled

namespace TransformError

/-- The error of a transform whose text could not be read.  A text and a tree
that are nested too deeply give the same error. -/
def ofSyntaxError (error : SyntaxError) : TransformError :=
  match error.cause with
  | .nestingTooDeep limit => .depthExceeded limit
  | _ => .unreadable error

def message : TransformError → String
  | .unreadable error => "syntax error: " ++ error.message
  | .unhandled name fragments =>
      "unhandled node kind '" ++ name ++ "' with " ++ toString fragments.length ++
        " argument(s)"
  | .malformed name mismatch =>
      "malformed arguments for '" ++ name ++ "': " ++ mismatch.message
  | .depthExceeded limit => "tree nested deeper than " ++ toString limit ++ " levels"
  | .literal raw flaw => "cannot decode literal " ++ raw ++ ": " ++ flaw.message
  | .invalidSpan name span =>
      "span " ++ toString span.start ++ ".." ++ toString span.stop ++ " of '" ++ name ++
        "' is outside the source"
  | .stalled => "out of steps"

end TransformError

end ScriptTree
