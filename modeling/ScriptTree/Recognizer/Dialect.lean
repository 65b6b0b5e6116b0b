import ScriptTree.Token.Gap
import ScriptTree.Token.Spelling

/-!
# Dialects

A dialect decides which words are reserved beyond the common ones.  The only
such word is `extends`, which the typed dialect reserves.
-/

namespace ScriptTree

/-- The dialects of the language. -/
inductive Dialect where
  | script
  | typeScript
  deriving DecidableEq

namespace Recognizer

/-- Recognizes the word that only the dialect reserves. -/
def dialectWord? (dialect : Dialect) (word : Text) : Option Mark :=
  if word = Keyword.extendsWord.chars ∧ dialect = .typeScript then some .dialectWord else none

end Recognizer

end ScriptTree
