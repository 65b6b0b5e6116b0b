import ScriptTree.Bounds
import ScriptTree.Grammar.Statement

/-!
# Whole texts

The productions are tied together by giving each its own recursive calls with
one step less.  Every call either consumes a token or asks for something
strictly smaller, so a number of steps proportional to the size of the text is
enough.
-/

namespace ScriptTree

namespace Grammar

def produce (descent : Descent) : Goal → Parse SyntaxTree
  | .statement => statement descent
  | .expression => expression descent
  | .assignment => assignment descent
  | .binary level => binary descent level
  | .unary => unary descent
  | .leftHandSide => leftHandSide descent
  | .construction => construction descent

/-- Reads a goal in at most the given number of nested steps. -/
def read : Nat → Goal → Parse SyntaxTree
  | 0, _ => Parse.fail stalled
  | steps + 1, goal => produce ⟨steps, read steps⟩ goal

/-- Number of steps that is enough for a text of the given number of bytes. -/
def stepsFor (size : Nat) : Nat :=
  4 * size + 8

/-- Reads statements up to the end of the text. -/
def script (descent : Descent) : Parse SyntaxTree := do
  let trees ← collect descent #[] fun trees => do
    if (← peek).isEnd then
      return .done trees
    else
      return .again (trees.push (← descent.read .statement))
  return .node (.rule .script) ⟨0, (← Parse.settings).size⟩ trees.toList

/-- Reads a text with the given settings. -/
def parseWith (settings : Settings) : Except SyntaxError SyntaxTree :=
  let steps := stepsFor settings.size
  match script ⟨steps, read steps⟩ settings (State.initial settings.source) with
  | .ok tree _ => .ok tree
  | .error error _ => .error error

end Grammar

/-- The dialect of a text, and the bounds on nesting. -/
structure Options where
  dialect : Dialect
  bounds : Bounds

namespace Grammar

/-- The settings for reading a text with given options. -/
def Settings.ofOptions (options : Options) (source : Text) : Settings where
  source
  size := Text.size source
  dialect := options.dialect
  limit := options.bounds.limit
  recallsHeads := true

/-- Reads a text into a tree, or finds the first error in it. -/
def parse (options : Options) (source : Text) : Except SyntaxError SyntaxTree :=
  parseWith (.ofOptions options source)

end Grammar

end ScriptTree
