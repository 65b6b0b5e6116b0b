import ScriptTree.Bounds
import ScriptTree.Estree.Encode
import ScriptTree.Estree.Node
import ScriptTree.Grammar.Assignment
import ScriptTree.Grammar.Declaration
import ScriptTree.Grammar.Descent
import ScriptTree.Grammar.Flow
import ScriptTree.Grammar.Function
import ScriptTree.Grammar.Lookahead
import ScriptTree.Grammar.Operand
import ScriptTree.Grammar.Operator
import ScriptTree.Grammar.Program
import ScriptTree.Grammar.State
import ScriptTree.Grammar.Statement
import ScriptTree.Grammar.Terminator
import ScriptTree.Json
import ScriptTree.Literal.Basic
import ScriptTree.Literal.Escape
import ScriptTree.Literal.Number
import ScriptTree.Literal.Pattern
import ScriptTree.Number.Binary64
import ScriptTree.Number.Written
import ScriptTree.Proofs.Bound
import ScriptTree.Proofs.Boundary
import ScriptTree.Proofs.Chunk
import ScriptTree.Proofs.Chunks
import ScriptTree.Proofs.Coalescing
import ScriptTree.Proofs.Dialect
import ScriptTree.Proofs.Digits
import ScriptTree.Proofs.Else
import ScriptTree.Proofs.Escape
import ScriptTree.Proofs.Estree.Measure
import ScriptTree.Proofs.Estree.Nodes
import ScriptTree.Proofs.Estree.Schema
import ScriptTree.Proofs.Estree.Writing
import ScriptTree.Proofs.Exchange
import ScriptTree.Proofs.Frame
import ScriptTree.Proofs.Gap
import ScriptTree.Proofs.Grammar.Arrival
import ScriptTree.Proofs.Grammar.Assembled
import ScriptTree.Proofs.Grammar.Assignment
import ScriptTree.Proofs.Grammar.Braces
import ScriptTree.Proofs.Grammar.Chain
import ScriptTree.Proofs.Grammar.Checked
import ScriptTree.Proofs.Grammar.Children
import ScriptTree.Proofs.Grammar.Closing
import ScriptTree.Proofs.Grammar.Comparison
import ScriptTree.Proofs.Grammar.Confinement
import ScriptTree.Proofs.Grammar.Derivation
import ScriptTree.Proofs.Grammar.Enclosure
import ScriptTree.Proofs.Grammar.Enough
import ScriptTree.Proofs.Grammar.Flow
import ScriptTree.Proofs.Grammar.Forms
import ScriptTree.Proofs.Grammar.Forward
import ScriptTree.Proofs.Grammar.Function
import ScriptTree.Proofs.Grammar.Groups
import ScriptTree.Proofs.Grammar.Implements
import ScriptTree.Proofs.Grammar.Inversion
import ScriptTree.Proofs.Grammar.Items
import ScriptTree.Proofs.Grammar.Layers
import ScriptTree.Proofs.Grammar.Lookahead
import ScriptTree.Proofs.Grammar.Member
import ScriptTree.Proofs.Grammar.Moves
import ScriptTree.Proofs.Grammar.Opening
import ScriptTree.Proofs.Grammar.Operand
import ScriptTree.Proofs.Grammar.Operator
import ScriptTree.Proofs.Grammar.Phrase
import ScriptTree.Proofs.Grammar.Plan
import ScriptTree.Proofs.Grammar.Precedence
import ScriptTree.Proofs.Grammar.Progress
import ScriptTree.Proofs.Grammar.Reached
import ScriptTree.Proofs.Grammar.Recall
import ScriptTree.Proofs.Grammar.Reserved
import ScriptTree.Proofs.Grammar.Retry
import ScriptTree.Proofs.Grammar.Shape
import ScriptTree.Proofs.Grammar.Speculation
import ScriptTree.Proofs.Grammar.Statement
import ScriptTree.Proofs.Grammar.Template
import ScriptTree.Proofs.Grammar.Trail
import ScriptTree.Proofs.Grammar.Verdict
import ScriptTree.Proofs.Grammar.Words
import ScriptTree.Proofs.Integer
import ScriptTree.Proofs.Lexeme
import ScriptTree.Proofs.Located
import ScriptTree.Proofs.Lossless
import ScriptTree.Proofs.Memory
import ScriptTree.Proofs.Nesting
import ScriptTree.Proofs.Newline
import ScriptTree.Proofs.Numeral
import ScriptTree.Proofs.Pattern
import ScriptTree.Proofs.Precedence
import ScriptTree.Proofs.Rebuild.Accepts
import ScriptTree.Proofs.Rebuild.Agreement
import ScriptTree.Proofs.Rebuild.Becomes
import ScriptTree.Proofs.Rebuild.Builds
import ScriptTree.Proofs.Rebuild.Conformity
import ScriptTree.Proofs.Rebuild.Content
import ScriptTree.Proofs.Rebuild.Faults
import ScriptTree.Proofs.Rebuild.Gives
import ScriptTree.Proofs.Rebuild.Matching
import ScriptTree.Proofs.Rebuild.Means
import ScriptTree.Proofs.Rebuild.Names
import ScriptTree.Proofs.Rebuild.Parts
import ScriptTree.Proofs.Rebuild.Rules
import ScriptTree.Proofs.Rebuild.Targets
import ScriptTree.Proofs.Rebuild.Template
import ScriptTree.Proofs.Rescan
import ScriptTree.Proofs.RoundTrip
import ScriptTree.Proofs.Scan
import ScriptTree.Proofs.ScanError
import ScriptTree.Proofs.Segment
import ScriptTree.Proofs.Slash
import ScriptTree.Proofs.Spaced
import ScriptTree.Proofs.Termination
import ScriptTree.Proofs.Terminator
import ScriptTree.Proofs.Text
import ScriptTree.Proofs.Tree
import ScriptTree.Proofs.Trivia
import ScriptTree.Proofs.Units
import ScriptTree.Proofs.Visit
import ScriptTree.Proofs.Walk
import ScriptTree.Rebuild.Arguments
import ScriptTree.Rebuild.Error
import ScriptTree.Rebuild.Expression
import ScriptTree.Rebuild.Fragment
import ScriptTree.Rebuild.Function
import ScriptTree.Rebuild.Process
import ScriptTree.Rebuild.Statement
import ScriptTree.Rebuild.Terminal
import ScriptTree.Recognizer.Boundary
import ScriptTree.Recognizer.Dialect
import ScriptTree.Recognizer.Probe
import ScriptTree.Recognizer.Template
import ScriptTree.Rule
import ScriptTree.Span
import ScriptTree.SyntaxError
import ScriptTree.Text.Basic
import ScriptTree.Text.Class
import ScriptTree.Text.Letter
import ScriptTree.Text.Numeral
import ScriptTree.Text.Place
import ScriptTree.Text.Units
import ScriptTree.Token.Basic
import ScriptTree.Token.Gap
import ScriptTree.Token.Lexeme
import ScriptTree.Token.Scan
import ScriptTree.Token.Spelling
import ScriptTree.Token.Trivia
import ScriptTree.Transform
import ScriptTree.Tree.Basic
import ScriptTree.Tree.Cursor
import ScriptTree.Tree.Exchange
import ScriptTree.Tree.Visit
import ScriptTree.Proofs.Rebuild.Listing
