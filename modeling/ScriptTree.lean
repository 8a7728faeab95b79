import ScriptTree.Building.Arena
import ScriptTree.Building.Finish
import ScriptTree.Building.Operand
import ScriptTree.Building.Statement
import ScriptTree.CommandLine.Arguments
import ScriptTree.CommandLine.Directory
import ScriptTree.CommandLine.Files
import ScriptTree.CommandLine.Listing
import ScriptTree.CommandLine.Run
import ScriptTree.Diagnostic.Basic
import ScriptTree.Diagnostic.Cause
import ScriptTree.Grammar.Field
import ScriptTree.Grammar.Language
import ScriptTree.Grammar.NodeKind
import ScriptTree.Grammar.NodeTypes
import ScriptTree.Grammar.Symbol
import ScriptTree.Highlight.Spans
import ScriptTree.Main
import ScriptTree.Parsing.Assignment
import ScriptTree.Parsing.Basic
import ScriptTree.Parsing.Callable
import ScriptTree.Parsing.Literal
import ScriptTree.Parsing.Match
import ScriptTree.Parsing.Operand
import ScriptTree.Parsing.Operation
import ScriptTree.Parsing.Program
import ScriptTree.Parsing.Recovery
import ScriptTree.Parsing.Statement
import ScriptTree.Proofs.Building.Following
import ScriptTree.Proofs.Building.Standing
import ScriptTree.Proofs.Calls.Agreement
import ScriptTree.Proofs.Calls.Depth
import ScriptTree.Proofs.Calls.Machine
import ScriptTree.Proofs.Calls.Reached
import ScriptTree.Proofs.Calls.Recovering
import ScriptTree.Proofs.Calls.Routines
import ScriptTree.Proofs.Calls.Woven
import ScriptTree.Proofs.CommandLine.Agreement
import ScriptTree.Proofs.Completion.Completed
import ScriptTree.Proofs.Diagnostic.Carets
import ScriptTree.Proofs.Diagnostic.Excerpts
import ScriptTree.Proofs.Grammar.Conformity
import ScriptTree.Proofs.Highlight.Coverage
import ScriptTree.Proofs.Highlight.Lineage
import ScriptTree.Proofs.Highlight.Runs
import ScriptTree.Proofs.Mirror.Blanks
import ScriptTree.Proofs.Mirror.Callables
import ScriptTree.Proofs.Mirror.Closing
import ScriptTree.Proofs.Mirror.Continuation
import ScriptTree.Proofs.Mirror.DepthLimit
import ScriptTree.Proofs.Mirror.Displacement
import ScriptTree.Proofs.Mirror.Joining
import ScriptTree.Proofs.Mirror.Literals
import ScriptTree.Proofs.Mirror.Lockstep
import ScriptTree.Proofs.Mirror.Operands
import ScriptTree.Proofs.Mirror.Operations
import ScriptTree.Proofs.Mirror.Primitives
import ScriptTree.Proofs.Mirror.Recovery
import ScriptTree.Proofs.Mirror.Rewriting
import ScriptTree.Proofs.Mirror.Sequence
import ScriptTree.Proofs.Mirror.Statements
import ScriptTree.Proofs.Mirror.Steps
import ScriptTree.Proofs.Mirror.TokenClasses
import ScriptTree.Proofs.Mirror.Types
import ScriptTree.Proofs.Parsing.Accounting
import ScriptTree.Proofs.Parsing.Arena
import ScriptTree.Proofs.Parsing.Balance
import ScriptTree.Proofs.Parsing.Comments
import ScriptTree.Proofs.Parsing.Conformance
import ScriptTree.Proofs.Parsing.Containment
import ScriptTree.Proofs.Parsing.Costs
import ScriptTree.Proofs.Parsing.Cursors
import ScriptTree.Proofs.Parsing.Delimiters
import ScriptTree.Proofs.Parsing.Endings
import ScriptTree.Proofs.Parsing.Forest
import ScriptTree.Proofs.Parsing.Geometry
import ScriptTree.Proofs.Parsing.Grouping
import ScriptTree.Proofs.Parsing.InRange
import ScriptTree.Proofs.Parsing.Integers
import ScriptTree.Proofs.Parsing.Loops
import ScriptTree.Proofs.Parsing.Lossless
import ScriptTree.Proofs.Parsing.Moments
import ScriptTree.Proofs.Parsing.Outcome
import ScriptTree.Proofs.Parsing.Pairing
import ScriptTree.Proofs.Parsing.Reading
import ScriptTree.Proofs.Parsing.Rollback
import ScriptTree.Proofs.Parsing.Spending
import ScriptTree.Proofs.Parsing.Subtrees
import ScriptTree.Proofs.Parsing.Tours
import ScriptTree.Proofs.Printing.Climbing
import ScriptTree.Proofs.Printing.PatternTerms
import ScriptTree.Proofs.Printing.RoundTrip
import ScriptTree.Proofs.Printing.TypeTerms
import ScriptTree.Proofs.Text.Bytes
import ScriptTree.Proofs.Text.Lines
import ScriptTree.Proofs.Text.Slicing
import ScriptTree.Proofs.Token.Equality
import ScriptTree.Proofs.Token.Escapes
import ScriptTree.Proofs.Token.Fixes
import ScriptTree.Proofs.Token.Joining
import ScriptTree.Proofs.Token.Lexing
import ScriptTree.Proofs.Token.LineEndings
import ScriptTree.Proofs.Token.LineStarts
import ScriptTree.Proofs.Token.Locality
import ScriptTree.Proofs.Token.Nesting
import ScriptTree.Proofs.Token.Numerals
import ScriptTree.Proofs.Token.Partition
import ScriptTree.Proofs.Token.Respelling
import ScriptTree.Proofs.Token.Spacing
import ScriptTree.Proofs.Token.Spelling
import ScriptTree.Proofs.Token.Stopping
import ScriptTree.Proofs.Tree.Expressions
import ScriptTree.Proofs.Tree.Values
import ScriptTree.Proofs.Tree.Walking
import ScriptTree.Text.JsonValue
import ScriptTree.Text.LineIndex
import ScriptTree.Text.Quoted
import ScriptTree.Text.Source
import ScriptTree.Text.Utf8
import ScriptTree.Token.Basic
import ScriptTree.Token.Lexeme
import ScriptTree.Token.Lexer
import ScriptTree.Token.Literal
import ScriptTree.Tree.Basic
import ScriptTree.Tree.Comments
import ScriptTree.Tree.Cursor
import ScriptTree.Tree.Navigation
import ScriptTree.Tree.Node
import ScriptTree.Tree.Text
import ScriptTree.Vocabulary.Keyword
import ScriptTree.Vocabulary.Operator
import ScriptTree.Vocabulary.Provenance
import ScriptTree.Vocabulary.Punctuation
