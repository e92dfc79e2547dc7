import Lox.CommandLine.Command
import Lox.CommandLine.Options
import Lox.CommandLine.Outcome
import Lox.CommandLine.Prompt
import Lox.CommandLine.Script
import Lox.Heap.Basic
import Lox.Heap.Bindings
import Lox.Heap.Builtin
import Lox.Interpreter.Basic
import Lox.Interpreter.Datum
import Lox.Interpreter.Inspection
import Lox.Machine.Basic
import Lox.Machine.Step
import Lox.Main
import Lox.Number.Exact
import Lox.Number.Literal
import Lox.Number.Shortest
import Lox.Number.Text
import Lox.Proofs.Grammar.Adequacy
import Lox.Proofs.Grammar.Completeness.Expression
import Lox.Proofs.Grammar.Completeness.Statement
import Lox.Proofs.Grammar.Derivation
import Lox.Proofs.Grammar.Names
import Lox.Proofs.Grammar.Parse
import Lox.Proofs.Grammar.Precedence
import Lox.Proofs.Grammar.Soundness.Expression
import Lox.Proofs.Grammar.Soundness.Statement
import Lox.Proofs.Grammar.Spelling
import Lox.Proofs.Grammar.Uniqueness.Expression
import Lox.Proofs.Grammar.Uniqueness.Statement
import Lox.Proofs.Heap.Declarations
import Lox.Proofs.Heap.Growth
import Lox.Proofs.Heap.Scopes
import Lox.Proofs.Interpreter.DepthLimit
import Lox.Proofs.Interpreter.Nesting
import Lox.Proofs.Interpreter.Restoration
import Lox.Proofs.Interpreter.Session
import Lox.Proofs.Interpreter.Super
import Lox.Proofs.Machine.Context
import Lox.Proofs.Machine.Nesting
import Lox.Proofs.Machine.Output
import Lox.Proofs.Machine.Pinned
import Lox.Proofs.Machine.Restoration
import Lox.Source.Diagnostic
import Lox.Source.Position
import Lox.Syntax.Basic
import Lox.Syntax.Expression
import Lox.Syntax.Parser
import Lox.Syntax.Statement
import Lox.Syntax.Text
import Lox.Token.Basic
import Lox.Token.Scan
import Lox.Token.Scanner
import Lox.Token.Stream
import Lox.Unicode.Letter
import Lox.Unicode.Numeral
import Lox.Value.Basic
import Lox.Value.Error
import Lox.Value.Operator
import Lox.Value.Text
import Lox.Proofs.Token.Division
import Lox.Proofs.Token.Scanner
import Lox.Proofs.Grammar.Lines
import Lox.Proofs.Interpreter.Pieces
import Lox.Proofs.Recovery.Likeness
import Lox.Proofs.Recovery.Reading
import Lox.Proofs.Recovery.Resumption
import Lox.Proofs.Heap.Receivers
import Lox.Proofs.Machine.Receivers
import Lox.Proofs.Interpreter.BoundMethods
import Lox.Proofs.Token.Positions
import Lox.Proofs.Interpreter.Transfers
import Lox.Proofs.Interpreter.Declarations
import Lox.Proofs.Machine.Contraction
import Lox.Proofs.Machine.Alike
import Lox.Proofs.Machine.ForLoop
import Lox.Proofs.Interpreter.ForLoop
import Lox.Proofs.Recovery.Reports
import Lox.Proofs.Heap.Shape
import Lox.Proofs.Machine.Shape
import Lox.Proofs.Heap.Integrity
import Lox.Proofs.Machine.Integrity
import Lox.Proofs.Heap.Walks
import Lox.Proofs.Interpreter.Integrity
import Lox.Proofs.Grammar.Mentions
import Lox.Proofs.Heap.Agreement
import Lox.Proofs.Machine.Agreement
import Lox.Proofs.Interpreter.Agreement
import Lox.Proofs.Recovery.Continuation
import Lox.Proofs.Grammar.Layout
import Lox.Proofs.Heap.Rendering
import Lox.Proofs.Heap.Elision
import Lox.Proofs.Grammar.Readings
import Lox.Proofs.Recovery.Termination
import Lox.Proofs.Heap.Shadowing
import Lox.Proofs.Number.Value
import Lox.Proofs.Number.Progression
import Lox.Proofs.Heap.Deeds
import Lox.Proofs.Machine.Deeds
import Lox.Proofs.Interpreter.History
import Lox.Proofs.Interpreter.Properties
import Lox.Proofs.Interpreter.SequenceBuiltins
import Lox.Proofs.Heap.Positions
import Lox.Proofs.Machine.Evaluation
import Lox.Proofs.Machine.Elements
import Lox.Proofs.Interpreter.Callers
import Lox.Proofs.Heap.Activations
import Lox.Proofs.Number.Count
import Lox.Proofs.Interpreter.AtRest
import Lox.Proofs.Interpreter.Reduce
import Lox.Proofs.Interpreter.Counters
import Lox.Token.Lookahead
import Lox.Proofs.Number.Order
import Lox.Proofs.Value.Comparison
import Lox.Proofs.Number.Text
import Lox.Proofs.Syntax.Parts
import Lox.Proofs.Syntax.Sexp
import Lox.Proofs.Syntax.Text
import Lox.Proofs.Token.Lookahead
import Lox.Proofs.Syntax.Lookahead
