import ParserKit.Files
import ParserKit.Forward.Session
import ParserKit.Main
import ParserKit.Pipe.Word
import ParserKit.Text.CharClass
import ParserKit.Proofs.Parser.Simulation
import ParserKit.Proofs.Grammar.Scope
import ParserKit.Proofs.Grammar.Similarity
import ParserKit.Proofs.Grammar.Consumption
import ParserKit.Proofs.Grammar.Filling
import ParserKit.Proofs.Grammar.Recursion
import ParserKit.Proofs.Forward.Recursion
import ParserKit.Proofs.Calculator.Language
import ParserKit.Proofs.Calculator.Longest
import ParserKit.Proofs.Calculator.Tally
import ParserKit.Proofs.Saturation
import ParserKit.Proofs.Parser.Reading
import ParserKit.Proofs.Calculator.Reading
import ParserKit.Proofs.Calculator.Evaluation
import ParserKit.Proofs.Forward.Holding
import ParserKit.Proofs.Grammar.Position
import ParserKit.Proofs.Parser.Repetition
import ParserKit.Proofs.Grammar.Change
import ParserKit.Proofs.Grammar.Tracing
import ParserKit.Proofs.Grammar.Surface
import ParserKit.Proofs.Parser.Separation
import ParserKit.Forward.Stack
import ParserKit.Proofs.Forward.LifeCycle
import ParserKit.Proofs.Forward.Building
import ParserKit.Proofs.Forward.Dangling
import ParserKit.Proofs.Calculator.Modes
import ParserKit.Proofs.Parser.Totality
import ParserKit.Proofs.Grammar.Termination
import ParserKit.Proofs.Calculator.Depth
import ParserKit.Proofs.Parser.Decomposition
import ParserKit.Proofs.Parser.Counting
import ParserKit.Proofs.Grammar.Backtracking
import ParserKit.Proofs.Parser.Collection
import ParserKit.Proofs.Parser.Stopping
import ParserKit.Proofs.Calculator.Reports
import ParserKit.Proofs.Grammar.Sequencing
import ParserKit.Proofs.Grammar.WholeText
import ParserKit.Proofs.Parser.Padding
import ParserKit.Proofs.Parser.Integer
import ParserKit.Proofs.Parser.Literal
import ParserKit.Proofs.Parser.Stretch
import ParserKit.Proofs.Parser.IntegerList
import ParserKit.Proofs.Repl.Conversation
import ParserKit.Proofs.CommandLine.Arguments
import ParserKit.Proofs.CommandLine.Batch
import ParserKit.Proofs.Calculator.Counting
import ParserKit.Proofs.View.Making
