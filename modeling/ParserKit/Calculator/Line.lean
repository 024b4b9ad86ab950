import ParserKit.Calculator.Expr
import ParserKit.Text.Blank

/-! The lines of the calculator. A line is an expression, or blank, or a wish to leave; whoever reads lines
    decides which of these matter. -/

namespace ParserKit.Calculator

/-- The value of a line. Every run of the grammar finishes, so a line that has no value has an error. -/
def evaluate (line : String) : Except ParseError Int :=
  match (eval line).result? with
  | some result => result
  | none => .error .noMatch

def isBlankLine (line : String) : Bool := (Text.trim line).isEmpty

def isQuit (line : String) : Bool := Text.trim line == "q"

end ParserKit.Calculator
