import ParserKit.Calculator.Line

/-! The calculator over a whole text: the lines that are not blank are evaluated one by one, and an error on
    one of them changes nothing for the others. -/

namespace ParserKit.Calculator

structure Batch where
  /-- The lines that are not blank, with their numbers among all lines and their results. -/
  results : List (Nat × Except ParseError Int)

namespace Batch

/-- The lines of a text, numbered from 1, without the blank ones. -/
def numberedLines (text : String) : List (Nat × String) :=
  ((Text.lines text).zipIdx 1).filterMap fun (line, number) =>
    if isBlankLine line then none else some (number, line)

def ofText (text : String) : Batch :=
  ⟨(numberedLines text).map fun (number, line) => (number, evaluate line)⟩

def output (b : Batch) : String :=
  String.join (b.results.map fun
    | (_, .ok value) => toString value ++ "\n"
    | (_, .error _) => "")

/-- The errors, one a line, each with the number of its line. -/
def reports (b : Batch) : String :=
  String.join (b.results.map fun
    | (_, .ok _) => ""
    | (number, .error e) => "Error on line " ++ toString number ++ ": " ++ e.message ++ "\n")

def allOk (b : Batch) : Bool := b.results.all fun
  | (_, .ok _) => true
  | (_, .error _) => false

end Batch
end ParserKit.Calculator
