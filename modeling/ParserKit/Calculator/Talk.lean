import ParserKit.Calculator.Line
import ParserKit.Repl.Loop

/-! The calculator in front of a prompt: a loop that evaluates line by line and counts the values. -/

namespace ParserKit.Calculator

def writeValue (console : Console) (value : Int) : Attempt StreamError Unit :=
  (console.write (toString value)).andThen fun _ console => console.write "\n"

/-- Evaluates a line, writes its value and then counts it. An error is reported and does not end the loop. -/
def step (line : String) (count : Nat) (console : Console) : Repl.Reply Nat StreamError :=
  if isQuit line then ⟨count, console, .ok .stop⟩
  else if isBlankLine line then ⟨count, console, .ok .goOn⟩
  else
    match evaluate line with
    | .ok value =>
      let written := writeValue console value
      match written.result with
      | .ok _ => ⟨count + 1, written.console, .ok .goOn⟩
      | .error e => ⟨count, written.console, .error e⟩
    | .error e => ⟨count, console.report ("Error: " ++ e.message ++ "\n"), .ok .goOn⟩

def repl (count : Nat) (reader : Reader) (console : Console) : Repl.Report Nat StreamError :=
  Repl.run id step count reader console

end ParserKit.Calculator
