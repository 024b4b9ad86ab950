import ParserKit.Repl.Stream

/-! The read-eval-print loop. It shows a prompt, reads a line and hands it to a step, until the step asks to
    stop or the input ends. What a line means, and what the state is, is up to the step. -/

namespace ParserKit.Repl

/-- What a step wants after a line. -/
inductive Verdict where
  | goOn
  | stop
deriving DecidableEq

/-- What a step leaves behind: the state and the console, also when it fails, and what it wants. -/
structure Reply (σ ε : Type) where
  state : σ
  console : Console
  verdict : Except ε Verdict

/-- What is done with a line, in a state and on a console. -/
abbrev Step (σ ε : Type) := String → σ → Console → Reply σ ε

/-- How a loop ended. -/
structure Report (σ ε : Type) where
  /-- The last state, or the error that ended the loop. -/
  result : Except ε σ
  reader : Reader
  console : Console
  /-- The lines that were handed to the step. -/
  handed : List String

def prompt : String := ">   "

/-- A line without the line feeds and carriage returns at its end. -/
def lineContent (text : String) : String :=
  String.ofList (Text.dropTrailing (fun c => c == '\n' || c == '\r') text.toList)

def ask (c : Console) : Attempt StreamError Unit := (c.write prompt).andThen fun _ c => c.flush

/-- Runs the loop. The errors of streams are turned into those of the step. -/
def run {σ ε : Type} (ofStream : StreamError → ε) (step : Step σ ε) (state : σ) (reader : Reader)
    (console : Console) : Report σ ε :=
  let asked := ask console
  match asked.result with
  | .error e => ⟨.error (ofStream e), reader, asked.console, []⟩
  | .ok _ =>
    match h : reader.nextLine with
    | .failed e => ⟨.error (ofStream e), reader.skipLine, asked.console, []⟩
    | .ended =>
      let last := asked.console.write "\n"
      ⟨(last.result.map fun _ => state).mapError ofStream, reader.skipLine, last.console, []⟩
    | .line text =>
      have : reader.skipLine.pending.length < reader.pending.length := Reader.length_skipLine_lt h
      let line := lineContent text
      let reply := step line state asked.console
      match reply.verdict with
      | .error e => ⟨.error e, reader.skipLine, reply.console, [line]⟩
      | .ok .stop => ⟨.ok reply.state, reader.skipLine, reply.console, [line]⟩
      | .ok .goOn =>
        let rest := run ofStream step reply.state reader.skipLine reply.console
        { rest with handed := line :: rest.handed }
termination_by reader.pending.length

end ParserKit.Repl
