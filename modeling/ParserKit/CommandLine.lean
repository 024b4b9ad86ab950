import ParserKit.Calculator.Batch
import ParserKit.Calculator.Talk

/-! The command line. Arguments are read into a configuration, and a configuration into a plan: what to read,
    and what to write once it is known what was read. Nothing here reads or writes anything itself. -/

namespace ParserKit.CommandLine
open Text (Symbol)

/-! ### Arguments -/

inductive Command where
  | stdin
  | file (path : String)
  | repl
  /-- Arguments that do not name a command. -/
  | error (args : List String)
deriving DecidableEq

structure Config where
  command : Command
  executableName : String
  helpFlag : Bool
deriving DecidableEq

def isHelpFlag (arg : String) : Bool := arg == "-h" || arg == "--help"

/-- The command of the arguments that are no flags. -/
def Command.ofArgs : List String → Command
  | ["-"] => stdin
  | ["repl"] => repl
  | [path] => file path
  | args => error args

/-- Reads the arguments, the first of which is the name of the program. Help flags may stand anywhere after
    it. -/
def Config.ofArgs (args : List String) : Config :=
  let rest := args.drop 1
  { command := .ofArgs (rest.filter fun arg => !isHelpFlag arg)
    executableName := args.head?.getD "prs"
    helpFlag := rest.any isHelpFlag }

def usage : String :=
  "USAGE:\n" ++
  "    prs <file>\n" ++
  "    prs -\n" ++
  "    prs repl\n" ++
  "\n" ++
  "Calling \x60prs <file>\x60 evaluates every non-blank line of the file as an arithmetic\n" ++
  "expression and prints the results. Calling \x60prs -\x60 is the same as calling with a named\n" ++
  "file, but reads the contents from stdin instead of a file. Calling \x60prs repl\x60 starts a\n" ++
  "Read-Eval-Print loop; enter \x60q\x60 to leave it.\n" ++
  "\n" ++
  "Set RUST_LOG (for example RUST_LOG=prs=trace) to see what the parsers are doing.\n"

/-! ### What a run of the program does -/

structure Exit where
  code : Nat
  output : String
  reports : String
deriving DecidableEq

/-- What is read before the program can end. -/
inductive Plan where
  | finish (exit : Exit)
  /-- Needs all bytes of the standard input, or why they cannot be read. -/
  | readInput (next : Except StreamError (List Symbol) → Exit)
  /-- Needs all bytes of a file, or why it cannot be read. -/
  | readFile (path : String) (next : Except StreamError (List Symbol) → Exit)
  /-- Needs the lines of the standard input, one at a time. -/
  | talk (next : Reader → Exit)

def exitOfText (text : String) : Exit :=
  let batch := Calculator.Batch.ofText text
  ⟨if batch.allOk then 0 else 1, batch.output, batch.reports⟩

def exitOfError (e : StreamError) : Exit := ⟨1, "", "Error: " ++ e.message ++ "\n"⟩

def exitOfFileError (path : String) (e : StreamError) : Exit :=
  ⟨1, "", "Error: could not read the file '" ++ path ++ "'.\n" ++ "IO Error: " ++ e.message ++ "\n"⟩

def exitOfLoop (r : Repl.Report Nat StreamError) : Exit :=
  match r.result with
  | .ok _ => ⟨0, r.console.output, r.console.reports⟩
  | .error e => ⟨1, r.console.output, r.console.reports ++ "Error: " ++ e.message ++ "\n"⟩

/-- The text of some bytes, if they are text. -/
def textOf (bytes : List Symbol) : Except StreamError String :=
  match Text.spell? bytes with
  | some text => .ok text
  | none => .error .notText

/-- What a configuration asks for. A help flag wins over every command, and nothing is read then. -/
def Config.plan (c : Config) : Plan :=
  if c.helpFlag then .finish ⟨0, usage ++ "\n", ""⟩
  else
    match c.command with
    | .stdin => .readInput fun bytes =>
      match bytes.bind textOf with
      | .ok text => exitOfText text
      | .error e => exitOfError e
    | .file path => .readFile path fun bytes =>
      match bytes.bind textOf with
      | .ok text => exitOfText text
      | .error e => exitOfFileError path e
    | .repl => .talk fun reader => exitOfLoop (Calculator.repl 0 reader .empty)
    | .error args =>
      .finish ⟨1, "", "Error: " ++ c.executableName ++ " could not understand the command\n" ++
        "Alien arguments: " ++ "\n".intercalate args ++ "\n" ++ usage ++ "\n"⟩

/-- Carries a plan out with this standard input, where reading a file comes to what `file` says. -/
def Plan.runOn (stdin : Reader) (file : String → Except StreamError (List Symbol)) : Plan → Exit
  | finish exit => exit
  | readInput next => next stdin.readAll
  | readFile path next => next (file path)
  | talk next => next stdin

def runOn (args : List String) (stdin : Reader) (file : String → Except StreamError (List Symbol)) : Exit :=
  ((Config.ofArgs args).plan).runOn stdin file

/-- A world in which the standard input can be read to its end. -/
structure World where
  input : List Symbol
  file : String → Except StreamError (List Symbol)

def Plan.run (w : World) (p : Plan) : Exit := p.runOn ⟨w.input, none⟩ w.file

def run (args : List String) (w : World) : Exit := ((Config.ofArgs args).plan).run w

end ParserKit.CommandLine
