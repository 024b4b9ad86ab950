import ParserKit.CommandLine

/-! The program itself: reads what a plan asks for and writes what it leaves behind. -/

namespace ParserKit.Terminal

/-- The error with one of the system's numbers, which some of its calls give negated. -/
def numbered (code : UInt32) (reason : String) : StreamError :=
  let number := if code < 0x80000000 then code else 0 - code
  (StreamError.named.find? fun e => e.number? == some number.toNat).getD (.system reason number.toNat)

/-- The error that a system error is reported as. -/
def streamError : IO.Error → StreamError
  | .noFileOrDirectory _ code reason => numbered code reason
  | .inappropriateType _ code reason => numbered code reason
  | .permissionDenied _ code reason => numbered code reason
  | .invalidArgument _ code reason => numbered code reason
  | .resourceExhausted _ code reason => numbered code reason
  | e => .other (toString e)

partial def readAll (stream : IO.FS.Stream) (before : ByteArray) : IO ByteArray := do
  let chunk ← stream.read 65536
  if chunk.isEmpty then return before
  readAll stream (before ++ chunk)

partial def readLineBytes (stream : IO.FS.Stream) (before : ByteArray) : IO ByteArray := do
  let byte ← stream.read 1
  if byte.isEmpty then return before
  let line := before ++ byte
  if byte[0]? == some 10 then return line
  readLineBytes stream line

def leave (exit : CommandLine.Exit) : IO UInt32 := do
  let out ← IO.getStdout
  out.putStr exit.output
  out.flush
  (← IO.getStderr).putStr exit.reports
  return exit.code.toUInt32

partial def talk (count : Nat) : IO UInt32 := do
  let out ← IO.getStdout
  out.putStr Repl.prompt
  out.flush
  let bytes ← readLineBytes (← IO.getStdin) .empty
  match (Reader.mk (Text.decode bytes.toList) none).nextLine with
  | .ended =>
    out.putStrLn ""
    return 0
  | .failed e => leave (CommandLine.exitOfError e)
  | .line text =>
    let reply := Calculator.step (Repl.lineContent text) count .empty
    let _ ← leave ⟨0, reply.console.output, reply.console.reports⟩
    match reply.verdict with
    | .ok .goOn => talk reply.state
    | .ok .stop => return 0
    | .error e => leave (CommandLine.exitOfError e)

end ParserKit.Terminal

open ParserKit ParserKit.Terminal in
def main (args : List String) : IO UInt32 := do
  match (CommandLine.Config.ofArgs ("prs" :: args)).plan with
  | .finish exit => leave exit
  | .readInput next =>
    let bytes ← (Except.mapError streamError) <$> (readAll (← IO.getStdin) .empty).toBaseIO
    leave (next (bytes.map fun b => Text.decode b.toList))
  | .readFile path next =>
    let bytes ← (Except.mapError streamError) <$> (IO.FS.readBinFile path).toBaseIO
    leave (next (bytes.map fun b => Text.decode b.toList))
  | .talk _ => talk 0
