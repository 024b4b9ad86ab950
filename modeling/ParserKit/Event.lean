/-! What a run reports while it goes on. Events never steer a run; they are a record for a reader. -/

namespace ParserKit

inductive Level where
  | trace
  | debug
deriving DecidableEq

/-- One report of a run. Offsets and lengths count bytes. -/
inductive Event where
  /-- A traced parser matched from `offset` on. -/
  | matched (parser : String) (offset consumed : Nat)
  /-- A traced parser did not match at `offset`. -/
  | noMatch (parser : String) (offset : Nat)
  /-- A repetition ended because its parser matched without consuming anything at `offset`. -/
  | stopped (parser : String) (offset : Nat)
  | evaluated (text : String) (value : Int)
deriving DecidableEq

namespace Level

def name : Level → String
  | trace => "TRACE"
  | debug => "DEBUG"

end Level

namespace Event

def level : Event → Level
  | matched .. | noMatch .. => .trace
  | stopped .. | evaluated .. => .debug

def message : Event → String
  | matched .. => "matched"
  | noMatch .. => "no match"
  | stopped .. => "stopping repetition on a zero-width match"
  | evaluated .. => "evaluated"

/-- The data of an event, by name, as text. -/
def fields : Event → List (String × String)
  | matched parser offset consumed =>
    [("parser", parser), ("offset", toString offset), ("consumed", toString consumed)]
  | noMatch parser offset => [("parser", parser), ("offset", toString offset)]
  | stopped parser offset => [("parser", parser), ("offset", toString offset)]
  | evaluated text value => [("text", text), ("value", toString value)]

end Event
end ParserKit
