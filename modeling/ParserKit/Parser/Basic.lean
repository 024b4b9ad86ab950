import ParserKit.Outcome

/-! Parsers. A parser is a function from views to runs, with a name under which events and other names
    speak of it. A name is made of the names of the parsers inside and can be long, so it is worked out only
    when it is asked for. This file holds the type, the parsers that look at no other, what changes only the
    name or the events of a parser, and the three ways to run one: from a view, from the start of a text,
    and over all of a text. -/

namespace ParserKit

/-- A parser of values of type `α`. Running it never changes it. -/
structure Parser (α : Type) where
  /-- The name, once it is asked for. -/
  naming : Thunk String
  parse : View → Run (Outcome α)

namespace Parser
variable {α β : Type}

def name (p : Parser α) : String := p.naming.get

theorem eq_of_name_parse {p q : Parser α} (hn : p.name = q.name) (hp : p.parse = q.parse) : p = q := by
  rcases p with ⟨n, f⟩
  rcases q with ⟨m, g⟩
  obtain rfl : n = m := Thunk.ext hn
  obtain rfl : f = g := hp
  rfl

/-- A parser that is put together when it is first used, and then kept. -/
def delayed (p : Thunk (Parser α)) : Parser α := ⟨p.get.name, fun input => p.get.parse input⟩

theorem delayed_eq (p : Thunk (Parser α)) : delayed p = p.get := eq_of_name_parse rfl rfl

/-! ### Parsers that look at no other -/

def fromFn (name : Thunk String) (parse : View → Run (Outcome α)) : Parser α := ⟨name, parse⟩

def new (parse : View → Run (Outcome α)) : Parser α := fromFn "Fn" parse

/-- Succeeds with `value` and consumes nothing. -/
def always (value : α) : Parser α := fromFn "Always" fun input => .done (.success value input)

def fail : Parser α := fromFn "Fail" fun _ => .done .failure

def faulty (name : String) (f : Fault) : Parser α := fromFn name fun _ => .raise f

def cutOff (name : String) : Parser α := fromFn name fun _ => .cut

/-! ### Names and events -/

def named (p : Parser α) (name : Thunk String) : Parser α := { p with naming := name }

/-- What a traced parser reports after a run from `input`. What was consumed is the way from the start of the
    match to its end, so the end may not lie before the start. -/
def traceOf (name : String) (input : View) : Outcome α → Except Fault Event
  | .success _ rest =>
    if input.offset ≤ rest.offset then .ok (.matched name input.offset (rest.offset - input.offset))
    else .error (.backwards input.offset rest.offset)
  | .failure => .ok (.noMatch name input.offset)

/-- The same parser, with an event at the end of every run that has an outcome. -/
def traced (p : Parser α) : Parser α :=
  fromFn p.name fun input =>
    (p.parse input).andThen fun outcome =>
      ((Run.ofExcept (traceOf p.name input outcome)).andThen Run.emit).andThen fun _ => .done outcome

/-- The same parser with `f` applied to its values. The name stays. -/
def map (f : α → β) (p : Parser α) : Parser β :=
  fromFn p.name fun input => (p.parse input).andThen fun outcome => .done (outcome.map f)

instance : Functor Parser where
  map := map

def debug (p : Parser α) : String := "Parser \x7b name: " ++ Text.quoteString p.name ++ " \x7d"

end Parser

/-! ### Parsing whole texts -/

inductive ParseError where
  /-- No text at the start matches. -/
  | noMatch
  /-- A text at the start matches, and `remaining` bytes follow it. -/
  | unconsumed (remaining : Nat)
deriving DecidableEq

namespace ParseError

def message : ParseError → String
  | noMatch => "the input does not match"
  | unconsumed remaining => s!"the input was only partially parsed, {remaining} bytes are left over"

def kind : ParseError → String
  | noMatch => "NoMatch"
  | unconsumed _ => "Unconsumed"

def debug : ParseError → String
  | noMatch => "NoMatch"
  | unconsumed remaining => "Unconsumed \x7b remaining: " ++ toString remaining ++ " \x7d"

end ParseError

namespace Parser
variable {α : Type}

def parseStr (p : Parser α) (text : String) : Run (Option (α × String)) :=
  (p.parse (.ofText text)).andThen fun outcome => .done outcome.toPair

/-- What an outcome means for the one who wanted all of the text. -/
def completed : Outcome α → Except Fault (Except ParseError α)
  | .success value rest =>
    if rest.isEmpty then .ok (.ok value) else rest.remaining.map fun bytes => .error (.unconsumed bytes)
  | .failure => .ok (.error .noMatch)

/-- Parses all of a text. To match only a part of it is an error. -/
def parseComplete (p : Parser α) (text : String) : Run (Except ParseError α) :=
  (p.parse (.ofText text)).andThen fun outcome => .ofExcept (completed outcome)

end Parser
end ParserKit
