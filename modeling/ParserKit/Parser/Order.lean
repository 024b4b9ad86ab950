import ParserKit.Parser.Value

/-! One after the other. Each parser starts where the one before it ended, and the first that fails ends the
    whole: no parser after it runs. What runs next can be fixed beforehand, depend on the value so far, or be
    built only at the moment it runs.

    Many parsers in a row form a series: a single parser, a parser before another series, or a list of parsers
    of one type. -/

namespace ParserKit

namespace Parser
variable {α β γ : Type}

/-! ### Two parsers -/

/-- The first, then the second on what the first left, with both values put together by `f`. -/
def combine (first : Parser α) (second : Parser β) (f : α → β → γ) : Parser γ :=
  fromFn s!"Combine({first.name}, {second.name})" fun input =>
    (first.parse input).onSuccess fun a rest =>
      (second.parse rest).onSuccess fun b rest => .done (.success (f a b) rest)

def ignorePrevious (first : Parser α) (second : Parser β) : Parser β :=
  (combine first second fun _ b => b).named s!"IgnorePrevious({first.name}, {second.name})"

def ignore (first : Parser α) (second : Parser β) : Parser α :=
  (combine first second fun a _ => a).named s!"Ignore({first.name}, {second.name})"

/-! ### Parsers that are made while a run goes on -/

/-- The value picks the parser that goes on. -/
def bind (p : Parser α) (next : α → Parser β) : Parser β :=
  fromFn s!"Then({p.name})" fun input =>
    (p.parse input).onSuccess fun value rest => (next value).parse rest

/-- Builds the parser anew each time it runs, so that rules can refer to each other in any order. -/
def lazy (rule : Unit → Parser α) : Parser α := fromFn "Lazy" fun input => (rule ()).parse input

end Parser

/-! ### Series -/

/-- Parsers that run one after the other and give all of their values. -/
class Series (S : Type) (Values : outParam Type) where
  names : S → List String
  run : S → View → Run (Outcome Values)

namespace Series

instance {α : Type} : Series (Parser α) α where
  names p := [p.name]
  run p input := p.parse input

instance {α S V : Type} [Series S V] : Series (Parser α × S) (α × V) where
  names parts := parts.1.name :: names parts.2
  run parts input :=
    (parts.1.parse input).onSuccess fun value rest =>
      (run parts.2 rest).onSuccess fun values rest => .done (.success (value, values) rest)

def runAll {α : Type} : List (Parser α) → View → Run (Outcome (List α))
  | [], input => .done (.success [] input)
  | p :: parts, input =>
    (p.parse input).onSuccess fun value rest =>
      (runAll parts rest).onSuccess fun values rest => .done (.success (value :: values) rest)

instance {α : Type} : Series (List (Parser α)) (List α) where
  names parts := parts.map (·.name)
  run := runAll

end Series

namespace Parser
variable {β S V : Type}

def tuple [Series S V] (parts : S) : Parser V :=
  fromFn ("Sequence(" ++ ", ".intercalate (Series.names parts) ++ ")") fun input => Series.run parts input

def sequence [Series S V] (f : V → β) (parts : S) : Parser β :=
  ((tuple parts).transform f).named (tuple parts).name

end Parser
end ParserKit
