import ParserKit.Parser.Order

/-! Repetition. Each combinator of this file folds the values of a repeated parser into an accumulator,
    strictly from left to right, starting from a seed that is the same in every run.

    A loop goes on only while the rest of the text gets shorter. A match that consumes nothing ends it
    without being folded, and is reported; otherwise a parser that matches everywhere would be repeated
    for ever. -/

namespace ParserKit.Parser
variable {α β σ : Type}

/-- Runs `p` until it fails or consumes nothing, and folds its values into `acc`.

    For parsers that never end before their start, this is the loop that goes on as long as a match ends somewhere else
    than it started (`Loops`; shown by `Loops.eq_fold` and `MovesOn.loops_fold`), and only for these: here, a match that
    ends before its start ends the loop. -/
def fold (p : Parser α) (reduce : β → α → β) (acc : β) (input : View) : Run (β × View) :=
  (p.parse input).andThen fun
    | .failure => .done (acc, input)
    | .success value rest =>
      if rest.len < input.len then fold p reduce (reduce acc value) rest
      else (Run.emit (.stopped p.name input.offset)).andThen fun _ => .done (acc, input)
termination_by input.len

def folded (r : Run (β × View)) : Run (Outcome β) := r.andThen fun (acc, rest) => .done (.success acc rest)

/-- Zero or more. Never fails. -/
def many (p : Parser α) (seed : β) (reduce : β → α → β) : Parser β :=
  fromFn s!"Many({p.name})" fun input => folded (fold p reduce seed input)

/-- One or more. The first match counts even if it consumes nothing. -/
def many1 (p : Parser α) (seed : β) (reduce : β → α → β) : Parser β :=
  fromFn s!"Many1({p.name})" fun input =>
    (p.parse input).onSuccess fun first rest => folded (fold p reduce (reduce seed first) rest)

/-- `n` matches in a row, each of which counts whether it consumes anything or not. -/
def repeatFrom (p : Parser α) (reduce : β → α → β) : Nat → β → View → Run (Outcome β)
  | 0, acc, input => .done (.success acc input)
  | n + 1, acc, input => (p.parse input).onSuccess fun value rest => repeatFrom p reduce n (reduce acc value) rest

/-- Exactly `n`. What would match after the last of them is left alone. -/
def exactlyN (p : Parser α) (seed : β) (reduce : β → α → β) (n : Nat) : Parser β :=
  fromFn s!"ExactlyN({p.name}, {n})" fun input => repeatFrom p reduce n seed input

/-- One item, then any number of items with a separator before each. A separator without an item after it
    is not consumed, and the values of separators are dropped. -/
def separatedBy (p : Parser α) (separator : Parser σ) (seed : β) (reduce : β → α → β) : Parser β :=
  let next := ignorePrevious separator p
  fromFn s!"SeparatedBy({p.name}, {separator.name})" fun input =>
    (p.parse input).onSuccess fun first rest => folded (fold next reduce (reduce seed first) rest)

end ParserKit.Parser
