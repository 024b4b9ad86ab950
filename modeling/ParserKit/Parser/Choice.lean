import ParserKit.Parser.Basic

/-! Going back. A parser can be tried without being committed to: after a failure `orWith` and `optional` go on
    from the view that they started from, and `lookahead` goes back to it even after a success. Nothing that a
    failed or peeked branch consumed is visible to what runs next. -/

namespace ParserKit.Parser
variable {α : Type}

/-- Ordered choice: what the first makes of the view if it matches, else what the second makes of it. -/
def orWith (first second : Parser α) : Parser α :=
  fromFn s!"OrWith({first.name} | {second.name})" fun input =>
    (first.parse input).onFailure fun _ => second.parse input

/-- The value if there is one; never fails. -/
def optional (p : Parser α) : Parser (Option α) :=
  fromFn s!"Optional({p.name})" fun input =>
    ((p.parse input).onSuccess fun value rest => .done (.success (some value) rest)).onFailure
      fun _ => .done (.success none input)

/-- Gives the value but leaves the view where it was. -/
def lookahead (p : Parser α) : Parser α :=
  fromFn s!"Lookahead({p.name})" fun input =>
    (p.parse input).onSuccess fun value _ => .done (.success value input)

end ParserKit.Parser
