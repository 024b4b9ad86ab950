import ParserKit.Parser.Basic

/-! What becomes of a value: it can be changed, or tested. Neither touches the view that follows it. -/

namespace ParserKit.Parser
variable {α β : Type}

def transform (p : Parser α) (f : α → β) : Parser β :=
  fromFn s!"Transform({p.name})" fun input => (p.parse input).andThen fun outcome => .done (outcome.map f)

def ifSatisfies (p : Parser α) (test : α → Bool) : Parser α :=
  fromFn s!"IfSatisfies({p.name})" fun input =>
    (p.parse input).onSuccess fun value rest =>
      if test value then .done (.success value rest) else .done .failure

end ParserKit.Parser
