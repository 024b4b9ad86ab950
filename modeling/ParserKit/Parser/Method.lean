import ParserKit.Parser.Choice
import ParserKit.Parser.Fold
import ParserKit.Pipe

/-! Combinators as methods. A combinator can be asked of its subject, with its other arguments in the order of the
    function, so that a chain of combinators reads from left to right. What is offered as a function and as a
    method is collected in the table at the end. -/

namespace ParserKit
variable {α β γ σ : Type}

/-! ### Methods -/

namespace Method

def transform (self : Parser α) (f : α → β) : Parser β := Parser.transform self f

def orWith (self other : Parser α) : Parser α := Parser.orWith self other

def combine (self : Parser α) (other : Parser β) (f : α → β → γ) : Parser γ := Parser.combine self other f

/-- Keeps the value of `other`. -/
def ignorePrevious (self : Parser α) (other : Parser β) : Parser β := Parser.ignorePrevious self other

/-- Keeps the value of `self`. -/
def ignore (self : Parser α) (other : Parser β) : Parser α := Parser.ignore self other

def ifSatisfies (self : Parser α) (test : α → Bool) : Parser α := Parser.ifSatisfies self test

def bind (self : Parser α) (next : α → Parser β) : Parser β := Parser.bind self next

def lookahead (self : Parser α) : Parser α := Parser.lookahead self

def optional (self : Parser α) : Parser (Option α) := Parser.optional self

def many (self : Parser α) (seed : β) (reduce : β → α → β) : Parser β := Parser.many self seed reduce

def many1 (self : Parser α) (seed : β) (reduce : β → α → β) : Parser β := Parser.many1 self seed reduce

def exactlyN (self : Parser α) (seed : β) (reduce : β → α → β) (n : Nat) : Parser β :=
  Parser.exactlyN self seed reduce n

def separatedBy (self : Parser α) (separator : Parser σ) (seed : β) (reduce : β → α → β) : Parser β :=
  Parser.separatedBy self separator seed reduce

end Method

/-! ### What is offered -/

namespace Combinator

def transform : Combinator α ((α → β) → Parser β) := ⟨Parser.transform, Method.transform⟩

def orWith : Combinator α (Parser α → Parser α) := ⟨Parser.orWith, Method.orWith⟩

def combine : Combinator α (Parser β → (α → β → γ) → Parser γ) := ⟨Parser.combine, Method.combine⟩

def ignorePrevious : Combinator α (Parser β → Parser β) := ⟨Parser.ignorePrevious, Method.ignorePrevious⟩

def ignore : Combinator α (Parser β → Parser α) := ⟨Parser.ignore, Method.ignore⟩

def ifSatisfies : Combinator α ((α → Bool) → Parser α) := ⟨Parser.ifSatisfies, Method.ifSatisfies⟩

def bind : Combinator α ((α → Parser β) → Parser β) := ⟨Parser.bind, Method.bind⟩

def lookahead : Combinator α (Parser α) := ⟨Parser.lookahead, Method.lookahead⟩

def optional : Combinator α (Parser (Option α)) := ⟨Parser.optional, Method.optional⟩

def many : Combinator α (β → (β → α → β) → Parser β) := ⟨Parser.many, Method.many⟩

def many1 : Combinator α (β → (β → α → β) → Parser β) := ⟨Parser.many1, Method.many1⟩

def exactlyN : Combinator α (β → (β → α → β) → Nat → Parser β) := ⟨Parser.exactlyN, Method.exactlyN⟩

def separatedBy : Combinator α (Parser σ → β → (β → α → β) → Parser β) :=
  ⟨Parser.separatedBy, Method.separatedBy⟩

instance : (@transform α β).Uniform := ⟨fun _ => rfl⟩

instance : (@orWith α).Uniform := ⟨fun _ => rfl⟩

instance : (@combine α β γ).Uniform := ⟨fun _ => rfl⟩

instance : (@ignorePrevious α β).Uniform := ⟨fun _ => rfl⟩

instance : (@ignore α β).Uniform := ⟨fun _ => rfl⟩

instance : (@ifSatisfies α).Uniform := ⟨fun _ => rfl⟩

instance : (@bind α β).Uniform := ⟨fun _ => rfl⟩

instance : (@lookahead α).Uniform := ⟨fun _ => rfl⟩

instance : (@optional α).Uniform := ⟨fun _ => rfl⟩

instance : (@many α β).Uniform := ⟨fun _ => rfl⟩

instance : (@many1 α β).Uniform := ⟨fun _ => rfl⟩

instance : (@exactlyN α β).Uniform := ⟨fun _ => rfl⟩

instance : (@separatedBy α β σ).Uniform := ⟨fun _ => rfl⟩

end Combinator
end ParserKit
