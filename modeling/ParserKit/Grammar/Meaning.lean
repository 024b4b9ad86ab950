import ParserKit.Grammar.Basic

/-! What a grammar means. A grammar is turned into a parser along its structure; what the structure alone
    does not settle is left to links: the rules of a table, the recursive grammars that are entered again,
    and the registers.

    Rules and recursive grammars can go round for ever, so links come with a depth, and each entry of a rule
    or of a recursive grammar from inside uses up one. At depth 0 such an entry is cut off, which leaves the
    run unfinished.

    What a register holds can use other registers many times over. It is put together only when it runs, so
    that a grammar is no larger than what is written in it. -/

namespace ParserKit

/-- A recursive grammar: what it is called inside, what its parser is called, and its body. -/
structure Binding where
  this : String
  name : String
  body : Grammar

/-- The recursive grammars around a place, from the inside out. -/
abbrev Scope := List Binding

namespace Scope

/-- The innermost recursive grammar that is called so inside, and the scope that its own body is in. -/
def resolve : Scope → String → Option (Binding × Scope)
  | [], _ => none
  | b :: outer, this => if b.this = this then some (b, b :: outer) else resolve outer this

end Scope

structure Links where
  rule : String → Parser Value
  /-- A recursive grammar entered again. -/
  again : Scope → Grammar → Parser Value
  register : String → Parser Value

namespace Grammar

/-- A reference to a recursive grammar from inside. Its cell lives as long as the grammar runs, so it is gone
    exactly where no grammar of that name is around. -/
def selfParser (links : Links) (scope : Scope) (this : String) : Parser Value :=
  match scope.resolve this with
  | some (b, inner) => .fromFn b.name fun input => (links.again inner b.body).parse input
  | none => .faulty this (.dropped this)

def parserWith (links : Links) (scope : Scope) : Grammar → Parser Value
  | prim p => p.parser
  | padded g => (g.parserWith links scope).padded
  | transform via g f => via.use (@Combinator.transform Value Value) (g.parserWith links scope) (f, ())
  | orWith via g h => via.use Combinator.orWith (g.parserWith links scope) (h.parserWith links scope, ())
  | combine via g h f =>
    via.use (@Combinator.combine Value Value Value) (g.parserWith links scope) (h.parserWith links scope, f, ())
  | ignore via g h =>
    via.use (@Combinator.ignore Value Value) (g.parserWith links scope) (h.parserWith links scope, ())
  | ignorePrevious via g h =>
    via.use (@Combinator.ignorePrevious Value Value) (g.parserWith links scope) (h.parserWith links scope, ())
  | ifSatisfies via g test => via.use Combinator.ifSatisfies (g.parserWith links scope) (test, ())
  | bind via g _ next =>
    via.use (@Combinator.bind Value Value) (g.parserWith links scope)
      (fun v => (next v).parserWith links scope, ())
  | lookahead via g => via.use Combinator.lookahead (g.parserWith links scope) ()
  | optional via g => Value.ofOption <$> via.use Combinator.optional (g.parserWith links scope) ()
  | many via g seed reduce =>
    via.use (@Combinator.many Value Value) (g.parserWith links scope) (seed, reduce, ())
  | many1 via g seed reduce =>
    via.use (@Combinator.many1 Value Value) (g.parserWith links scope) (seed, reduce, ())
  | exactlyN via g seed reduce n =>
    via.use (@Combinator.exactlyN Value Value) (g.parserWith links scope) (seed, reduce, n, ())
  | separatedBy via g separator seed reduce =>
    via.use (@Combinator.separatedBy Value Value Value) (g.parserWith links scope)
      (separator.parserWith links scope, seed, reduce, ())
  | sequence _ parts f => Parser.sequence f (List.ofFn fun i => (parts i).parserWith links scope)
  | named g name => (g.parserWith links scope).named name
  | traced g => (g.parserWith links scope).traced
  | wrapped g => Parser.new (g.parserWith links scope).parse
  | fromFn g name => Parser.fromFn name (g.parserWith links scope).parse
  | lazy rule => Parser.lazy fun _ => links.rule rule
  | fix this name body => Parser.fromFn name (body.parserWith links (⟨this, name, body⟩ :: scope)).parse
  | self this => selfParser links scope this
  | register name => Parser.delayed (links.register name)

abbrev Rules := String → Option Grammar

/-- The links that allow `depth` entries of rules and recursive grammars inside each other. -/
def linksWithin (rules : Rules) : Nat → Links
  | 0 =>
    { rule := fun r => .cutOff r
      again := fun _ _ => .cutOff ""
      register := fun r => .faulty r (.unknown r) }
  | depth + 1 =>
    { rule := fun r =>
        match rules r with
        | some g => g.parserWith (linksWithin rules depth) []
        | none => .faulty r (.unknown r)
      again := fun scope g => g.parserWith (linksWithin rules depth) scope
      register := fun r => .faulty r (.unknown r) }

/-- The parser of a grammar that enters rules and recursive grammars at most `depth` deep. -/
def parserWithin (rules : Rules) (depth : Nat) (g : Grammar) : Parser Value :=
  g.parserWith (linksWithin rules depth) []

/-- More entries inside each other than any text of this size calls for, unless a grammar enters itself
    without consuming anything. -/
def depthLimit : Nat := Nat.pow 2 20

def parser (rules : Rules) (g : Grammar) : Parser Value := g.parserWithin rules depthLimit

end Grammar
end ParserKit
