import ParserKit.Grammar.Meaning

/-! Parsers that hold other parsers. A forward cell is declared first and defined later; references to it can
    be used in between, also in its own definition. A reference is weak: it finds its cell but does not keep
    it. What keeps a defined cell is the parser that its definition returned, and whatever holds a copy of
    that parser.

    `Held` records just that: which cells and which other parsers a parser holds. It is a tree, so no cell
    can keep itself. -/

namespace ParserKit

/-- A parser together with what it holds. -/
inductive Held where
  | reference (cell : Nat) (name : String)
  /-- The parser that the definition of a cell returned. It holds the cell. -/
  | definition (cell : Nat) (name : String) (body : Held)
  /-- A parser built from a grammar, with copies of the parsers in the registers that the grammar names,
      and the cells that these copies keep. -/
  | built (scope : Scope) (g : Grammar) (part : String → Held) (cells : List Nat)
  | empty (register : String)

namespace Held

def owns : Held → List Nat
  | reference .. | empty _ => []
  | definition cell _ body => cell :: body.owns
  | built _ _ _ cells => cells

/-- A parser built from a grammar that names the registers `captured`. Copies share what they keep, so the
    cells are counted once, here, and not each time that somebody asks. -/
def build (g : Grammar) (captured : List String) (part : String → Held) : Held :=
  .built [] g part (captured.flatMap fun r => (part r).owns).eraseDups

/-- What a held parser refers to and does not hold. -/
structure Links where
  cell : Nat → String → Parser Value
  rule : String → Parser Value
  /-- A part of a parser entered again. -/
  again : Held → Parser Value

/-- The parser itself. References carry the name of their cell, and so does what a definition returns. -/
def parserWith (links : Links) : Held → Parser Value
  | reference cell name => .fromFn name fun input => (links.cell cell name).parse input
  | definition _ name body => .fromFn name (body.parserWith links).parse
  | built scope g part cells =>
    g.parserWith
      { rule := links.rule
        again := fun scope g => links.again (.built scope g part cells)
        register := fun r => (part r).parserWith links }
      scope
  | empty register => .faulty register (.unknown register)

end Held
end ParserKit
