import ParserKit.Calculator.Expr
import ParserKit.Parser.Method
import ParserKit.Value

/-! Grammars as data. A grammar is a description of a parser of dynamic values, built from the parsers
    and combinators of the library. It is what a program reads, writes or checks before it runs anything,
    and what a statement about all parsers of the library speaks of.

    A grammar can be recursive in two ways. A `fix` grammar says what it is called inside itself, and `self` with
    that name is the innermost such grammar around it. A `lazy` grammar is a rule of a table, looked up each
    time it runs; it sees no name from around it. -/

namespace ParserKit

/-! ### Leaves -/

inductive Primitive where
  | item
  | satisfy (test : Char → Bool)
  | element (c : Char)
  | oneOf (set : String)
  | noneOf (set : String)
  | literal (text : String)
  | manyOf (c : Char)
  | always (v : Value)
  | fail
  | eof
  | whitespace
  | token (text : String)
  | digit
  | digitValue
  | integer
  | expr
  | term
  | factor

namespace Primitive

/-- The parser that a leaf stands for, with its results as dynamic values. -/
def parser : Primitive → Parser Value
  | item => Value.char <$> Parser.item
  | satisfy test => Value.char <$> Parser.satisfy test
  | element c => Value.char <$> Parser.element c
  | oneOf set => Value.char <$> Parser.oneOf set
  | noneOf set => Value.char <$> Parser.noneOf set
  | literal text => Value.string <$> Parser.literal text
  | manyOf c => Value.string <$> Parser.manyOf c
  | always v => Parser.always v
  | fail => Parser.fail
  | eof => (fun _ => Value.unit) <$> Parser.eof
  | whitespace => Value.string <$> Parser.whitespace
  | token text => Value.string <$> Parser.token text
  | digit => Value.char <$> Parser.digit
  | digitValue => Value.int <$> Parser.digitValue
  | integer => Value.int <$> Parser.integer
  | expr => Value.int <$> Calculator.expr
  | term => Value.int <$> Calculator.term
  | factor => Value.int <$> Calculator.factor

end Primitive

/-! ### Grammars -/

/-- A description of a parser of dynamic values. Combinators that can be applied in several ways say in
    which way they are. -/
inductive Grammar where
  | prim (p : Primitive)
  | padded (g : Grammar)
  | transform (via : Surface) (g : Grammar) (f : Value → Value)
  | orWith (via : Surface) (first second : Grammar)
  | combine (via : Surface) (first second : Grammar) (f : Value → Value → Value)
  | ignore (via : Surface) (first second : Grammar)
  | ignorePrevious (via : Surface) (first second : Grammar)
  | ifSatisfies (via : Surface) (g : Grammar) (test : Value → Bool)
  /-- The value picks the grammar that goes on. A continuation keeps copies of the parsers in the registers
      `captures`, and can refer to no others. -/
  | bind (via : Surface) (g : Grammar) (captures : List String) (next : Value → Grammar)
  | lookahead (via : Surface) (g : Grammar)
  | optional (via : Surface) (g : Grammar)
  | many (via : Surface) (g : Grammar) (seed : Value) (reduce : Value → Value → Value)
  | many1 (via : Surface) (g : Grammar) (seed : Value) (reduce : Value → Value → Value)
  | exactlyN (via : Surface) (g : Grammar) (seed : Value) (reduce : Value → Value → Value) (n : Nat)
  | separatedBy (via : Surface) (g separator : Grammar) (seed : Value) (reduce : Value → Value → Value)
  | sequence (count : Nat) (parts : Fin count → Grammar) (f : List Value → Value)
  | named (g : Grammar) (name : String)
  | traced (g : Grammar)
  /-- A parser from a function that runs `g`. -/
  | wrapped (g : Grammar)
  /-- A parser from a function that runs `g`, with a name. -/
  | fromFn (g : Grammar) (name : String)
  | lazy (rule : String)
  /-- A grammar that is called `this` in its own body. Its parser is called `name` in reports. -/
  | fix (this name : String) (body : Grammar)
  | self (this : String)
  /-- The parser that a register held when the grammar was built. -/
  | register (name : String)

namespace Grammar

def tuple {count : Nat} (parts : Fin count → Grammar) : Grammar := .sequence count parts .ofList

/-- A grammar that is called in its own body like its parser is called in reports. -/
def recursive (name : String) (body : Grammar) : Grammar := .fix name name body

/-- The registers that a grammar keeps copies of. A lazy rule keeps none: it is built only when it runs. -/
def mentions : Grammar → List String
  | prim _ | lazy _ | self _ => []
  | register r => [r]
  | padded g | transform _ g _ | ifSatisfies _ g _ | lookahead _ g | optional _ g | many _ g _ _ | many1 _ g _ _
  | exactlyN _ g _ _ _ | named g _ | traced g | wrapped g | fromFn g _ | fix _ _ g => g.mentions
  | orWith _ g h | combine _ g h _ | ignore _ g h | ignorePrevious _ g h | separatedBy _ g h _ _ =>
    g.mentions ++ h.mentions
  | bind _ g captures _ => g.mentions ++ captures
  | sequence _ parts _ => (List.ofFn fun i => (parts i).mentions).flatten

/-! ### Continuations -/

inductive Continuation where
  /-- The grammar of the first key that is the value's text, or else the last one. -/
  | choose (cases : List (String × Grammar)) (otherwise : Grammar)
  /-- As many repetitions as the value says; none for a negative number. -/
  | times (g : Grammar) (seed : Value) (reduce : Value → Value → Value)
  | same
  | yield (f : Value → Value)
  | seeded (g : Grammar) (reduce : Value → Value → Value)

namespace Continuation

def grammar : Continuation → Value → Grammar
  | choose cases otherwise, v =>
    let key := v.text
    ((cases.find? fun entry => entry.1 == key).map (·.2)).getD otherwise
  | times g seed reduce, v => .exactlyN .function g seed reduce v.num.toNat
  | same, v => .prim (.literal v.text)
  | yield f, v => .prim (.always (f v))
  | seeded g reduce, v => .many .function g v reduce

def captures : Continuation → List String
  | choose cases otherwise => cases.flatMap (·.2.mentions) ++ otherwise.mentions
  | times g _ _ | seeded g _ => g.mentions
  | same | yield _ => []

end Continuation

def andThen (via : Surface) (g : Grammar) (next : Continuation) : Grammar := .bind via g next.captures next.grammar

end Grammar
end ParserKit
