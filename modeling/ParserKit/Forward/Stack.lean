import Mathlib.Logic.Function.Basic
import ParserKit.Grammar.Meaning

/-! Recursive grammars with their cells. To build a recursive grammar is to declare a cell, to build the body with
    references to it and to define the cell as the body. References are weak: what keeps a cell is the parser that
    was built with it, for as long as some run is inside of this parser.

    A run is inside of several built parsers at once. The outermost was built before the run started, and each of
    the others was built by a rule or a continuation of one that was already there, only to be run and dropped. So
    they form a stack. It is handed down to what runs inside and never back: leaving a parser takes away its cells.
    Values hold no parsers, so nothing else can keep them. -/

namespace ParserKit

/-- Where a cell is: in which built parser of the stack, counted from the outermost, and at which place of its
    grammar, from the inside out. -/
structure Address where
  frame : Nat
  place : List Nat
deriving DecidableEq

def Address.inside (a : Address) (n : Nat) : Address := ⟨a.frame, n :: a.place⟩

/-- A weak reference to a cell, with the name of the parser in it. -/
structure Reference where
  address : Address
  name : String

/-- The references that a grammar is built with, under what their recursive grammars are called, from the inside
    out. -/
abbrev Environment := List (String × Reference)

/-- A parser that was built from a grammar. The cells of its recursive grammars are at or inside its address. -/
structure Built where
  grammar : Grammar
  environment : Environment
  address : Address

/-- What each cell was defined as, if it was. -/
abbrev Memory := Address → Option Built

namespace Grammar

/-- The memory after a grammar was built at an address. What a continuation makes is not built before it runs. -/
def build : Grammar → Environment → Address → Memory → Memory
  | prim _, _, _, m | lazy _, _, _, m | self _, _, _, m | register _, _, _, m => m
  | fix this name body, env, a, m =>
    let inner := (this, ⟨a, name⟩) :: env
    -- the body is built after the declaration of the cell, which is defined only then
    let declared := Function.update m a none
    Function.update (body.build inner (a.inside 0) declared) a (some ⟨body, inner, a.inside 0⟩)
  | padded g, env, a, m | transform _ g _, env, a, m | ifSatisfies _ g _, env, a, m | bind _ g _ _, env, a, m
  | lookahead _ g, env, a, m | optional _ g, env, a, m | many _ g _ _, env, a, m | many1 _ g _ _, env, a, m
  | exactlyN _ g _ _ _, env, a, m | named g _, env, a, m | traced g, env, a, m | wrapped g, env, a, m
  | fromFn g _, env, a, m => g.build env a m
  | orWith _ g h, env, a, m | combine _ g h _, env, a, m | ignore _ g h, env, a, m | ignorePrevious _ g h, env, a, m
  | separatedBy _ g h _ _, env, a, m => h.build env (a.inside 1) (g.build env (a.inside 0) m)
  | sequence count parts _, env, a, m =>
    (List.finRange count).foldl (fun m n => (parts n).build env (a.inside n) m) m

/-- The cells that a grammar has when it was built at an address, with what they are defined as. -/
def cells : Grammar → Environment → Address → List (Address × Built)
  | prim _, _, _ | lazy _, _, _ | self _, _, _ | register _, _, _ => []
  | fix this name body, env, a =>
    let inner := (this, ⟨a, name⟩) :: env
    (a, ⟨body, inner, a.inside 0⟩) :: body.cells inner (a.inside 0)
  | padded g, env, a | transform _ g _, env, a | ifSatisfies _ g _, env, a | bind _ g _ _, env, a | lookahead _ g, env, a
  | optional _ g, env, a | many _ g _ _, env, a | many1 _ g _ _, env, a | exactlyN _ g _ _ _, env, a | named g _, env, a
  | traced g, env, a | wrapped g, env, a | fromFn g _, env, a => g.cells env a
  | orWith _ g h, env, a | combine _ g h _, env, a | ignore _ g h, env, a | ignorePrevious _ g h, env, a
  | separatedBy _ g h _ _, env, a => g.cells env (a.inside 0) ++ h.cells env (a.inside 1)
  | sequence _ parts _, env, a => (List.ofFn fun n => (parts n).cells env (a.inside n)).flatten

end Grammar

def Built.owns (b : Built) : List Address := (b.grammar.cells b.environment b.address).map (·.1)

/-! ### Stacks -/

structure Stack where
  memory : Memory
  /-- The built parsers that a run is inside of, the innermost first. -/
  active : List Built
  frame_lt : ∀ b ∈ active, b.address.frame < active.length

namespace Stack

def empty : Stack := ⟨fun _ => none, [], fun _ h => nomatch h⟩

def next (s : Stack) : Address := ⟨s.active.length, []⟩

/-- The stack inside a parser that was just built from a grammar. -/
def enter (s : Stack) (env : Environment) (g : Grammar) : Stack where
  memory := g.build env s.next s.memory
  active := ⟨g, env, s.next⟩ :: s.active
  frame_lt := List.forall_mem_cons.mpr ⟨Nat.lt_succ_self _, fun b hb => Nat.lt_succ_of_lt (s.frame_lt b hb)⟩

def Keeps (s : Stack) (a : Address) : Prop := ∃ b ∈ s.active, a ∈ b.owns

instance (s : Stack) (a : Address) : Decidable (s.Keeps a) :=
  inferInstanceAs (Decidable (∃ b ∈ s.active, a ∈ b.owns))

inductive Status where
  | undefined
  | alive (content : Built)
  | dropped

def status (s : Stack) (a : Address) : Status :=
  if s.Keeps a then
    match s.memory a with
    | some content => .alive content
    | none => .undefined
  else .dropped

/-- The parser that a reference leads to. Its run is a fault if the cell is gone or was not defined. That a cell is
    kept while it is entered through a reference is not counted: it could only make cells live longer. -/
def follow (s : Stack) (ref : Reference) (enter : Built → Parser Value) : Parser Value :=
  match s.status ref.address with
  | .alive content => enter content
  | .undefined => .faulty ref.name (.undefined ref.name)
  | .dropped => .faulty ref.name (.dropped ref.name)

/-- What the structure of a grammar does not settle: the cells that references lead to, and the rules. -/
structure Links where
  cell : Stack → Reference → Parser Value
  rule : Stack → String → Parser Value

end Stack

/-! ### Built parsers -/

namespace Grammar

/-- The parser that was built from a grammar, in a run that is inside of the parsers of a stack. -/
def parserOn (links : Stack.Links) : Grammar → Stack → Environment → Address → Parser Value
  | prim p, _, _, _ => p.parser
  | padded g, s, env, a => (g.parserOn links s env a).padded
  | transform via g f, s, env, a => via.use (@Combinator.transform Value Value) (g.parserOn links s env a) (f, ())
  | orWith via g h, s, env, a =>
    via.use Combinator.orWith (g.parserOn links s env (a.inside 0)) (h.parserOn links s env (a.inside 1), ())
  | combine via g h f, s, env, a =>
    via.use (@Combinator.combine Value Value Value) (g.parserOn links s env (a.inside 0))
      (h.parserOn links s env (a.inside 1), f, ())
  | ignore via g h, s, env, a =>
    via.use (@Combinator.ignore Value Value) (g.parserOn links s env (a.inside 0))
      (h.parserOn links s env (a.inside 1), ())
  | ignorePrevious via g h, s, env, a =>
    via.use (@Combinator.ignorePrevious Value Value) (g.parserOn links s env (a.inside 0))
      (h.parserOn links s env (a.inside 1), ())
  | ifSatisfies via g test, s, env, a => via.use Combinator.ifSatisfies (g.parserOn links s env a) (test, ())
  | bind via g _ next, s, env, a =>
    via.use (@Combinator.bind Value Value) (g.parserOn links s env a)
      (fun v => (next v).parserOn links (s.enter env (next v)) env s.next, ())
  | lookahead via g, s, env, a => via.use Combinator.lookahead (g.parserOn links s env a) ()
  | optional via g, s, env, a => Value.ofOption <$> via.use Combinator.optional (g.parserOn links s env a) ()
  | many via g seed reduce, s, env, a =>
    via.use (@Combinator.many Value Value) (g.parserOn links s env a) (seed, reduce, ())
  | many1 via g seed reduce, s, env, a =>
    via.use (@Combinator.many1 Value Value) (g.parserOn links s env a) (seed, reduce, ())
  | exactlyN via g seed reduce n, s, env, a =>
    via.use (@Combinator.exactlyN Value Value) (g.parserOn links s env a) (seed, reduce, n, ())
  | separatedBy via g separator seed reduce, s, env, a =>
    via.use (@Combinator.separatedBy Value Value Value) (g.parserOn links s env (a.inside 0))
      (separator.parserOn links s env (a.inside 1), seed, reduce, ())
  | sequence _ parts f, s, env, a =>
    Parser.sequence f (List.ofFn fun n => (parts n).parserOn links s env (a.inside n))
  | named g name, s, env, a => (g.parserOn links s env a).named name
  | traced g, s, env, a => (g.parserOn links s env a).traced
  | wrapped g, s, env, a => Parser.new (g.parserOn links s env a).parse
  | fromFn g name, s, env, a => Parser.fromFn name (g.parserOn links s env a).parse
  | lazy rule, s, _, _ => Parser.lazy fun _ => links.rule s rule
  | fix this name body, s, env, a =>
    Parser.fromFn name (body.parserOn links s ((this, ⟨a, name⟩) :: env) (a.inside 0)).parse
  | self this, s, env, _ =>
    match env.lookup this with
    | some ref => .fromFn ref.name fun input => (links.cell s ref).parse input
    | none => .faulty this (.dropped this) -- a name that is bound nowhere has no cell
  | register name, _, _, _ => .faulty name (.unknown name)

end Grammar

namespace Stack
open Grammar

/-- A parser that is built from a grammar inside of the parsers of the stack, only to be run. -/
def run (links : Links) (s : Stack) (env : Environment) (g : Grammar) : Parser Value :=
  g.parserOn links (s.enter env g) env s.next

/-- The links that allow `depth` entries of rules and cells inside each other. Whether a reference can be followed
    is looked at before its cell is entered, also where the entry is cut off. -/
def linksWithin (rules : Rules) : Nat → Links
  | 0 =>
    { cell := fun s ref => s.follow ref fun _ => .cutOff ref.name
      rule := fun _ r => .cutOff r }
  | depth + 1 =>
    { cell := fun s ref => s.follow ref fun b =>
        b.grammar.parserOn (linksWithin rules depth) s b.environment b.address
      rule := fun s r =>
        match rules r with
        | some g => s.run (linksWithin rules depth) [] g
        | none => .faulty r (.unknown r) }

end Stack

/-- The parser of a grammar with its cells. It enters rules and cells at most `depth` deep. -/
def Grammar.builtWithin (rules : Rules) (depth : Nat) (g : Grammar) : Parser Value :=
  Stack.empty.run (Stack.linksWithin rules depth) [] g

end ParserKit
