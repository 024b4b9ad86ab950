import ParserKit.Forward.Held

/-! Sessions with forward cells. A session has declared cells that wait for their definition, and registers
    that hold parsers. Whether a reference can be followed depends on the whole history of the session: its
    cell must be defined, and some register must still hold the cell. -/

namespace ParserKit

/-! ### Tables -/

namespace Table
variable {α : Type}

def find (table : List (String × α)) (name : String) : Option α :=
  (table.find? fun entry => entry.1 == name).map (·.2)

def remove (table : List (String × α)) (name : String) : List (String × α) :=
  table.filter fun entry => entry.1 != name

def put (table : List (String × α)) (name : String) (a : α) : List (String × α) := (name, a) :: remove table name

end Table

/-! ### Sessions -/

/-- A forward cell. Its content is set at most once. -/
structure Cell where
  name : String
  content : Option Held

/-- The state of a session. Cells are numbered in the order of their declaration and never reused. -/
structure Session where
  cells : List Cell
  /-- The cells that were declared and neither defined nor dropped, under the names they were given. -/
  forwards : List (String × Nat)
  registers : List (String × Held)

namespace Session

/-! ### Steps -/

inductive Step where
  /-- Declares a cell for a parser called `name`, under the handle `forward`. -/
  | declare (forward name : String)
  | refer (register forward : String)
  | build (register : String) (g : Grammar)
  /-- Defines a cell, which takes the handle away, and puts the defined parser into a register. -/
  | define (register forward : String) (g : Grammar)
  | drop (register : String)
  /-- Takes the handle of a cell away without defining it. -/
  | dropForward (forward : String)

def start : Session := ⟨[], [], []⟩

def register (s : Session) (r : String) : Held := (Table.find s.registers r).getD (.empty r)

def nameOf (s : Session) (cell : Nat) : String := (s.cells[cell]?.map (·.name)).getD ""

/-- A grammar together with copies of the parsers in the registers that it names. -/
def hold (s : Session) (g : Grammar) : Held :=
  let captured := g.mentions.eraseDups
  .build g captured fun r => if captured.contains r then s.register r else .empty r

/-- The session after a step. A step that asks for a cell without a handle changes nothing. -/
def step (s : Session) : Step → Session
  | .declare forward name =>
    { s with
      cells := s.cells ++ [⟨name, none⟩]
      forwards := Table.put s.forwards forward s.cells.length }
  | .refer r forward =>
    match Table.find s.forwards forward with
    | some cell =>
      { s with registers := Table.put s.registers r (.reference cell (s.nameOf cell)) }
    | none => s
  | .build r g => { s with registers := Table.put s.registers r (s.hold g) }
  | .define r forward g =>
    match Table.find s.forwards forward with
    | some cell =>
      let body := s.hold g
      { cells := s.cells.modify cell fun c => { c with content := some body }
        forwards := Table.remove s.forwards forward
        registers := Table.put s.registers r (.definition cell (s.nameOf cell) body) }
    | none => s
  | .drop r => { s with registers := Table.remove s.registers r }
  | .dropForward forward => { s with forwards := Table.remove s.forwards forward }

def after (steps : List Step) : Session := steps.foldl step start

/-! ### References -/

def keeps (s : Session) (cell : Nat) : Bool := s.registers.any fun entry => entry.2.owns.contains cell

inductive Status where
  | undefined
  | alive (content : Held)
  | dropped

/-- A defined cell is alive as long as it is kept. An undefined one waits as long as it has a handle. -/
def status (s : Session) (cell : Nat) : Status :=
  match s.cells[cell]?.bind (·.content) with
  | some content => if s.keeps cell then .alive content else .dropped
  | none => if s.forwards.any fun entry => entry.2 == cell then .undefined else .dropped

/-- The links of a session that allow `depth` entries of references, rules and recursive grammars inside
    each other. Rules see the registers as they are now. -/
def linksWithin (s : Session) (rules : Grammar.Rules) : Nat → Held.Links
  | 0 =>
    { cell := fun _ name => .cutOff name
      rule := fun r => .cutOff r
      again := fun _ => .cutOff "" }
  | depth + 1 =>
    { cell := fun cell name =>
        match s.status cell with
        | .alive content => content.parserWith (linksWithin s rules depth)
        | .undefined => .faulty name (.undefined name)
        | .dropped => .faulty name (.dropped name)
      rule := fun r =>
        match rules r with
        | some g => (s.hold g).parserWith (linksWithin s rules depth)
        | none => .faulty r (.unknown r)
      again := fun h => h.parserWith (linksWithin s rules depth) }

/-- The parser in a register, with runs that go at most `depth` deep. -/
def parserWithin (s : Session) (rules : Grammar.Rules) (depth : Nat) (r : String) : Parser Value :=
  (s.register r).parserWith (s.linksWithin rules depth)

def parser (s : Session) (rules : Grammar.Rules) (r : String) : Parser Value :=
  s.parserWithin rules Grammar.depthLimit r

/-- A declared cell that waits for its definition, as it is shown. -/
def debugForward (s : Session) (forward : String) : Option String := do
  let cell ← Table.find s.forwards forward
  let c ← s.cells[cell]?
  return "Forward \x7b name: " ++ Text.quoteString c.name ++ ", defined: " ++ toString c.content.isSome ++ " \x7d"

end Session
end ParserKit
