import ParserKit.Parser.Character
import ParserKit.Saturation

/-! Spaces, tokens and numbers. Only the space itself is skipped between tokens; tabulators and line ends
    are not. A number is a run of ASCII digits, and saturates at the greatest unsigned word of 64 bits. -/

namespace ParserKit.Parser
variable {α : Type}

/-! ### Spaces -/

/-- Zero or more spaces. Never fails. -/
def whitespace : Parser String := (manyOf ' ').named "Whitespace"

/-- `p`, with any number of spaces on both sides. -/
def padded (p : Parser α) : Parser α :=
  ((whitespace.ignorePrevious p).ignore whitespace).named s!"Padded({p.name})"

def token (text : String) : Parser String :=
  (padded (literal text)).named ("Token(" ++ Text.quoteString text ++ ")")

/-! ### Numbers -/

def digit : Parser Char := (oneOf "0123456789").named "Digit"

def digitOf (c : Char) : Option Int := if c.isDigit then some (c.toNat - '0'.toNat : Nat) else none

def digitValue : Parser Int :=
  fromFn "DigitValue" fun input =>
    (Run.ofExcept input.splitFirst).andThen fun split =>
      .done <| match split with
        | some (c, rest) =>
          match digitOf c with
          | some value => .success value rest
          | none => .failure
        | none => .failure

/-- The number `n` with one more digit at its end. -/
def appendDigit (n digit : Int) : Int := Range.unsigned64.add (Range.unsigned64.mul n 10) digit

def integer : Parser Int := (many1 digitValue 0 appendDigit).named "Integer"

end ParserKit.Parser
