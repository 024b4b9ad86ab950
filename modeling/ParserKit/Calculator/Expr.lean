import ParserKit.Parser.Choice
import ParserKit.Parser.Token

/-! Arithmetic with `+`, `*` and parentheses.

    expr   = term ('+' term)*
    term   = factor ('*' factor)*
    factor = '(' expr ')' | integer

    Spaces are allowed around every factor and operator. Results saturate at the bounds of signed words of
    64 bits.

    The rules refer to each other in a circle, which the innermost rule closes: each rule takes the parser
    of the expressions between parentheses as its argument. A text nests at most as deep as it has opening
    parentheses, so that many rounds are enough for it. -/

namespace ParserKit.Calculator
open ParserKit.Parser

/-! ### The rules -/

/-- A number, or what `inner` makes of the text between parentheses. -/
def factorOver (inner : Parser Int) : Parser Int :=
  let parenthesized := ((element '(').ignorePrevious inner).ignore (element ')')
  let number := integer.transform Range.signed64.clamp
  (padded (parenthesized.orWith number)).named "Factor"

def termOver (inner : Parser Int) : Parser Int :=
  (separatedBy (factorOver inner) (token "*") 1 Range.signed64.mul).named "Term"

def exprOver (inner : Parser Int) : Parser Int :=
  (separatedBy (termOver inner) (token "+") 0 Range.signed64.add).named "Expr"

/-! ### Closing the circle -/

/-- The expressions that nest parentheses less than `depth` deep. Beyond that depth a run is cut off. -/
def exprWithin : Nat → Parser Int
  | 0 => cutOff "Expr"
  | depth + 1 => exprOver (lazy fun _ => exprWithin depth)

/-- The expressions between parentheses of a text that opens at most `depth` of them. -/
def innerWithin (depth : Nat) : Parser Int := lazy fun _ => exprWithin depth

/-- How deep the parentheses after a view can nest. -/
def nesting (input : View) : Nat := input.rest.count '('

/-- A rule that is given as many rounds as the text can need. -/
def unbounded (rule : Parser Int → Parser Int) : Parser Int :=
  fromFn (rule (innerWithin 0)).name fun input => (rule (innerWithin (nesting input))).parse input

def expr : Parser Int := unbounded exprOver

def term : Parser Int := unbounded termOver

def factor : Parser Int := unbounded factorOver

/-! ### Evaluation -/

/-- The value of a text that is an expression from end to end. -/
def eval (text : String) : Run (Except ParseError Int) :=
  (expr.parseComplete text).andThen fun
    | .ok value => (Run.emit (.evaluated text value)).andThen fun _ => .done (.ok value)
    | .error e => .done (.error e)

end ParserKit.Calculator
