import ParserKit.Pipe
import ParserKit.Saturation

/-! Functions of signed words of 64 bits, with the subject as the first argument, to be piped through. Each
    single step saturates. -/

namespace ParserKit.Word

def neg (x : Int) : Int := Range.signed64.neg x

def add (x a : Int) : Int := Range.signed64.add x a

def sub (x a : Int) : Int := Range.signed64.sub x a

def mul (x a : Int) : Int := Range.signed64.mul x a

/-- The word between two bounds that is nearest to `x`; the upper bound if the bounds are out of order. -/
def clamp (x lo hi : Int) : Int := min (max x lo) hi

/-- Scales, shifts and scales once more. -/
def poly (x a b c : Int) : Int := mul (add (mul x a) b) c

/-- The words as decimal digits, the subject first. -/
def digits (x a b c d : Int) : Int := [x, a, b, c, d].foldl (fun n digit => add (mul n 10) digit) 0

end ParserKit.Word
