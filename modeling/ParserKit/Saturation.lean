/-! Bounded integers. A range names the least and the greatest integer that a word can hold; an operation
    in a range computes the exact result and then moves it to the nearest bound if it lies outside. -/

namespace ParserKit

structure Range where
  least : Int
  greatest : Int
  ordered : least ≤ greatest

namespace Range

def unsigned64 : Range := ⟨0, Int.pow 2 64 - 1, by decide⟩

def signed64 : Range := ⟨-Int.pow 2 63, Int.pow 2 63 - 1, by decide⟩

def signed128 : Range := ⟨-Int.pow 2 127, Int.pow 2 127 - 1, by decide⟩

/-- The integer of the range nearest to `n`. -/
def clamp (r : Range) (n : Int) : Int := max r.least (min n r.greatest)

def Contains (r : Range) (n : Int) : Prop := r.least ≤ n ∧ n ≤ r.greatest

/-! ### Operations -/

def add (r : Range) (a b : Int) : Int := r.clamp (a + b)

def sub (r : Range) (a b : Int) : Int := r.clamp (a - b)

def mul (r : Range) (a b : Int) : Int := r.clamp (a * b)

def neg (r : Range) (a : Int) : Int := r.clamp (-a)

/-! ### What the nearest integer is -/

theorem contains_clamp (r : Range) (n : Int) : r.Contains (r.clamp n) := by
  have := r.ordered
  unfold Contains clamp
  omega

theorem clamp_of_contains {r : Range} {n : Int} (h : r.Contains n) : r.clamp n = n := by
  unfold Contains at h
  unfold clamp
  omega

end Range
end ParserKit
