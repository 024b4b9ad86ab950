import ParserKit.Proofs.Calculator.Language

/-! The number that a text stands for, in one pass over its characters. A tally sets aside what is open at each
    parenthesis, and keeps the sum of the terms before, the product of the factors before and the number at
    hand. It does not care where spaces belong, so a text stands for one number only, however it is divided
    into parts. -/

namespace ParserKit.Calculator
open Text

structure Tally where
  outer : List (Nat × Nat)
  sum : Nat
  product : Nat
  number : Nat

namespace Tally

def start : Tally := ⟨[], 0, 1, 0⟩

def total (t : Tally) : Nat := t.sum + t.product * t.number

def step (t : Tally) (c : Char) : Tally :=
  if c = '+' then { t with sum := t.total, product := 1, number := 0 }
  else if c = '*' then { t with product := t.product * t.number, number := 0 }
  else if c = '(' then ⟨(t.sum, t.product) :: t.outer, 0, 1, 0⟩
  else if c = ')' then
    match t.outer with
    | [] => t
    | (sum, product) :: outer => ⟨outer, sum, product, t.total⟩
  else if c.isDigit then { t with number := 10 * t.number + (c.toNat - '0'.toNat) }
  else t

/-! ### Single characters -/

section
variable {t : Tally} {cs : List Char}

theorem foldl_spaces (h : Spaces cs) (t : Tally) : cs.foldl step t = t := by
  induction cs with
  | nil => rfl
  | cons c cs ih =>
    obtain ⟨rfl, hspaces⟩ := spaces_cons.mp h
    exact ih hspaces

theorem step_digit {c : Char} (hc : c.isDigit = true) (t : Tally) :
    t.step c = { t with number := 10 * t.number + (c.toNat - '0'.toNat) } := by
  have hne : c ≠ '+' ∧ c ≠ '*' ∧ c ≠ '(' ∧ c ≠ ')' := by
    refine ⟨?_, ?_, ?_, ?_⟩ <;> rintro rfl <;> exact absurd hc (by decide)
  simp [step, hne, hc]

theorem foldl_digits (h : Digits cs) (t : Tally) :
    cs.foldl step t = { t with number := Nat.ofDigitChars 10 cs t.number } := by
  induction cs generalizing t with
  | nil => rfl
  | cons c cs ih =>
    obtain ⟨hc, hcs⟩ := List.forall_mem_cons.mp h
    rw [List.foldl_cons, step_digit hc, ih hcs, Nat.ofDigitChars_cons]

@[simp] theorem step_open (t : Tally) : t.step '(' = ⟨(t.sum, t.product) :: t.outer, 0, 1, 0⟩ := by simp [step]

theorem step_close {s p : Nat} {outer : List (Nat × Nat)} (h : t.outer = (s, p) :: outer) :
    t.step ')' = ⟨outer, s, p, t.total⟩ := by simp [step, h]

end

/-! ### Parts -/

/-- What the operands of an operator have come to so far. -/
def pending : Operator → Tally → Nat
  | .add, t => t.total
  | .mul, t => t.product * t.number

/-- What they had come to before the number at hand. -/
def before : Operator → Tally → Nat
  | .add, t => t.sum
  | .mul, t => t.product

/-- The operands of `op` change nothing outside of their list. -/
def Kept (op : Operator) (t t' : Tally) : Prop := t'.outer = t.outer ∧ (op = .mul → t'.sum = t.sum)

def Ready : Part → Tally → Prop
  | .list .add, t => t.number = 0 ∧ t.product = 1
  | .list .mul, t | .factor, t => t.number = 0
  | .more _, _ => True

/-- What a part that stands for `n` does to a tally. -/
def Counts (n : Nat) : Part → Tally → Tally → Prop
  | .factor, t, t' => t' = { t with number := n }
  | .list op, t, t' => Kept op t t' ∧ pending op t' = op.apply (before op t) n
  | .more op, t, t' => Kept op t t' ∧ pending op t' = op.apply (pending op t) n

section
variable {op : Operator} {t t' t'' : Tally} {n : Nat}

theorem Kept.trans (h : Kept op t t') (h' : Kept op t' t'') : Kept op t t'' :=
  ⟨h'.1.trans h.1, fun hop => (h'.2 hop).trans (h.2 hop)⟩

theorem Ready.operand (h : Ready (.list op) t) : Ready (.operand op) t := by
  cases op
  · exact h.1
  · exact h

theorem Counts.operand (ht : Ready (.list op) t) (h : Counts n (.operand op) t t') :
    Kept op t t' ∧ pending op t' = op.apply (before op t) n := by
  cases op with
  | add =>
    obtain ⟨⟨houter, hsum⟩, hpending⟩ := h
    refine ⟨⟨houter, fun hop => nomatch hop⟩, ?_⟩
    have hproduct : t'.product * t'.number = t.product * n := hpending
    show t'.sum + t'.product * t'.number = t.sum + n
    rw [hsum rfl, hproduct, ht.2, Nat.one_mul]
  | mul =>
    obtain rfl : t' = { t with number := n } := h
    exact ⟨⟨rfl, fun _ => rfl⟩, rfl⟩

theorem ready_step_sign (op : Operator) (t : Tally) : Ready (.list op) (t.step op.sign) := by
  cases op
  · exact ⟨rfl, rfl⟩
  · rfl

theorem kept_step_sign (op : Operator) (t : Tally) : Kept op t (t.step op.sign) := by
  cases op
  · exact ⟨rfl, fun hop => nomatch hop⟩
  · exact ⟨rfl, fun _ => rfl⟩

theorem before_step_sign (op : Operator) (t : Tally) : before op (t.step op.sign) = pending op t := by
  cases op <;> rfl

end

/-- Every part is counted as what it stands for, wherever it can start. -/
theorem counts_of_denotes {p : Part} {w : List Char} {n : Nat} (h : Denotes p w n) {t : Tally} (ht : Ready p t) :
    Counts n p t (w.foldl step t) := by
  induction h generalizing t with
  | @number before digits after hbefore hdigits _ hafter =>
    have hnumber : t.number = 0 := ht
    simp only [List.foldl_append, foldl_spaces hbefore, foldl_digits hdigits, foldl_spaces hafter, hnumber]
    rfl
  | @group before inside after n hbefore _ hafter ih =>
    have hready : Ready .expr (t.step '(') := by rw [step_open]; exact ⟨rfl, rfl⟩
    obtain ⟨⟨houter, -⟩, hpending⟩ := ih hready
    rw [step_open] at houter hpending
    have htotal : (inside.foldl step (t.step '(')).total = n := by
      rw [step_open]
      exact hpending.trans (Nat.zero_add n)
    simp only [List.foldl_append, List.foldl_cons, foldl_spaces hbefore, foldl_spaces hafter]
    rw [step_close (by rw [step_open]; exact houter), htotal]
    rfl
  | @list op first rest m n _ _ ihfirst ihrest =>
    obtain ⟨hkept, hpending⟩ := (ihfirst ht.operand).operand ht
    obtain ⟨hkept', hpending'⟩ := ihrest (t := first.foldl step t) trivial
    rw [List.foldl_append]
    refine ⟨hkept.trans hkept', ?_⟩
    rw [hpending', hpending, op.apply_assoc]
  | @nil op => exact ⟨⟨rfl, fun _ => rfl⟩, (op.apply_unit _).symm⟩
  | @cons op blanks after next rest m n hblanks hafter _ _ ihnext ihrest =>
    have hready := ready_step_sign op t
    obtain ⟨hkept, hpending⟩ := (ihnext hready.operand).operand hready
    obtain ⟨hkept', hpending'⟩ := ihrest (t := next.foldl step (t.step op.sign)) trivial
    simp only [List.foldl_append, List.foldl_cons, foldl_spaces hblanks, foldl_spaces hafter]
    refine ⟨((kept_step_sign op t).trans hkept).trans hkept', ?_⟩
    rw [hpending', hpending, before_step_sign, op.apply_assoc]

end Tally

/-- The number that a text stands for, if it stands for one. -/
def valueOf (w : List Char) : Nat := (w.foldl Tally.step Tally.start).total

theorem Denotes.eq_valueOf {p : Part} {w : List Char} {n : Nat} (h : Denotes p w n) (hp : p.Solid) :
    n = valueOf w := by
  have hcounts : ∀ {p}, Denotes p w n → Tally.Ready p .start →
      Tally.Counts n p .start (w.foldl Tally.step .start) := fun h ht => Tally.counts_of_denotes h ht
  match p, h with
  | .factor, h =>
    have hfinal : w.foldl Tally.step .start = ⟨[], 0, 1, n⟩ := hcounts h rfl
    rw [valueOf, hfinal]
    simp [Tally.total]
  | .list .mul, h =>
    obtain ⟨⟨-, hsum⟩, hpending⟩ := hcounts h rfl
    have hproduct : (w.foldl Tally.step .start).product * (w.foldl Tally.step .start).number = 1 * n := hpending
    rw [valueOf, Tally.total, hsum rfl, hproduct]
    simp [Tally.start]
  | .list .add, h =>
    obtain ⟨-, hpending⟩ := hcounts h ⟨rfl, rfl⟩
    exact (hpending.trans (Nat.zero_add n)).symm
  | .more _, _ => exact hp.elim

theorem Denotes.unique {p : Part} {w : List Char} {m n : Nat} (h : Denotes p w m) (h' : Denotes p w n)
    (hp : p.Solid) : m = n := (h.eq_valueOf hp).trans (h'.eq_valueOf hp).symm

example : valueOf "2 *(1+ 03)+4".toList = 12 := by decide

end ParserKit.Calculator
