import ParserKit.Saturation

/-! Saturating late. On natural numbers it makes no difference when results are moved to the nearest bound:
    after each operation, or once at the end. A factor of zero does no harm, since what it takes away was at
    the bound or below it in either case. -/

namespace ParserKit.Range

section
variable {r r' : Range}

theorem clamp_natCast (hr : r.Contains 0) (n : Nat) : r.clamp n = min (n : Int) r.greatest := by
  obtain ⟨hleast, hgreatest⟩ := hr
  rw [clamp]
  omega

theorem clamp_natCast_of_le (hr : r.Contains 0) {n : Nat} (hn : (n : Int) ≤ r.greatest) : r.clamp n = n :=
  clamp_of_contains ⟨Int.le_trans hr.1 (Int.natCast_nonneg n), hn⟩

theorem clamp_natCast_of_ge (hr : r.Contains 0) {n : Nat} (hn : r.greatest ≤ (n : Int)) : r.clamp n = r.greatest := by
  rw [clamp_natCast hr]
  omega

theorem add_clamp (hr : r.Contains 0) (m n : Nat) : r.add (r.clamp m) (r.clamp n) = r.clamp (m + n : Nat) := by
  obtain ⟨hleast, hgreatest⟩ := hr
  simp only [add, clamp]
  omega

theorem mul_clamp (hr : r.Contains 0) (m n : Nat) : r.mul (r.clamp m) (r.clamp n) = r.clamp (m * n : Nat) := by
  -- with a factor at the bound, the product is at the bound as well, unless the other factor is zero
  have key : ∀ {m n : Nat}, r.greatest ≤ m → r.mul (r.clamp m) (r.clamp n) = r.clamp (m * n : Nat) := by
    intro m n hm
    rcases Nat.eq_zero_or_pos n with rfl | hn
    · have hzero : r.clamp ((0 : Nat) : Int) = 0 := clamp_natCast_of_le hr hr.2
      rw [mul, Nat.mul_zero, hzero, Int.mul_zero]
      exact hzero
    · have hmn : r.greatest ≤ (m * n : Nat) := by
        have hle : m ≤ m * n := Nat.le_mul_of_pos_right m hn
        omega
      have hpos : r.greatest ≤ r.greatest * r.clamp n := by
        rcases Int.lt_or_eq_of_le hr.2 with hgreatest | hgreatest
        · have hone : 1 ≤ r.clamp n := by
            rw [clamp_natCast hr]
            omega
          have hle := Int.mul_le_mul_of_nonneg_left hone hr.2
          rwa [Int.mul_one] at hle
        · simp [← hgreatest]
      have hcast : ((r.greatest * r.clamp n).toNat : Int) = r.greatest * r.clamp n :=
        Int.toNat_of_nonneg (Int.le_trans hr.2 hpos)
      rw [mul, clamp_natCast_of_ge hr hm, clamp_natCast_of_ge hr hmn, ← hcast]
      exact clamp_natCast_of_ge hr (by rw [hcast]; exact hpos)
  rcases Int.le_total r.greatest m with hm | hm
  · exact key hm
  · rcases Int.le_total r.greatest n with hn | hn
    · have hcomm : r.mul (r.clamp m) (r.clamp n) = r.mul (r.clamp n) (r.clamp m) := by rw [mul, mul, Int.mul_comm]
      rw [hcomm, key hn, Nat.mul_comm]
    · rw [mul, clamp_natCast_of_le hr hm, clamp_natCast_of_le hr hn, Int.natCast_mul]

theorem clamp_clamp_of_le (hr : r.Contains 0) (hr' : r'.Contains 0) (hle : r.greatest ≤ r'.greatest) (n : Nat) :
    r.clamp (r'.clamp n) = r.clamp n := by
  have hleast := hr.1
  rw [clamp_natCast hr', clamp, clamp]
  omega

end

theorem contains_zero_unsigned64 : unsigned64.Contains 0 := ⟨by decide, by decide⟩

theorem contains_zero_signed64 : signed64.Contains 0 := ⟨by decide, by decide⟩

end ParserKit.Range
