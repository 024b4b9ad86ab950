/-! Characters counted in bytes. A character takes up one to four bytes, and only the places between two
    characters can be reached by skipping bytes. -/

namespace ParserKit.Text

def byteLength : List Char → Nat
  | [] => 0
  | c :: cs => c.utf8Size + byteLength cs

/-- The characters after the first `bytes` bytes, unless that is past the end or inside a character. -/
def dropBytes : Nat → List Char → Option (List Char)
  | 0, cs => some cs
  | _ + 1, [] => none
  | n + 1, c :: cs => if c.utf8Size ≤ n + 1 then dropBytes (n + 1 - c.utf8Size) cs else none
termination_by structural _ cs => cs

/-! ### Lengths -/

@[simp] theorem byteLength_append (as bs : List Char) :
    byteLength (as ++ bs) = byteLength as + byteLength bs := by
  induction as with
  | nil => simp [byteLength]
  | cons a as ih => simp [byteLength, ih, Nat.add_assoc]

theorem length_le_byteLength (cs : List Char) : cs.length ≤ byteLength cs := by
  induction cs with
  | nil => simp [byteLength]
  | cons c cs ih =>
    have := c.utf8Size_pos
    simp only [List.length_cons, byteLength]
    omega

theorem byteLength_eq_zero_iff {cs : List Char} : byteLength cs = 0 ↔ cs = [] := by
  constructor
  · intro h
    have := length_le_byteLength cs
    exact List.eq_nil_of_length_eq_zero (by omega)
  · rintro rfl
    rfl

/-! ### Skipping -/

@[simp] theorem dropBytes_zero (cs : List Char) : dropBytes 0 cs = some cs := by cases cs <;> rfl

/-- Skipping the bytes of some characters is skipping these characters. -/
theorem dropBytes_byteLength_add (as bs : List Char) (n : Nat) :
    dropBytes (byteLength as + n) (as ++ bs) = dropBytes n bs := by
  induction as with
  | nil => rw [byteLength, Nat.zero_add, List.nil_append]
  | cons a as ih =>
    have ha := a.utf8Size_pos
    obtain ⟨m, hm⟩ : ∃ m, byteLength (a :: as) + n = m + 1 :=
      ⟨a.utf8Size + byteLength as - 1 + n, by simp only [byteLength]; omega⟩
    rw [hm, List.cons_append, dropBytes]
    have hb : a.utf8Size + byteLength as + n = m + 1 := hm
    rw [if_pos (by omega), show m + 1 - a.utf8Size = byteLength as + n by omega, ih]

theorem dropBytes_byteLength_append (as bs : List Char) : dropBytes (byteLength as) (as ++ bs) = some bs := by
  simpa using dropBytes_byteLength_add as bs 0

/-- What can be skipped is a run of whole characters. -/
theorem eq_append_of_dropBytes {n : Nat} {cs rest : List Char} (h : dropBytes n cs = some rest) :
    ∃ before, cs = before ++ rest ∧ n = byteLength before := by
  induction cs generalizing n with
  | nil =>
    cases n with
    | zero => exact ⟨[], by simpa [dropBytes] using h, rfl⟩
    | succ n => simp [dropBytes] at h
  | cons c cs ih =>
    cases n with
    | zero => exact ⟨[], by simpa [dropBytes] using h, rfl⟩
    | succ n =>
      rw [dropBytes] at h
      split at h
      · next hc =>
        obtain ⟨before, rfl, hb⟩ := ih h
        exact ⟨c :: before, rfl, by simp only [byteLength]; omega⟩
      · simp at h

/-! ### Nowhere to skip to -/

/-- The first `bytes` bytes end inside a character. -/
def EndsInside (bytes : Nat) (cs : List Char) : Prop :=
  ∃ before c after, cs = before ++ c :: after ∧ byteLength before < bytes ∧ bytes < byteLength before + c.utf8Size

theorem EndsInside.cons {n : Nat} {cs : List Char} (c : Char) (h : EndsInside n cs) :
    EndsInside (c.utf8Size + n) (c :: cs) := by
  obtain ⟨before, d, after, rfl, hlo, hhi⟩ := h
  exact ⟨c :: before, d, after, rfl, by rw [byteLength]; omega, by rw [byteLength]; omega⟩

end ParserKit.Text
