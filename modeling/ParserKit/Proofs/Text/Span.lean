/-! Runs of characters at the start of a text: the longest one of characters that pass a test, and what comes
    past it. -/

namespace ParserKit.Text

/-- The text does not start with a character that passes the test. -/
def Past (test : Char → Bool) (cs : List Char) : Prop := ∀ c, cs.head? = some c → test c = false

section
variable {test : Char → Bool} {c : Char} {cs u v w : List Char}

theorem past_nil : Past test [] := fun _ h => nomatch h

theorem past_cons : Past test (c :: cs) ↔ test c = false := by simp [Past]

theorem exists_cons_of_not_past (h : ¬ Past (· == c) cs) : ∃ u, cs = c :: u := by
  rcases cs with _ | ⟨d, u⟩
  · exact absurd past_nil h
  · have hd : d = c := by simpa [past_cons] using h
    exact ⟨u, hd ▸ rfl⟩

theorem past_dropWhile (test : Char → Bool) (cs : List Char) : Past test (cs.dropWhile test) := by
  intro c hc
  have h := List.head?_dropWhile_not test cs
  rw [hc] at h
  exact h

theorem of_mem_takeWhile (hc : c ∈ cs.takeWhile test) : test c = true := List.all_eq_true.mp List.all_takeWhile c hc

/-- Every text is a longest run, and what comes past it. -/
theorem exists_span (test : Char → Bool) (cs : List Char) :
    ∃ u v, cs = u ++ v ∧ (∀ c ∈ u, test c = true) ∧ Past test v :=
  ⟨cs.takeWhile test, cs.dropWhile test, List.takeWhile_append_dropWhile.symm, fun _ => of_mem_takeWhile,
    past_dropWhile test cs⟩

theorem takeWhile_append_of_past (hu : ∀ c ∈ u, test c = true) (hv : Past test v) : (u ++ v).takeWhile test = u := by
  have hnone : v.takeWhile test = [] := by
    rcases v with _ | ⟨c, v⟩
    · rfl
    · exact List.takeWhile_cons_of_neg (by simpa [past_cons] using hv)
  rw [List.takeWhile_append_of_pos hu, hnone, List.append_nil]

theorem length_le_of_past (hu : ∀ c ∈ u, test c = true) (hv : Past test v) (h : u <+: w ++ v) :
    u.length ≤ w.length := by
  obtain ⟨z, hz⟩ := h
  rcases List.append_eq_append_iff.mp hz with ⟨x, rfl, -⟩ | ⟨x, rfl, hx⟩
  · simp
  · rcases x with _ | ⟨c, x⟩
    · simp
    · have htrue := hu c (by simp)
      have hfalse := hv c (by simp [hx])
      rw [hfalse] at htrue
      cases htrue

end

/-! ### Spaces and digits -/

def Spaces (cs : List Char) : Prop := ∀ c ∈ cs, c = ' '

def Digits (cs : List Char) : Prop := ∀ c ∈ cs, c.isDigit = true

theorem spaces_nil : Spaces [] := fun _ h => nomatch h

theorem spaces_replicate (n : Nat) : Spaces (List.replicate n ' ') := fun _ hc => List.eq_of_mem_replicate hc

theorem spaces_cons {c : Char} {cs : List Char} : Spaces (c :: cs) ↔ c = ' ' ∧ Spaces cs := List.forall_mem_cons

theorem Spaces.append {a b : List Char} (ha : Spaces a) (hb : Spaces b) : Spaces (a ++ b) := by
  intro c hc
  rcases List.mem_append.mp hc with hc | hc
  · exact ha c hc
  · exact hb c hc

theorem Spaces.append_inj {a a' u u' : List Char} {c c' : Char} (ha : Spaces a) (ha' : Spaces a') (hc : c ≠ ' ')
    (hc' : c' ≠ ' ') (h : a ++ c :: u = a' ++ c' :: u') : a = a' ∧ c = c' ∧ u = u' := by
  induction a generalizing a' with
  | nil =>
    rcases a' with _ | ⟨x, a'⟩
    · simpa using h
    · obtain ⟨rfl, -⟩ := spaces_cons.mp ha'
      exact absurd (List.cons.inj h).1 hc
  | cons x a ih =>
    obtain ⟨rfl, hspaces⟩ := spaces_cons.mp ha
    rcases a' with _ | ⟨y, a'⟩
    · exact absurd (List.cons.inj h).1.symm hc'
    · obtain ⟨rfl, hspaces'⟩ := spaces_cons.mp ha'
      obtain ⟨rfl, rfl, rfl⟩ := ih hspaces hspaces' (List.cons.inj h).2
      exact ⟨rfl, rfl, rfl⟩

theorem Spaces.length_le {a u v : List Char} (hu : Spaces u) (hv : Past (· == ' ') v) (h : u <+: a ++ v) :
    u.length ≤ a.length := length_le_of_past (fun c hc => beq_iff_eq.mpr (hu c hc)) hv h

theorem exists_spaces (cs : List Char) : ∃ a v, cs = a ++ v ∧ Spaces a ∧ Past (· == ' ') v := by
  obtain ⟨a, v, hcs, ha, hv⟩ := exists_span (· == ' ') cs
  exact ⟨a, v, hcs, fun c hc => beq_iff_eq.mp (ha c hc), hv⟩

end ParserKit.Text
