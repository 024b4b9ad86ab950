/-! Intervals of code points. A property of characters is the list of the intervals that have it, in
    increasing order. Such a list can have hundreds of intervals, so a code point is looked up in a balanced
    tree over it; the main statement is that the tree finds what the list holds. -/

namespace ParserKit.Text

structure CodeRange where
  first : Nat
  last : Nat

namespace CodeRange

def contains (r : CodeRange) (code : Nat) : Bool := r.first ≤ code && code ≤ r.last

theorem contains_iff {r : CodeRange} {code : Nat} :
    r.contains code = true ↔ r.first ≤ code ∧ code ≤ r.last := by
  simp only [contains, Bool.and_eq_true, decide_eq_true_eq]

/-! ### Increasing lists -/

/-- The intervals lie above `low`, and each above the one before it. -/
def increasingFrom (low : Nat) : List CodeRange → Bool
  | [] => true
  | r :: rs => low ≤ r.first && r.first ≤ r.last && increasingFrom (r.last + 1) rs

/-- The interval `r` has code points, and `s` lies above all of them. -/
def Below (r s : CodeRange) : Prop := r.first ≤ r.last ∧ r.last < s.first

theorem le_first_of_increasingFrom {low : Nat} {rs : List CodeRange} (h : increasingFrom low rs = true) :
    ∀ r ∈ rs, low ≤ r.first := by
  induction rs generalizing low with
  | nil => intro r hr; cases hr
  | cons s rs ih =>
    simp only [increasingFrom, Bool.and_eq_true, decide_eq_true_eq] at h
    obtain ⟨⟨hlow, hs⟩, hrs⟩ := h
    intro r hr
    rcases List.mem_cons.mp hr with rfl | hr
    · exact hlow
    · have := ih hrs r hr
      omega

theorem pairwise_of_increasingFrom {low : Nat} {rs : List CodeRange} (h : increasingFrom low rs = true) :
    rs.Pairwise Below := by
  induction rs generalizing low with
  | nil => exact .nil
  | cons s rs ih =>
    simp only [increasingFrom, Bool.and_eq_true, decide_eq_true_eq] at h
    exact .cons (fun r hr => ⟨h.1.2, le_first_of_increasingFrom h.2 r hr⟩) (ih h.2)

end CodeRange

/-! ### Trees -/

inductive CodeTree where
  | leaf
  | node (below : CodeTree) (r : CodeRange) (above : CodeTree)

namespace CodeTree

def toList : CodeTree → List CodeRange
  | leaf => []
  | node below r above => below.toList ++ r :: above.toList

def contains (code : Nat) : CodeTree → Bool
  | leaf => false
  | node below r above =>
    if code < r.first then below.contains code
    else if r.last < code then above.contains code
    else true

/-- A tree of the first `n` intervals of a list, half of them on either side, and the rest of the list. -/
def take (n : Nat) (rs : List CodeRange) : CodeTree × List CodeRange :=
  match n with
  | 0 => (leaf, rs)
  | n + 1 =>
    match take (n / 2) rs with
    | (below, []) => (below, [])
    | (below, r :: rest) => ((take (n - n / 2) rest).map (node below r ·) id)
termination_by n

def ofList (rs : List CodeRange) : CodeTree := (take rs.length rs).1

theorem toList_take (n : Nat) (rs : List CodeRange) : (take n rs).1.toList ++ (take n rs).2 = rs := by
  fun_induction take n rs with
  | case1 rs => rfl
  | case2 rs n below h ih => rw [h] at ih; exact ih
  | case3 rs n below r rest h ih₁ ih₂ =>
    rw [h] at ih₁
    simp only [Prod.map, id, toList, List.append_assoc, List.cons_append]
    rw [ih₂, ih₁]

theorem length_take (n : Nat) (rs : List CodeRange) : (take n rs).2.length = rs.length - n := by
  fun_induction take n rs with
  | case1 rs => rfl
  | case2 rs n below h ih =>
    rw [h] at ih
    simp only [List.length_nil] at ih ⊢
    omega
  | case3 rs n below r rest h ih₁ ih₂ =>
    rw [h] at ih₁
    simp only [List.length_cons] at ih₁
    simp only [Prod.map, id, ih₂]
    omega

@[simp] theorem toList_ofList (rs : List CodeRange) : (ofList rs).toList = rs := by
  have hnil : (take rs.length rs).2 = [] := by
    apply List.eq_nil_of_length_eq_zero
    rw [length_take, Nat.sub_self]
  have h := toList_take rs.length rs
  rwa [hnil, List.append_nil] at h

theorem contains_iff {t : CodeTree} {code : Nat} (h : t.toList.Pairwise CodeRange.Below) :
    t.contains code = true ↔ ∃ r ∈ t.toList, r.contains code = true := by
  induction t with
  | leaf => simp [contains, toList]
  | node below r above ihb iha =>
    simp only [toList, List.pairwise_append, List.pairwise_cons, List.mem_cons, CodeRange.Below] at h
    obtain ⟨hbelow, ⟨hr, habove⟩, hleft⟩ := h
    have hb := ihb hbelow
    have ha := iha habove
    simp only [CodeRange.contains_iff] at hb ha
    simp only [contains, toList, List.mem_append, List.mem_cons, CodeRange.contains_iff]
    split
    · rw [hb]
      constructor
      · rintro ⟨s, hs, hc⟩
        exact ⟨s, .inl hs, hc⟩
      · rintro ⟨s, hs | rfl | hs, hc⟩
        · exact ⟨s, hs, hc⟩
        · omega
        · have := hr s hs
          omega
    · split
      · rw [ha]
        constructor
        · rintro ⟨s, hs, hc⟩
          exact ⟨s, .inr (.inr hs), hc⟩
        · rintro ⟨s, hs | rfl | hs, hc⟩
          · have := hleft s hs r (.inl rfl)
            omega
          · omega
          · exact ⟨s, hs, hc⟩
      · exact ⟨fun _ => ⟨r, .inr (.inl rfl), by omega⟩, fun _ => rfl⟩

theorem contains_ofList {rs : List CodeRange} {code : Nat} (h : CodeRange.increasingFrom 0 rs = true) :
    (ofList rs).contains code = true ↔ ∃ r ∈ rs, r.contains code = true := by
  have hrs : (ofList rs).toList.Pairwise CodeRange.Below := by
    rw [toList_ofList]
    exact CodeRange.pairwise_of_increasingFrom h
  rw [contains_iff hrs, toList_ofList]

end CodeTree
end ParserKit.Text
