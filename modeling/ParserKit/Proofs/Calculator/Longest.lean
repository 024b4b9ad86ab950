import ParserKit.Proofs.Calculator.Language

/-! The longest part at the start of a text. The calculator commits itself: it takes the longest operand, then
    the longest of what can follow, and never goes back. Nothing is lost in this way. A shorter operand leaves
    spaces before the sign that the longer one has taken, or else the sign would be inside the longer one, where
    it is foreign. -/

namespace ParserKit.Calculator
open Text

/-- `w` is the longest text of the part at the start of `cs`, and stands for `n`. -/
structure Longest (p : Part) (cs w : List Char) (n : Nat) : Prop where
  starts : w <+: cs
  denotes : Denotes p w n
  longest : ∀ {w'}, w' <+: cs → Forms p w' → w'.length ≤ w.length

def Nowhere (p : Part) (cs : List Char) : Prop := ∀ w, w <+: cs → ¬ Forms p w

section
variable {op : Operator} {a b cs v w x : List Char} {m n : Nat}

/-! ### Lists of operands -/

theorem Longest.list (h : Longest (.operand op) (w ++ cs) w m) (ht : Longest (.more op) cs x n) :
    Longest (.list op) (w ++ cs) (w ++ x) (op.apply m n) := by
  refine ⟨(List.prefix_append_right_inj w).mpr ht.starts, .list h.denotes ht.denotes, fun hw hforms => ?_⟩
  obtain ⟨first, rest, hfirst, hrest, rfl⟩ := forms_list_iff.mp hforms
  -- the operand `first` lies in `w`, and is followed by `y` there
  have hfirstw : first <+: w ++ cs := (List.prefix_append first rest).trans hw
  obtain ⟨y, rfl⟩ := List.prefix_of_prefix_length_le hfirstw (List.prefix_append w cs) (h.longest hfirstw hfirst)
  obtain ⟨z, hz⟩ := hw
  have hz : rest ++ z = y ++ cs := by simpa [List.append_assoc] using hz
  rcases forms_more_iff.mp hrest with rfl | ⟨before, after, inside, hbefore, hafter, hinside, rfl⟩
  · simp
  · rw [List.append_assoc] at hz
    rcases List.append_eq_append_iff.mp hz with ⟨s, rfl, hs⟩ | ⟨s, rfl, hs⟩
    · rcases s with _ | ⟨c, s⟩
      · -- the operand ends where the spaces end
        have hforms := forms_more_iff.mpr (Or.inr ⟨[], after, inside, spaces_nil, hafter, hinside, rfl⟩)
        have hmore := ht.longest ⟨z, hs⟩ hforms
        simp only [List.length_append, List.length_nil] at hmore ⊢
        omega
      · -- the sign would be inside the operand
        obtain ⟨rfl, -⟩ := List.cons.inj hs
        obtain ⟨k, hfirst⟩ := hfirst
        have hshort := hfirst.append_spaces (hfirst.ne_nil (Part.solid_operand op)) hbefore
        have hlong : Denotes (.operand op) ((first ++ before) ++ op.sign :: s) m := by
          simpa [List.append_assoc] using h.denotes
        have hforeign := (hshort.not_followed hlong).2
        rw [Part.foreign_operand] at hforeign
        cases hforeign
    · -- the operand ends among the spaces
      have hspaces : Spaces s := fun c hc => hbefore c (List.mem_append_right y hc)
      have hforms := forms_more_iff.mpr (Or.inr ⟨s, after, inside, hspaces, hafter, hinside, rfl⟩)
      have hmore := ht.longest ⟨z, by rw [List.append_assoc, ← hs]⟩ hforms
      simp only [List.length_append] at hmore ⊢
      omega

theorem Nowhere.list (h : Nowhere (.operand op) cs) : Nowhere (.list op) cs := by
  intro w hw hforms
  obtain ⟨first, rest, hfirst, -, rfl⟩ := forms_list_iff.mp hforms
  exact h first ((List.prefix_append first rest).trans hw) hfirst

/-! ### What follows an operand -/

theorem longest_more_nil (h : ∀ {w}, w <+: cs → Forms (.more op) w → w = []) : Longest (.more op) cs [] op.unit :=
  ⟨List.nil_prefix, .nil, fun hw hforms => by simp [h hw hforms]⟩

/-- What follows the first sign of a text, if the text can go on with this sign. -/
theorem prefix_of_sign (ha : Spaces a) (hb : Spaces b) (hw : w <+: a ++ op.sign :: (b ++ v))
    (hforms : Forms (.more op) w) : w = [] ∨ ∃ y, w = a ++ op.sign :: (b ++ y) ∧ y <+: v ∧ Forms (.list op) y := by
  rcases forms_more_iff.mp hforms with rfl | ⟨before, after, inside, hbefore, hafter, ⟨n, hinside⟩, rfl⟩
  · exact Or.inl rfl
  · have hsign : op.sign ≠ ' ' := by cases op <;> decide
    obtain ⟨z, hz⟩ := hw
    rw [List.append_assoc, List.cons_append] at hz
    obtain ⟨rfl, -, hz⟩ := hbefore.append_inj ha hsign hsign hz
    have hlist : Denotes (.list op) (after ++ inside) n := hinside.spaces_append hafter trivial
    obtain ⟨y, hy, hyv, hdenotes⟩ := hlist.exists_of_spaces_append hb trivial ⟨z, hz⟩
    exact Or.inr ⟨y, by rw [hy], hyv, n, hdenotes⟩

theorem Longest.more (h : Longest (.list op) v x n) (ha : Spaces a) (hb : Spaces b) :
    Longest (.more op) (a ++ op.sign :: (b ++ v)) (a ++ op.sign :: (b ++ x)) n := by
  obtain ⟨z, rfl⟩ := h.starts
  refine ⟨⟨z, by simp [List.append_assoc]⟩, h.denotes.more ha hb, fun hw hforms => ?_⟩
  rcases prefix_of_sign ha hb hw hforms with rfl | ⟨y, rfl, hy, hlist⟩
  · exact Nat.zero_le _
  · have hle := h.longest hy hlist
    simp only [List.length_append, List.length_cons]
    omega

theorem Nowhere.more (h : Nowhere (.list op) v) (ha : Spaces a) (hb : Spaces b) :
    Longest (.more op) (a ++ op.sign :: (b ++ v)) [] op.unit := by
  refine longest_more_nil fun hw hforms => ?_
  rcases prefix_of_sign ha hb hw hforms with rfl | ⟨y, -, hy, hlist⟩
  · rfl
  · exact absurd hlist (h y hy)

theorem longest_more_of_past (ha : Spaces a) (hspaces : Past (· == ' ') v) (hsign : Past (· == op.sign) v) :
    Longest (.more op) (a ++ v) [] op.unit := by
  refine longest_more_nil fun hw hforms => ?_
  rcases forms_more_iff.mp hforms with rfl | ⟨before, after, inside, hbefore, -, -, rfl⟩
  · rfl
  · obtain ⟨z, hz⟩ := hw
    have hne : op.sign ≠ ' ' := by cases op <;> decide
    rcases v with _ | ⟨c, v⟩
    · have hmem : op.sign ∈ a := by
        rw [List.append_nil] at hz
        simp [← hz]
      exact absurd (ha _ hmem) hne
    · have hc : c ≠ ' ' := by simpa using past_cons.mp hspaces
      rw [List.append_assoc, List.cons_append] at hz
      obtain ⟨-, rfl, -⟩ := hbefore.append_inj ha hne hc hz
      simp [Past] at hsign

/-! ### Factors -/

theorem factor_of_spaces {c : Char} (ha : Spaces a) (hc : c ≠ ' ') (hw : w <+: a ++ c :: v)
    (hforms : Forms .factor w) :
    (∃ digits after, w = a ++ (digits ++ after) ∧ digits ++ after <+: c :: v ∧ Digits digits ∧ digits ≠ [] ∧
      Spaces after ∧ c.isDigit = true) ∨
    ∃ inside after, w = a ++ '(' :: (inside ++ ')' :: after) ∧ inside ++ ')' :: after <+: v ∧ Forms .expr inside ∧
      Spaces after ∧ c = '(' := by
  obtain ⟨z, hz⟩ := hw
  rcases forms_factor_iff.mp hforms with
    ⟨before, digits, after, hbefore, hdigits, hne, hafter, rfl⟩ |
    ⟨before, inside, after, hbefore, hinside, hafter, rfl⟩
  · rcases digits with _ | ⟨d, digits⟩
    · exact absurd rfl hne
    · have hd : d.isDigit = true := hdigits d List.mem_cons_self
      have hspace : d ≠ ' ' := by
        rintro rfl
        exact absurd hd (by decide)
      simp only [List.append_assoc, List.cons_append] at hz
      obtain ⟨rfl, rfl, rfl⟩ := hbefore.append_inj ha hspace hc hz
      exact Or.inl ⟨_, after, rfl, ⟨z, by simp⟩, hdigits, hne, hafter, hd⟩
  · simp only [List.append_assoc, List.cons_append] at hz
    obtain ⟨rfl, rfl, rfl⟩ := hbefore.append_inj ha (by decide) hc hz
    exact Or.inr ⟨inside, after, rfl, ⟨z, by simp⟩, hinside, hafter, rfl⟩

theorem longest_number {ds : List Char} (ha : Spaces a) (hds : Digits ds) (hne : ds ≠ []) (hb : Spaces b)
    (hdigits : Past Char.isDigit (b ++ v)) (hspaces : Past (· == ' ') v) :
    Longest .factor (a ++ (ds ++ (b ++ v))) (a ++ (ds ++ b)) (Nat.ofDigitChars 10 ds 0) := by
  refine ⟨⟨v, by simp⟩, .number ha hds hne hb, fun hw hforms => ?_⟩
  obtain ⟨d, ds', rfl⟩ := List.exists_cons_of_ne_nil hne
  have hd : d.isDigit = true := hds d List.mem_cons_self
  have hspace : d ≠ ' ' := by
    rintro rfl
    exact absurd hd (by decide)
  rcases factor_of_spaces ha hspace hw hforms with
    ⟨digits, after, rfl, hstart, hdigits', -, hafter, -⟩ | ⟨_, _, _, _, _, _, rfl⟩
  · have hstart : digits ++ after <+: (d :: ds') ++ (b ++ v) := hstart
    have hrun := (List.prefix_append digits after).trans hstart
    obtain ⟨y, hy⟩ := List.prefix_of_prefix_length_le hrun (List.prefix_append (d :: ds') (b ++ v))
      (length_le_of_past hdigits' hdigits hrun)
    rw [← hy] at hds hstart ⊢
    have hstart : after <+: y ++ (b ++ v) := by
      rw [List.append_assoc] at hstart
      exact (List.prefix_append_right_inj digits).mp hstart
    rcases y with _ | ⟨c, y⟩
    · -- all digits are taken
      have hspaces := hafter.length_le hspaces hstart
      simp only [List.length_append, List.append_nil]
      omega
    · -- a digit follows, and so no spaces
      rcases after with _ | ⟨x, after⟩
      · simp only [List.length_append, List.length_nil]
        omega
      · obtain ⟨rfl, -⟩ := List.cons_prefix_cons.mp hstart
        obtain rfl := hafter x List.mem_cons_self
        exact absurd (hds ' ' (by simp)) (by decide)
  · exact absurd hd (by decide)

/-- Only the longest expression can be closed. A shorter one would be followed by a parenthesis that the longest
    one has taken. -/
theorem Longest.closed_eq (h : Longest .expr cs w n) {inside after : List Char} (hinside : Forms .expr inside)
    (hstart : inside ++ ')' :: after <+: cs) : inside = w := by
  have hinsidecs := (List.prefix_append inside (')' :: after)).trans hstart
  obtain ⟨y, rfl⟩ := List.prefix_of_prefix_length_le hinsidecs h.starts (h.longest hinsidecs hinside)
  rcases y with _ | ⟨c, y⟩
  · simp
  · have hc : c = ')' := by
      obtain ⟨z, rfl⟩ := h.starts
      rw [List.append_assoc] at hstart
      have hclose := (List.prefix_append_right_inj inside).mp hstart
      exact (List.cons_prefix_cons.mp hclose).1.symm
    obtain ⟨k, hinside⟩ := hinside
    exact absurd hc (hinside.not_followed h.denotes).1

/-- The longest expression between parentheses, if it is closed, and all spaces after it. -/
theorem Longest.group (h : Longest .expr (w ++ ')' :: (b ++ v)) w n) (ha : Spaces a) (hb : Spaces b)
    (hspaces : Past (· == ' ') v) :
    Longest .factor (a ++ '(' :: (w ++ ')' :: (b ++ v))) (a ++ '(' :: (w ++ ')' :: b)) n := by
  refine ⟨⟨v, by simp⟩, .group ha h.denotes hb, fun hw hforms => ?_⟩
  rcases factor_of_spaces ha (by decide) hw hforms with
    ⟨_, _, _, _, _, _, _, hdigit⟩ | ⟨inside, after, rfl, hstart, hinside, hafter, -⟩
  · exact absurd hdigit (by decide)
  · obtain rfl := h.closed_eq hinside hstart
    have hstart := (List.prefix_append_right_inj inside).mp hstart
    have hle := hafter.length_le hspaces (List.cons_prefix_cons.mp hstart).2
    simp only [List.length_append, List.length_cons]
    omega

theorem Nowhere.group (h : Nowhere .expr v) (ha : Spaces a) : Nowhere .factor (a ++ '(' :: v) := by
  intro w hw hforms
  rcases factor_of_spaces ha (by decide) hw hforms with
    ⟨_, _, _, _, _, _, _, hdigit⟩ | ⟨inside, after, rfl, hstart, hinside, -, -⟩
  · exact absurd hdigit (by decide)
  · exact h inside ((List.prefix_append inside (')' :: after)).trans hstart) hinside

/-- An expression that is not closed is no factor, and neither is any shorter one. -/
theorem Longest.nowhere_group (h : Longest .expr (w ++ v) w n) (hclose : Past (· == ')') v) (ha : Spaces a) :
    Nowhere .factor (a ++ '(' :: (w ++ v)) := by
  intro w' hw hforms
  rcases factor_of_spaces ha (by decide) hw hforms with
    ⟨_, _, _, _, _, _, _, hdigit⟩ | ⟨inside, after, rfl, hstart, hinside, -, -⟩
  · exact absurd hdigit (by decide)
  · obtain rfl := h.closed_eq hinside hstart
    obtain ⟨z, hz⟩ := (List.prefix_append_right_inj inside).mp hstart
    simp [← hz, Past] at hclose

theorem nowhere_factor (ha : Spaces a) (hspaces : Past (· == ' ') v) (hopen : Past (· == '(') v)
    (hdigits : Past Char.isDigit v) : Nowhere .factor (a ++ v) := by
  intro w hw hforms
  rcases v with _ | ⟨c, v⟩
  · obtain ⟨n, h⟩ := hforms
    obtain ⟨y, -, hy, hdenotes⟩ := h.exists_of_spaces_append ha trivial hw
    exact absurd (List.prefix_nil.mp hy) (hdenotes.ne_nil trivial)
  · have hc : c ≠ ' ' := by simpa using past_cons.mp hspaces
    rcases factor_of_spaces ha hc hw hforms with ⟨_, _, _, _, _, _, _, hdigit⟩ | ⟨_, _, _, _, _, _, rfl⟩
    · rw [past_cons.mp hdigits] at hdigit
      cases hdigit
    · simp [Past] at hopen

end

end ParserKit.Calculator
