import ParserKit.View

/-! Views after some characters. Whatever a parser does to a view amounts to leaving out a number of
    characters (`View.drop`), so "later" is the order in which runs move. A valid view stays valid when
    characters are left out, and it never reaches past the end of its text. -/

namespace ParserKit

namespace Text

theorem byteLength_toList (s : String) : byteLength s.toList = s.utf8ByteSize := by
  have key : ∀ cs : List Char, (String.ofList cs).utf8ByteSize = byteLength cs := by
    intro cs
    induction cs with
    | nil => rfl
    | cons c cs ih =>
      rw [← List.singleton_append, String.ofList_append, String.utf8ByteSize_append, ih]
      simp [byteLength]
  rw [← key, String.ofList_toList]

theorem byteLength_take_add_drop (n : Nat) (cs : List Char) :
    byteLength (cs.take n) + byteLength (cs.drop n) = byteLength cs := by
  rw [← byteLength_append, List.take_append_drop]

theorem byteLength_drop_lt_iff {n : Nat} {cs : List Char} :
    byteLength (cs.drop n) < byteLength cs ↔ 0 < n ∧ cs ≠ [] := by
  have hsum := byteLength_take_add_drop n cs
  have htake : byteLength (cs.take n) = 0 ↔ n = 0 ∨ cs = [] := by
    rw [byteLength_eq_zero_iff, List.take_eq_nil_iff]
  constructor
  · intro h
    have : ¬(n = 0 ∨ cs = []) := fun h0 => by
      have := htake.mpr h0
      omega
    simp only [not_or] at this
    exact ⟨Nat.pos_of_ne_zero this.1, this.2⟩
  · rintro ⟨hn, hcs⟩
    have : byteLength (cs.take n) ≠ 0 := fun h0 => by
      rcases htake.mp h0 with h0 | h0
      · omega
      · exact hcs h0
    omega

end Text

namespace View
open Text
variable {i j k : View}

/-! ### Leaving out characters -/

/-- The view `n` characters later, or at the end of the text if there are not so many. -/
def drop (i : View) (n : Nat) : View := ⟨i.buffer, i.offset + byteLength (i.rest.take n), i.rest.drop n⟩

@[simp] theorem drop_buffer (i : View) (n : Nat) : (i.drop n).buffer = i.buffer := rfl

@[simp] theorem drop_offset (i : View) (n : Nat) : (i.drop n).offset = i.offset + byteLength (i.rest.take n) := rfl

@[simp] theorem drop_rest (i : View) (n : Nat) : (i.drop n).rest = i.rest.drop n := rfl

@[simp] theorem drop_zero (i : View) : i.drop 0 = i := rfl

@[simp] theorem drop_drop (i : View) (m n : Nat) : (i.drop m).drop n = i.drop (m + n) := by
  simp [drop, List.take_add, Nat.add_assoc]

theorem advance_byteLength {word rest : List Char} (h : i.rest = word ++ rest) :
    i.advance (byteLength word) = .ok (i.drop word.length) := by
  rw [advance, h, dropBytes_byteLength_append, drop, h]
  simp

theorem splitFirst_eq (i : View) : i.splitFirst = .ok (i.rest.head?.map fun c => (c, i.drop 1)) := by
  rcases hr : i.rest with _ | ⟨c, cs⟩
  · simp [splitFirst, first, hr]
  · have hadvance : i.advance c.utf8Size = .ok (i.drop 1) := by
      simpa [byteLength] using advance_byteLength (show i.rest = [c] ++ cs from hr)
    simp [splitFirst, first, hr, hadvance, Except.map]

theorem strip_eq (i : View) (text : String) :
    i.strip text = .ok (if text.toList <+: i.rest then some (i.drop text.toList.length) else none) := by
  by_cases h : text.toList <+: i.rest
  · obtain ⟨rest, hrest⟩ := h
    have hadvance := advance_byteLength hrest.symm
    rw [byteLength_toList] at hadvance
    simp [strip, ← hrest, hadvance, Except.map]
  · simp [strip, h]

/-! ### Valid views -/

theorem valid_ofBuffer (b : Buffer) : (ofBuffer b).Valid := ⟨[], rfl, rfl⟩

theorem Valid.drop (h : i.Valid) (n : Nat) : (i.drop n).Valid := by
  obtain ⟨before, htext, hoffset⟩ := h
  refine ⟨before ++ i.rest.take n, ?_, ?_⟩
  · simp [htext]
  · simp [hoffset]

theorem startingAt_eq_ok_iff {b : Buffer} {offset : Nat} :
    startingAt b offset = .ok i ↔ i.buffer = b ∧ i.offset = offset ∧ i.Valid := by
  constructor
  · intro h
    unfold startingAt at h
    split at h
    · rename_i rest hrest
      obtain ⟨before, htext, hoffset⟩ := eq_append_of_dropBytes hrest
      cases h
      exact ⟨rfl, rfl, before, htext, hoffset⟩
    · cases h
  · rintro ⟨rfl, rfl, before, htext, hoffset⟩
    rw [startingAt, htext, hoffset, dropBytes_byteLength_append, ← hoffset]

theorem Valid.offset_add (h : i.Valid) : i.offset + byteLength i.rest = i.text.utf8ByteSize := by
  obtain ⟨before, htext, hoffset⟩ := h
  rw [text, ← byteLength_toList, htext, byteLength_append, hoffset]

theorem Valid.offset_le (h : i.Valid) : i.offset ≤ i.text.utf8ByteSize := by
  have := h.offset_add
  omega

theorem Valid.len_eq (h : i.Valid) : i.len = byteLength i.rest := by
  have := h.offset_add
  rw [len]
  omega

theorem Valid.remaining_eq (h : i.Valid) : i.remaining = .ok (byteLength i.rest) := by
  rw [remaining, if_pos h.offset_le, h.len_eq]

theorem Valid.isEmpty_iff (h : i.Valid) : i.isEmpty = true ↔ i.rest = [] := by
  have := h.offset_add
  rw [isEmpty, beq_iff_eq, ← byteLength_eq_zero_iff]
  omega

theorem restText_eq_empty_iff : i.restText = "" ↔ i.rest = [] := by
  rw [restText, ← String.toList_inj, String.toList_ofList]
  rfl

theorem Valid.isEmpty_iff_restText (h : i.Valid) : i.isEmpty = true ↔ i.restText = "" :=
  h.isEmpty_iff.trans restText_eq_empty_iff.symm

theorem utf8ByteSize_restText (i : View) : i.restText.utf8ByteSize = byteLength i.rest := by
  rw [← byteLength_toList, restText, String.toList_ofList]

theorem Valid.len_drop_lt_iff (h : i.Valid) {n : Nat} : (i.drop n).len < i.len ↔ 0 < n ∧ i.rest ≠ [] := by
  rw [(h.drop n).len_eq, h.len_eq, drop_rest, byteLength_drop_lt_iff]

/-! ### Later views -/

/-- `j` is `i`, or a view of the same text some characters later. -/
def Later (i j : View) : Prop := ∃ n, j = i.drop n

theorem Later.refl (i : View) : i.Later i := ⟨0, rfl⟩

theorem later_drop (i : View) (n : Nat) : i.Later (i.drop n) := ⟨n, rfl⟩

theorem Later.trans (h : i.Later j) (h' : j.Later k) : i.Later k := by
  obtain ⟨m, rfl⟩ := h
  obtain ⟨n, rfl⟩ := h'
  exact ⟨m + n, drop_drop i m n⟩

theorem Later.valid (h : i.Later j) (hi : i.Valid) : j.Valid := by
  obtain ⟨n, rfl⟩ := h
  exact hi.drop n

theorem Later.buffer_eq (h : i.Later j) : j.buffer = i.buffer := by
  obtain ⟨n, rfl⟩ := h
  rfl

theorem Later.offset_le (h : i.Later j) : i.offset ≤ j.offset := by
  obtain ⟨n, rfl⟩ := h
  exact Nat.le_add_right _ _

theorem Later.isSuffixOf (h : i.Later j) : j.isSuffixOf i = true := by
  simp [View.isSuffixOf, h.buffer_eq, h.offset_le]

theorem isSuffixOf_trans (h : k.isSuffixOf j = true) (h' : j.isSuffixOf i = true) : k.isSuffixOf i = true := by
  simp only [View.isSuffixOf, Bool.and_eq_true, decide_eq_true_eq] at h h' ⊢
  exact ⟨h.1.trans h'.1, Nat.le_trans h'.2 h.2⟩

/-- Valid views of one buffer are ordered by their offsets: the later one is what the other is after some
    characters. -/
theorem Valid.later_of_isSuffixOf (hi : i.Valid) (hj : j.Valid) (h : j.isSuffixOf i = true) : i.Later j := by
  rcases i with ⟨b, m, cs⟩
  rcases j with ⟨b', n, ds⟩
  simp only [View.isSuffixOf, Bool.and_eq_true, decide_eq_true_eq] at h
  obtain ⟨rfl, hle⟩ := h
  obtain ⟨before, htext, rfl⟩ := hi
  obtain ⟨before', htext', rfl⟩ := hj
  have hlater : ∀ skipped : List Char, before' = before ++ skipped → cs = skipped ++ ds →
      (View.mk b' (byteLength before) cs).Later ⟨b', byteLength before', ds⟩ := by
    rintro skipped rfl rfl
    exact ⟨skipped.length, by simp [View.drop]⟩
  rcases List.append_eq_append_iff.mp (htext.symm.trans htext') with ⟨skipped, hbefore, hrest⟩ | ⟨extra, hbefore, hrest⟩
  · exact hlater skipped hbefore hrest
  · -- nothing can be skipped backwards
    have hnone : extra = [] := by
      rw [← byteLength_eq_zero_iff]
      rw [hbefore, byteLength_append] at hle
      omega
    subst hnone
    exact hlater [] (by simpa using hbefore.symm) hrest.symm

theorem Later.exists_rest_eq (h : i.Later j) : ∃ skipped, i.rest = skipped ++ j.rest := by
  obtain ⟨n, rfl⟩ := h
  exact ⟨i.rest.take n, (List.take_append_drop n i.rest).symm⟩

theorem Later.eq_of_offset_le (h : i.Later j) (hle : j.offset ≤ i.offset) : j = i := by
  obtain ⟨n, rfl⟩ := h
  have hnone : i.rest.take n = [] := by
    rw [← byteLength_eq_zero_iff]
    rw [drop_offset] at hle
    omega
  have hrest := List.take_append_drop n i.rest
  rw [hnone, List.nil_append] at hrest
  rw [drop, hnone, hrest]
  rfl

theorem Later.rest_length_lt (h : i.Later j) (hlt : i.offset < j.offset) : j.rest.length < i.rest.length := by
  obtain ⟨n, rfl⟩ := h
  have hn : n ≠ 0 := by
    rintro rfl
    exact absurd hlt (Nat.lt_irrefl _)
  have hrest : i.rest ≠ [] := by
    intro hnil
    simp [hnil, byteLength] at hlt
  have := List.length_pos_iff.mpr hrest
  rw [drop_rest, List.length_drop]
  omega

theorem Later.offset_lt (h : i.Later j) (hlt : j.rest.length < i.rest.length) : i.offset < j.offset := by
  refine Nat.lt_of_not_le fun hle => ?_
  rw [h.eq_of_offset_le hle] at hlt
  exact Nat.lt_irrefl _ hlt

theorem Later.len_lt_iff (h : i.Later j) (hi : i.Valid) : j.len < i.len ↔ i.offset < j.offset := by
  have hle := (h.valid hi).offset_le
  rw [text, h.buffer_eq] at hle
  rw [len, len, text, text, h.buffer_eq]
  have := hi.offset_le
  rw [text] at this
  omega

end View
end ParserKit
