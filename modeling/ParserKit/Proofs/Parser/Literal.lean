import ParserKit.Proofs.Parser.Complete
import ParserKit.Proofs.Parser.Reading
import ParserKit.Proofs.Text.Utf8

/-! Literals. A literal is looked for by its bytes, and skipped by their number. No character is encoded as the beginning
    of another one, so the bytes of a text start with those of a literal exactly where its characters start with the
    characters of the literal (`bytesOf_prefix_iff`), and what is skipped ends between two characters. So a literal
    comes to what its characters come to one after the other, and two literals one after the other are one
    (`literals_spelled`). -/

namespace ParserKit

namespace Text
variable {c d : Char} {cs ds : List Char} {x y : List UInt8}

/-! ### Bytes -/

/-- The first character can be told from the bytes, whatever follows it. -/
theorem eq_of_utf8EncodeChar_append (h : String.utf8EncodeChar c ++ x = String.utf8EncodeChar d ++ y) : c = d := by
  have hc := ByteArray.utf8DecodeChar?_utf8EncodeChar_append (b := x.toByteArray) (c := c)
  have hd := ByteArray.utf8DecodeChar?_utf8EncodeChar_append (b := y.toByteArray) (c := d)
  rw [← List.toByteArray_append] at hc hd
  rw [h, hd] at hc
  exact (Option.some.inj hc).symm

theorem bytesOf_prefix_iff : bytesOf cs <+: bytesOf ds ↔ cs <+: ds := by
  induction cs generalizing ds with
  | nil => exact ⟨fun _ => List.nil_prefix, fun _ => List.nil_prefix⟩
  | cons c cs ih =>
    rcases ds with _ | ⟨d, ds⟩
    · simp [bytesOf, String.utf8EncodeChar_ne_nil]
    · simp only [bytesOf, List.flatMap_cons] at ih ⊢
      constructor
      · intro h
        obtain ⟨z, hz⟩ := h
        rw [List.append_assoc] at hz
        obtain rfl := eq_of_utf8EncodeChar_append hz
        exact List.cons_prefix_cons.mpr ⟨rfl, ih.mp ⟨z, List.append_cancel_left hz⟩⟩
      · intro h
        obtain ⟨rfl, hcs⟩ := List.cons_prefix_cons.mp h
        exact (List.prefix_append_right_inj _).mpr (ih.mpr hcs)

end Text

namespace Parser
open Text
variable {i k : View} {s t v : String}

/-! ### Characters one after the other -/

theorem runAll_elements (cs : List Char) (i : View) : Series.runAll (cs.map element) i =
    .done (if cs <+: i.rest then .success cs (i.drop cs.length) else .failure) := by
  induction cs generalizing i with
  | nil =>
    rw [if_pos List.nil_prefix]
    rfl
  | cons c cs ih =>
    rw [List.map_cons, Series.runAll]
    by_cases hpast : Past (· == c) i.rest
    · have hfail : ¬ c :: cs <+: i.rest := by
        intro h
        obtain ⟨z, hz⟩ := h
        rw [← hz, List.cons_append, past_cons, beq_self_eq_true] at hpast
        cases hpast
      rw [(takesOne_element c).miss hpast, Run.done_failure_onSuccess, if_neg hfail]
    · obtain ⟨ds, hrest⟩ := exists_cons_of_not_past hpast
      have hnext : (i.drop 1).rest = ds := by simp [hrest]
      rw [(takesOne_element c).hit hrest (beq_self_eq_true c), Run.done_success_onSuccess, ih, hnext, hrest]
      by_cases hcs : cs <+: ds
      · simp [hcs, Nat.add_comm 1]
      · simp [hcs]

/-! ### Literals -/

theorem literal_parse_eq_runAll (s : String) (i : View) : (literal s).parse i =
    (Series.runAll (s.toList.map element) i).andThen fun o => .done (o.map fun _ => s) := by
  rw [literal_parse, runAll_elements, Run.done_andThen]
  by_cases hs : s.toList <+: i.rest
  · rw [if_pos hs, if_pos hs, Outcome.map]
  · rw [if_neg hs, if_neg hs, Outcome.map]

theorem ending_literal_eq_success_iff : ((literal s).parse i).ending = .done (.success v k) ↔
    v = s ∧ s.toList <+: i.rest ∧ k = i.drop s.toList.length := by
  rw [literal_parse]
  by_cases hs : s.toList <+: i.rest
  · simp [hs, Run.done, eq_comm]
  · simp [hs, Run.done]

/-- What the literal `s` comes to from `i`, and what its characters come to. -/
structure SpelledOut (s : String) (i : View) : Prop where
  halts : ∃ o, (literal s).parse i = .done o
  parse_eq : (literal s).parse i =
    (Series.runAll (s.toList.map element) i).andThen fun o => .done (o.map fun _ => s)
  succeeds_iff : ∀ k, (∃ v, ((literal s).parse i).ending = .done (.success v k)) ↔
    ∃ cs, (Series.runAll (s.toList.map element) i).ending = .done (.success cs k)
  bytes_iff : (∃ v k, ((literal s).parse i).ending = .done (.success v k)) ↔
    s.toUTF8.data.toList <+: i.restText.toUTF8.data.toList
  /-- What is skipped is `s`, and the number of its bytes leads to a place between two characters. -/
  consumes : ∀ v k, ((literal s).parse i).ending = .done (.success v k) → v = s ∧ i.restText = s ++ k.restText ∧
    i.advance s.utf8ByteSize = .ok k ∧ View.startingAt i.buffer (i.offset + s.utf8ByteSize) = .ok k

theorem advance_of_prefix (hs : s.toList <+: i.rest) : i.advance s.utf8ByteSize = .ok (i.drop s.toList.length) := by
  obtain ⟨z, hz⟩ := hs
  rw [← byteLength_toList]
  exact View.advance_byteLength hz.symm

theorem spelledOut (s : String) (hi : i.Valid) : SpelledOut s i where
  halts := ⟨_, literal_parse s i⟩
  parse_eq := literal_parse_eq_runAll s i
  succeeds_iff k := by
    rw [literal_parse_eq_runAll]
    simp only [Run.ending_andThen_done_iff]
    constructor
    · intro h
      obtain ⟨v, ⟨cs, j⟩ | -, hcs, hv⟩ := h
      · cases hv
        exact ⟨cs, hcs⟩
      · cases hv
    · intro h
      obtain ⟨cs, hcs⟩ := h
      exact ⟨s, .success cs k, hcs, rfl⟩
  bytes_iff := by
    rw [toList_data_toUTF8, toList_data_toUTF8, bytesOf_prefix_iff, View.restText, String.toList_ofList]
    constructor
    · intro h
      obtain ⟨v, k, hk⟩ := h
      exact (ending_literal_eq_success_iff.mp hk).2.1
    · exact fun hs => ⟨s, _, ending_literal_eq_success_iff.mpr ⟨rfl, hs, rfl⟩⟩
  consumes v k hk := by
    obtain ⟨rfl, hs, rfl⟩ := ending_literal_eq_success_iff.mp hk
    exact ⟨rfl, (View.append_restText_drop hs).symm, advance_of_prefix hs, hi.startingAt_drop hs⟩

theorem literal_append_parse (s t : String) (i : View) :
    (literal (s ++ t)).parse i = ((literal s).combine (literal t) (· ++ ·)).parse i := by
  rw [combine_parse, literal_parse, literal_parse, String.toList_append]
  by_cases hs : s.toList <+: i.rest
  · rw [if_pos hs, Run.done_success_onSuccess, literal_parse]
    obtain ⟨z, hz⟩ := hs
    rw [View.drop_length_rest hz.symm, View.drop_length_append, ← hz]
    by_cases ht : t.toList <+: z
    · simp [ht]
    · simp [ht]
  · have hboth : ¬ s.toList ++ t.toList <+: i.rest := fun h => hs ((List.prefix_append _ _).trans h)
    rw [if_neg hs, if_neg hboth, Run.done_failure_onSuccess]

/-- From every place in a text, a literal comes to what its characters come to one after the other, and skips its bytes
    without ever getting inside a character. A literal in two parts is the one part and then the other. -/
theorem literals_spelled {b : Buffer} {offset : Nat} (hi : View.startingAt b offset = .ok i) :
    (∀ s, SpelledOut s i) ∧
      ∀ s t, (literal (s ++ t)).parse i = ((literal s).combine (literal t) (· ++ ·)).parse i :=
  ⟨fun s => spelledOut s (View.startingAt_eq_ok_iff.mp hi).2.2, fun s t => literal_append_parse s t i⟩

/-- A literal of three bytes, after a character of four. The other one starts with the same character and the same byte
    after it. -/
theorem literals_spelled_accents : View.startingAt ⟨0, "😀aé"⟩ 4 = .ok ⟨⟨0, "😀aé"⟩, 4, ['a', 'é']⟩ ∧
    (literal "aé").parse ⟨⟨0, "😀aé"⟩, 4, ['a', 'é']⟩ = .done (.success "aé" ⟨⟨0, "😀aé"⟩, 7, []⟩) ∧
    (literal "aè").parse ⟨⟨0, "😀aé"⟩, 4, ['a', 'é']⟩ = .done .failure ∧
    SpelledOut "aé" ⟨⟨0, "😀aé"⟩, 4, ['a', 'é']⟩ := by
  have hi : View.startingAt ⟨0, "😀aé"⟩ 4 = .ok ⟨⟨0, "😀aé"⟩, 4, ['a', 'é']⟩ := rfl
  obtain ⟨hspelled, -⟩ := literals_spelled hi
  exact ⟨hi, rfl, rfl, hspelled "aé"⟩

end Parser
end ParserKit
