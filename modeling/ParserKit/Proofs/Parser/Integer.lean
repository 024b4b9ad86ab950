import ParserKit.Proofs.Grammar.WholeText

/-! Numbers. A number is the longest run of decimal digits, and its value is the exact value of the run, moved to the
    greatest word if it is greater: however long the run is, to saturate at each digit is to saturate once
    (`integer_parse_of_digitRun`). So all of a text is a number exactly when it is made of decimal digits, and what is
    written of a word is read back, with any number of zeros before it (`integer_reads`). -/

namespace ParserKit

namespace Text
variable {c : Char} {cs w z : List Char}

theorem isDigit_iff : c.isDigit = true ↔ '0' ≤ c ∧ c ≤ '9' := Char.isDigit_iff_toNat

theorem past_isDigit_iff : Past Char.isDigit cs ↔ ∀ c, cs.head? = some c → ¬ ('0' ≤ c ∧ c ≤ '9') := by
  simp only [Past, ← isDigit_iff, Bool.not_eq_true]

/-- The text starts with `w`, which is a longest run of decimal digits and has at least one, and `z` follows. -/
structure DigitRun (cs w z : List Char) : Prop where
  eq : cs = w ++ z
  ne_nil : w ≠ []
  digits : ∀ c ∈ w, '0' ≤ c ∧ c ≤ '9'
  ends : ∀ c, z.head? = some c → ¬ ('0' ≤ c ∧ c ≤ '9')

/-- Only a text that does not start with a digit has no such run. -/
theorem digitRun_or_past (cs : List Char) : (∃ w z, DigitRun cs w z) ∨ Past Char.isDigit cs := by
  obtain ⟨w, z, rfl, hw, hz⟩ := exists_span Char.isDigit cs
  rcases w with _ | ⟨c, w⟩
  · exact Or.inr hz
  · exact Or.inl ⟨c :: w, z, rfl, List.cons_ne_nil c w, fun d hd => isDigit_iff.mp (hw d hd), past_isDigit_iff.mp hz⟩

theorem digitRun_self_iff : DigitRun cs cs [] ↔ cs ≠ [] ∧ ∀ c ∈ cs, '0' ≤ c ∧ c ≤ '9' := by
  constructor
  · exact fun h => ⟨h.ne_nil, h.digits⟩
  · exact fun h => ⟨(List.append_nil cs).symm, h.1, h.2, fun _ hc => nomatch hc⟩

/-- What is written of a number, after any zeros. -/
def written (zeros n : Nat) : String := String.ofList (List.replicate zeros '0') ++ toString n

theorem toList_written (zeros n : Nat) :
    (written zeros n).toList = List.replicate zeros '0' ++ Nat.toDigits 10 n := by
  rw [written, String.toList_append, String.toList_ofList, Nat.toString_eq_ofList_toDigits, String.toList_ofList]

theorem digitRun_written (zeros n : Nat) : DigitRun (written zeros n).toList (written zeros n).toList [] := by
  rw [digitRun_self_iff, toList_written]
  constructor
  · exact List.append_ne_nil_of_right_ne_nil _ Nat.toDigits_ne_nil
  · intro c hc
    obtain hzero | hdigit := List.mem_append.mp hc
    · rw [List.eq_of_mem_replicate hzero]
      exact isDigit_iff.mp rfl
    · exact isDigit_iff.mp (Nat.isDigit_of_mem_toDigits (by omega) (by omega) hdigit)

/-- Zeros before the digits make no difference. -/
theorem ofDigitChars_written (zeros n : Nat) : Nat.ofDigitChars 10 (written zeros n).toList 0 = n := by
  rw [toList_written, Nat.ofDigitChars_append, Nat.ofDigitChars_replicate_zero, Nat.mul_zero,
    Nat.ofDigitChars_ten_toDigits]

end Text

namespace Parser
open ParserKit.Text
variable {i k : View} {w z : List Char} {text : String}

/-- The value of the digits, or the greatest word. -/
def wordOf (w : List Char) : Nat := min (Nat.ofDigitChars 10 w 0) (Nat.pow 2 64 - 1)

theorem clamp_eq_wordOf (w : List Char) : Range.unsigned64.clamp (Nat.ofDigitChars 10 w 0) = wordOf w := by
  have hgreatest : Range.unsigned64.greatest = (Nat.pow 2 64 - 1 : Nat) := rfl
  rw [Range.clamp_natCast Range.contains_zero_unsigned64, hgreatest, wordOf]
  omega

theorem integer_parse_of_digitRun (hi : i.Valid) (h : DigitRun i.rest w z) :
    integer.parse i = .done (.success (wordOf w) (i.drop w.length)) := by
  rw [← clamp_eq_wordOf]
  exact integer_parse_of_success hi h.eq (fun c hc => isDigit_iff.mpr (h.digits c hc)) h.ne_nil
    (past_isDigit_iff.mpr h.ends)

/-- What a number comes to from `i`. -/
structure ReadsInteger (i : View) : Prop where
  fails_iff : (integer.parse i).ending = .done .failure ↔ ∀ c, i.first = some c → ¬ ('0' ≤ c ∧ c ≤ '9')
  reads : ∀ w z, DigitRun i.rest w z → integer.parse i = .done (.success (wordOf w) (i.drop w.length))
  succeeds_iff : ∀ n k, (integer.parse i).ending = .done (.success n k) ↔
    ∃ w z, DigitRun i.rest w z ∧ n = wordOf w ∧ k = i.drop w.length

theorem readsInteger (hi : i.Valid) : ReadsInteger i := by
  have hcases := digitRun_or_past i.rest
  refine ⟨?_, fun w z h => integer_parse_of_digitRun hi h, fun n k => ?_⟩
  · rw [View.first, ← past_isDigit_iff]
    constructor
    · intro hfails
      obtain ⟨w, z, hrun⟩ | hpast := hcases
      · rw [integer_parse_of_digitRun hi hrun] at hfails
        cases hfails
      · exact hpast
    · intro hpast
      rw [integer_parse_of_failure hpast]
      rfl
  · constructor
    · intro hparse
      obtain ⟨w, z, hrun⟩ | hpast := hcases
      · rw [integer_parse_of_digitRun hi hrun] at hparse
        cases hparse
        exact ⟨w, z, hrun, rfl, rfl⟩
      · rw [integer_parse_of_failure hpast] at hparse
        cases hparse
    · intro h
      obtain ⟨w, z, hrun, rfl, rfl⟩ := h
      rw [integer_parse_of_digitRun hi hrun]
      rfl

/-! ### Whole texts -/

theorem integer_parseComplete_of_digitRun (h : DigitRun text.toList text.toList []) :
    integer.parseComplete text = .done (.ok (wordOf text.toList)) := by
  have hi : (View.ofText text).Valid := View.valid_ofBuffer _
  have hend : ((View.ofText text).drop text.toList.length).isEmpty = true :=
    (hi.drop _).isEmpty_iff.mpr (View.drop_length_rest (List.append_nil _).symm)
  rw [parseComplete, integer_parse_of_digitRun hi h, Run.done_andThen, completed, if_pos hend]
  rfl

theorem integer_parseComplete_eq_ok_iff {m : Int} : (integer.parseComplete text).ending = .done (.ok m) ↔
    DigitRun text.toList text.toList [] ∧ m = wordOf text.toList := by
  have hi : (View.ofText text).Valid := View.valid_ofBuffer _
  constructor
  · intro h
    have hstays := Simulation.Similar.integer.staysInText hi
    obtain ⟨k, hparse, hend⟩ := ending_parseStr_eq_some_iff.mp ((ending_parseComplete_eq_ok_iff hstays).mp h)
    obtain ⟨w, z, hrun, rfl, rfl⟩ := ((readsInteger hi).succeeds_iff m k).mp hparse
    obtain rfl : z = [] := by
      rwa [View.restText_eq_empty_iff, View.drop_length_rest hrun.eq] at hend
    obtain rfl : text.toList = w := hrun.eq.trans (List.append_nil w)
    exact ⟨hrun, rfl⟩
  · intro h
    obtain ⟨hrun, rfl⟩ := h
    rw [integer_parseComplete_of_digitRun hrun]
    rfl

theorem integer_parseComplete_written (zeros : Nat) {n : Nat} (hn : n < Nat.pow 2 64) :
    integer.parseComplete (written zeros n) = .done (.ok n) := by
  have hword : wordOf (written zeros n).toList = n := by
    rw [wordOf, ofDigitChars_written]
    exact Nat.min_eq_left (Nat.le_pred_of_lt hn)
  rw [integer_parseComplete_of_digitRun (digitRun_written zeros n), hword]

/-- From every place in a text, a number takes the longest run of decimal digits and saturates once. It is found exactly
    where there is such a digit, and it is all of a text exactly if all of its characters are. -/
theorem integer_reads :
    (∀ {b : Buffer} {offset : Nat} {i : View}, View.startingAt b offset = .ok i → ReadsInteger i) ∧
    (∀ zeros n : Nat, n < Nat.pow 2 64 → integer.parseComplete (written zeros n) = .done (.ok n)) ∧
    ∀ (text : String) (m : Int), (integer.parseComplete text).ending = .done (.ok m) ↔
      (text.toList ≠ [] ∧ ∀ c ∈ text.toList, '0' ≤ c ∧ c ≤ '9') ∧ m = wordOf text.toList := by
  refine ⟨fun hi => readsInteger (View.startingAt_eq_ok_iff.mp hi).2.2, fun zeros n hn =>
    integer_parseComplete_written zeros hn, fun text m => ?_⟩
  rw [integer_parseComplete_eq_ok_iff, digitRun_self_iff]

/-- One more than the greatest word, after a digit of another script, which is none. -/
theorem integer_reads_greatest :
    View.startingAt ⟨0, "٣18446744073709551616x"⟩ 2 = .ok ((View.ofText "٣18446744073709551616x").drop 1) ∧
    integer.parse ((View.ofText "٣18446744073709551616x").drop 1) =
      .done (.success 18446744073709551615 ((View.ofText "٣18446744073709551616x").drop 21)) ∧
    (integer.parse (View.ofText "٣18446744073709551616x")).ending = .done .failure ∧
    integer.parseComplete (written 2 18446744073709551615) = .done (.ok 18446744073709551615) := by
  have hstart : View.startingAt ⟨0, "٣18446744073709551616x"⟩ 0 = .ok (View.ofText "٣18446744073709551616x") := rfl
  have hi : View.startingAt ⟨0, "٣18446744073709551616x"⟩ 2 = .ok ((View.ofText "٣18446744073709551616x").drop 1) := rfl
  have hrun : DigitRun ((View.ofText "٣18446744073709551616x").drop 1).rest "18446744073709551616".toList ['x'] :=
    ⟨rfl, List.cons_ne_nil _ _, fun c hc => isDigit_iff.mp (List.all_eq_true.mp rfl c hc),
      past_isDigit_iff.mp (past_cons.mpr rfl)⟩
  obtain ⟨hreads, hwritten, -⟩ := integer_reads
  exact ⟨hi, (hreads hi).reads _ _ hrun, (hreads hstart).fails_iff.mpr (past_isDigit_iff.mp (past_cons.mpr rfl)),
    hwritten 2 _ (by decide)⟩

end Parser
end ParserKit
