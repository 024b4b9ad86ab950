import Mathlib.Algebra.Group.Int.Defs
import ParserKit.Proofs.Calculator.Reading
import ParserKit.Proofs.Calculator.Tally
import ParserKit.Proofs.Parser.Complete

/-! What the calculator recognizes and what it computes. An expression is recognized wherever one is at the start
    of what is left of a text, and it is the longest there (`expr_recognizes`). Its value is the exact number
    that the text stands for, moved into the range of the words once at the end (`saturates_once`), although
    the rules saturate at every digit and at every operation. -/

namespace ParserKit.Calculator
open Text ParserKit.Parser

/-! ### Whole texts -/

theorem Longest.unique {p : Part} {cs w w' : List Char} {n n' : Nat} (h : Longest p cs w n)
    (h' : Longest p cs w' n') : w = w' := by
  have hlength : w.length = w'.length :=
    Nat.le_antisymm (h'.longest h.starts ⟨n, h.denotes⟩) (h.longest h'.starts ⟨n', h'.denotes⟩)
  exact (List.prefix_of_prefix_length_le h.starts h'.starts (Nat.le_of_eq hlength)).eq_of_length hlength

/-- The three ways to evaluate a text, as whole runs. -/
theorem eval_reads (text : String) :
    (∃ n, Denotes .expr text.toList n ∧
      eval text = ⟨[.evaluated text (Range.signed64.clamp n)], .done (.ok (Range.signed64.clamp n))⟩) ∨
    (∃ w u n, Longest .expr text.toList w n ∧ text.toList = w ++ u ∧ ¬ Forms .expr text.toList ∧
      eval text = .done (.error (.unconsumed (byteLength u)))) ∨
    Nowhere .expr text.toList ∧ eval text = .done (.error .noMatch) := by
  have hvalid : (View.ofText text).Valid := View.valid_ofBuffer _
  rw [eval, parseComplete]
  rcases reads_expr hvalid with ⟨w, n, hlongest, hparse⟩ | ⟨hnowhere, hparse⟩
  · have hlongest : Longest .expr text.toList w n := hlongest
    obtain ⟨u, hu⟩ := hlongest.starts
    have hrest : ((View.ofText text).drop w.length).rest = u := View.drop_length_rest hu.symm
    rw [hparse, Run.done_andThen]
    by_cases hnil : u = []
    · have hempty : ((View.ofText text).drop w.length).isEmpty = true := by
        rw [(hvalid.drop _).isEmpty_iff, hrest, hnil]
      obtain rfl : w = text.toList := by simpa [hnil] using hu
      refine Or.inl ⟨n, hlongest.denotes, ?_⟩
      rw [completed, if_pos hempty]
      rfl
    · have hempty : ¬ ((View.ofText text).drop w.length).isEmpty = true := by
        rw [(hvalid.drop _).isEmpty_iff, hrest]
        exact hnil
      refine Or.inr (Or.inl ⟨w, u, n, hlongest, hu.symm, fun hforms => ?_, ?_⟩)
      · have hle := hlongest.longest List.prefix_rfl hforms
        rw [← hu, List.length_append] at hle
        exact hnil (List.length_eq_zero_iff.mp (by omega))
      · rw [completed, if_neg hempty, (hvalid.drop _).remaining_eq, hrest]
        rfl
  · rw [hparse]
    exact Or.inr (Or.inr ⟨hnowhere, rfl⟩)

theorem eval_ok_iff {text : String} : (∃ v, (eval text).ending = .done (.ok v)) ↔ Forms .expr text.toList := by
  rcases eval_reads text with ⟨n, hdenotes, heval⟩ | ⟨w, u, n, -, -, hwhole, heval⟩ | ⟨hnowhere, heval⟩
  · rw [heval]
    exact ⟨fun _ => ⟨n, hdenotes⟩, fun _ => ⟨_, rfl⟩⟩
  · rw [heval]
    refine ⟨?_, fun h => absurd h hwhole⟩
    rintro ⟨v, hv⟩
    cases hv
  · rw [heval]
    refine ⟨?_, fun h => absurd h (hnowhere _ List.prefix_rfl)⟩
    rintro ⟨v, hv⟩
    cases hv

theorem eval_unconsumed_iff {text : String} {r : Nat} : (eval text).ending = .done (.error (.unconsumed r)) ↔
    ¬ Forms .expr text.toList ∧ ∃ w u n, Longest .expr text.toList w n ∧ text.toList = w ++ u ∧ r = byteLength u := by
  rcases eval_reads text with ⟨n, hdenotes, heval⟩ | ⟨w, u, n, hlongest, hu, hwhole, heval⟩ | ⟨hnowhere, heval⟩
  · rw [heval]
    exact ⟨fun h => (nomatch h), fun h => absurd ⟨n, hdenotes⟩ h.1⟩
  · rw [heval]
    constructor
    · intro h
      cases h
      exact ⟨hwhole, w, u, n, hlongest, hu, rfl⟩
    · rintro ⟨-, w', u', n', hlongest', hu', rfl⟩
      obtain rfl := hlongest.unique hlongest'
      obtain rfl : u = u' := List.append_cancel_left (hu.symm.trans hu')
      rfl
  · rw [heval]
    refine ⟨fun h => (nomatch h), ?_⟩
    rintro ⟨-, w, u, n, hlongest, -, -⟩
    exact absurd ⟨n, hlongest.denotes⟩ (hnowhere w hlongest.starts)

theorem eval_noMatch_iff {text : String} :
    (eval text).ending = .done (.error .noMatch) ↔ Nowhere .expr text.toList := by
  rcases eval_reads text with ⟨n, hdenotes, heval⟩ | ⟨w, u, n, hlongest, -, -, heval⟩ | ⟨hnowhere, heval⟩
  · rw [heval]
    exact ⟨fun h => (nomatch h), fun h => absurd ⟨n, hdenotes⟩ (h _ List.prefix_rfl)⟩
  · rw [heval]
    exact ⟨fun h => (nomatch h), fun h => absurd ⟨n, hlongest.denotes⟩ (h w hlongest.starts)⟩
  · rw [heval]
    exact ⟨fun _ => hnowhere, fun _ => rfl⟩

/-! ### Recognition -/

/-- A run of `q` from `i` ends: with the longest text of the part that is there, if there is any, and else with a
    failure. -/
structure RecognizesAt (q : Parser Int) (p : Part) (i : View) : Prop where
  succeeds_iff : (∃ v rest, (q.parse i).ending = .done (.success v rest)) ↔ ∃ w, w <+: i.rest ∧ Forms p w
  fails_iff : (q.parse i).ending = .done .failure ↔ ∀ w, w <+: i.rest → ¬ Forms p w
  longest : ∀ {v rest}, (q.parse i).ending = .done (.success v rest) →
    ∃ w n, Longest p i.rest w n ∧ rest = i.drop w.length

theorem Reads.recognizesAt {q : Parser Int} {p : Part} {i : View} (h : Reads p i (q.parse i)) :
    RecognizesAt q p i := by
  rcases h with ⟨w, n, hlongest, hparse⟩ | ⟨hnowhere, hparse⟩
  · have hforms : Forms p w := ⟨n, hlongest.denotes⟩
    constructor
    · rw [hparse]
      exact ⟨fun _ => ⟨w, hlongest.starts, hforms⟩, fun _ => ⟨_, _, rfl⟩⟩
    · rw [hparse]
      exact ⟨fun h => (nomatch h), fun h => absurd hforms (h w hlongest.starts)⟩
    · intro v rest hq
      rw [hparse] at hq
      cases hq
      exact ⟨w, n, hlongest, rfl⟩
  · constructor
    · rw [hparse]
      constructor
      · rintro ⟨v, rest, hq⟩
        cases hq
      · rintro ⟨w, hw, hforms⟩
        exact absurd hforms (hnowhere w hw)
    · rw [hparse]
      exact ⟨fun _ => hnowhere, fun _ => rfl⟩
    · intro v rest hq
      rw [hparse] at hq
      cases hq

/-- From every place of a text `expr` takes the longest expression that is there. So a text evaluates if it is an
    expression from end to end, has something left over after the longest expression at its start, or does not
    match. -/
theorem expr_recognizes (b : Buffer) :
    (∀ offset i, View.startingAt b offset = .ok i → RecognizesAt expr .expr i) ∧
    ((∃ v, (eval b.text).ending = .done (.ok v)) ↔ Forms .expr b.text.toList) ∧
    (∀ r, (eval b.text).ending = .done (.error (.unconsumed r)) ↔ ¬ Forms .expr b.text.toList ∧
      ∃ w u n, Longest .expr b.text.toList w n ∧ b.text.toList = w ++ u ∧ r = byteLength u) ∧
    ((eval b.text).ending = .done (.error .noMatch) ↔ ∀ w, w <+: b.text.toList → ¬ Forms .expr w) :=
  ⟨fun _ _ hi => (reads_expr (View.startingAt_eq_ok_iff.mp hi).2.2).recognizesAt, eval_ok_iff,
    fun _ => eval_unconsumed_iff, eval_noMatch_iff⟩

/-- An expression with a parenthesis after it that is not closed, after a character of two bytes. -/
theorem expr_recognizes_unclosed :
    View.startingAt ⟨0, "é1 +(2"⟩ 2 = .ok ⟨⟨0, "é1 +(2"⟩, 2, ['1', ' ', '+', '(', '2']⟩ ∧
      RecognizesAt expr .expr ⟨⟨0, "é1 +(2"⟩, 2, ['1', ' ', '+', '(', '2']⟩ := by
  have hi : View.startingAt ⟨0, "é1 +(2"⟩ 2 = .ok ⟨⟨0, "é1 +(2"⟩, 2, ['1', ' ', '+', '(', '2']⟩ := rfl
  exact ⟨hi, (expr_recognizes ⟨0, "é1 +(2"⟩).1 2 _ hi⟩

/-! ### Values -/

/-- Where the parser succeeds, what it took stands for exactly one number, and its value is that number, moved into
    the range of the words. -/
def SaturatesOnce (q : Parser Int) (p : Part) (i : View) : Prop :=
  ∀ v rest, (q.parse i).ending = .done (.success v rest) →
    ∃ w n, i.rest = w ++ rest.rest ∧ Denotes p w n ∧ (∀ m, Denotes p w m → m = n) ∧ v = min (n : Int) (2 ^ 63 - 1)

theorem Reads.saturatesOnce {q : Parser Int} {p : Part} {i : View} (h : Reads p i (q.parse i)) (hp : p.Solid) :
    SaturatesOnce q p i := by
  intro v rest hparse
  rcases h with ⟨w, n, hlongest, hq⟩ | ⟨-, hq⟩
  · rw [hq] at hparse
    cases hparse
    obtain ⟨z, hz⟩ := hlongest.starts
    refine ⟨w, n, ?_, hlongest.denotes, fun m hm => hm.unique hlongest.denotes hp, ?_⟩
    · rw [View.drop_length_rest hz.symm, hz]
    · exact Range.clamp_natCast Range.contains_zero_signed64 n
  · rw [hq] at hparse
    cases hparse

/-- The rules of the calculator saturate as if they saturated once. -/
theorem saturates_once {b : Buffer} {offset : Nat} {i : View} (hi : View.startingAt b offset = .ok i) :
    SaturatesOnce expr .expr i ∧ SaturatesOnce term .term i ∧ SaturatesOnce factor .factor i := by
  have hvalid := (View.startingAt_eq_ok_iff.mp hi).2.2
  exact ⟨(reads_expr hvalid).saturatesOnce trivial, (reads_term hvalid).saturatesOnce trivial,
    (reads_factor hvalid).saturatesOnce trivial⟩

/-- A product that does not fit, and then a factor of zero. The value of the text is 7, as if nothing had saturated. -/
theorem saturates_once_zero :
    View.startingAt ⟨0, "99999999999999999999*2*0+7"⟩ 0 = .ok (.ofText "99999999999999999999*2*0+7") ∧
      SaturatesOnce expr .expr (.ofText "99999999999999999999*2*0+7") ∧
      (expr.parse (.ofText "99999999999999999999*2*0+7")).ending =
        .done (.success 7 ⟨⟨0, "99999999999999999999*2*0+7"⟩, 26, []⟩) := by
  have hi : View.startingAt ⟨0, "99999999999999999999*2*0+7"⟩ 0 = .ok (.ofText "99999999999999999999*2*0+7") := rfl
  exact ⟨hi, (saturates_once hi).1, by decide +kernel⟩

end ParserKit.Calculator
