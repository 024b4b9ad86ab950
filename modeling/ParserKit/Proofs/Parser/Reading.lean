import ParserKit.Parser.Choice
import ParserKit.Parser.Token
import ParserKit.Proofs.Saturation
import ParserKit.Proofs.Text.Span
import ParserKit.Proofs.View.Drop

/-! What the parsers of characters, tokens and numbers make of a text. Each of them is read as a statement
    about the characters after a view: which of them it takes, and what value it makes of these. None of these
    runs has events. -/

namespace ParserKit

namespace Run
variable {α β : Type}

@[simp] theorem done_success_onSuccess (v : α) (k : View) (next : α → View → Run (Outcome β)) :
    (Run.done (.success v k)).onSuccess next = next v k := rfl

@[simp] theorem done_failure_onSuccess (next : α → View → Run (Outcome β)) :
    (Run.done .failure).onSuccess next = .done .failure := rfl

@[simp] theorem done_success_onFailure (v : α) (k : View) (other : Unit → Run (Outcome α)) :
    (Run.done (.success v k)).onFailure other = .done (.success v k) := rfl

@[simp] theorem done_failure_onFailure (other : Unit → Run (Outcome α)) :
    (Run.done .failure).onFailure other = other () := rfl

end Run

namespace View

theorem drop_length_rest {i : View} {u v : List Char} (h : i.rest = u ++ v) : (i.drop u.length).rest = v := by
  simp [h]

theorem drop_length_append (i : View) (u v : List Char) :
    (i.drop u.length).drop v.length = i.drop (u ++ v).length := by
  rw [drop_drop, List.length_append]

theorem append_restText_drop {i : View} {s : String} (hs : s.toList <+: i.rest) :
    s ++ (i.drop s.toList.length).restText = i.restText := by
  obtain ⟨z, hz⟩ := hs
  rw [restText, drop_length_rest hz.symm, restText, ← hz, String.ofList_append, String.ofList_toList]

/-- The view after a text that starts at `i`, found by the number of its bytes. -/
theorem Valid.startingAt_drop {i : View} {s : String} (hi : i.Valid) (hs : s.toList <+: i.rest) :
    startingAt i.buffer (i.offset + s.utf8ByteSize) = .ok (i.drop s.toList.length) := by
  obtain ⟨z, hz⟩ := hs
  have hoffset : (i.drop s.toList.length).offset = i.offset + s.utf8ByteSize := by
    rw [drop_offset, ← hz, List.take_left, Text.byteLength_toList]
  exact startingAt_eq_ok_iff.mpr ⟨rfl, hoffset, hi.drop _⟩

end View

namespace Parser
open Text

variable {α β γ : Type} {i : View} {u v : List Char}

/-! ### What combinators run -/

theorem transform_parse (p : Parser α) (f : α → β) (i : View) :
    (p.transform f).parse i = (p.parse i).andThen fun o => .done (o.map f) := rfl

theorem orWith_parse (p q : Parser α) (i : View) :
    (p.orWith q).parse i = (p.parse i).onFailure fun _ => q.parse i := rfl

theorem optional_parse (p : Parser α) (i : View) : p.optional.parse i =
    ((p.parse i).onSuccess fun v k => .done (.success (some v) k)).onFailure fun _ => .done (.success none i) := rfl

theorem lookahead_parse (p : Parser α) (i : View) :
    p.lookahead.parse i = (p.parse i).onSuccess fun v _ => .done (.success v i) := rfl

theorem bind_parse (p : Parser α) (next : α → Parser β) (i : View) :
    (p.bind next).parse i = (p.parse i).onSuccess fun v k => (next v).parse k := rfl

theorem combine_parse (p : Parser α) (q : Parser β) (f : α → β → γ) (i : View) : (p.combine q f).parse i =
    (p.parse i).onSuccess fun v k => (q.parse k).onSuccess fun w l => .done (.success (f v w) l) := rfl

theorem ignore_parse (p : Parser α) (q : Parser β) (i : View) : (p.ignore q).parse i =
    (p.parse i).onSuccess fun v k => (q.parse k).onSuccess fun _ l => .done (.success v l) := rfl

theorem ignorePrevious_parse (p : Parser α) (q : Parser β) (i : View) : (p.ignorePrevious q).parse i =
    (p.parse i).onSuccess fun _ k => (q.parse k).onSuccess fun w l => .done (.success w l) := rfl

/-! ### Single characters -/

/-- The parser takes one character that passes the test, and makes a value of it. -/
structure TakesOne (p : Parser α) (test : Char → Bool) (value : Char → α) : Prop where
  hit : ∀ {i c cs}, i.rest = c :: cs → test c = true → p.parse i = .done (.success (value c) (i.drop 1))
  miss : ∀ {i}, Past test i.rest → p.parse i = .done .failure

theorem TakesOne.parse_cases {p : Parser α} {test : Char → Bool} {value : Char → α} (h : TakesOne p test value)
    (i : View) : (∃ c cs, i.rest = c :: cs ∧ p.parse i = .done (.success (value c) (i.drop 1))) ∨
      p.parse i = .done .failure := by
  rcases hr : i.rest with _ | ⟨c, cs⟩
  · exact Or.inr (h.miss (hr ▸ past_nil))
  · by_cases hc : test c = true
    · exact Or.inl ⟨c, cs, rfl, h.hit hr hc⟩
    · exact Or.inr (h.miss (hr ▸ past_cons.mpr (by simpa using hc)))

theorem TakesOne.exists_parse_eq {p : Parser α} {test : Char → Bool} {value : Char → α} (h : TakesOne p test value)
    (i : View) : ∃ o, p.parse i = .done o := by
  rcases h.parse_cases i with ⟨c, -, -, hparse⟩ | hparse
  · exact ⟨_, hparse⟩
  · exact ⟨_, hparse⟩

theorem takesOne_satisfy (test : Char → Bool) : TakesOne (satisfy test) test id := by
  have hitem : ∀ i, (satisfy test).parse i =
      (Run.done (.ofOption (i.rest.head?.map fun c => (c, i.drop 1)))).onSuccess
        fun c k => if test c then .done (.success c k) else .done .failure := by
    intro i
    show ((Run.ofExcept i.splitFirst).andThen fun split => Run.done (.ofOption split)).onSuccess _ = _
    rw [View.splitFirst_eq]
    rfl
  constructor
  · intro i c cs h hc
    simp [hitem, h, Outcome.ofOption, hc]
  · intro i h
    rw [hitem]
    rcases hr : i.rest with _ | ⟨c, cs⟩
    · rfl
    · have hc : test c = false := past_cons.mp (hr ▸ h)
      simp [Outcome.ofOption, hc]

theorem takesOne_element (c : Char) : TakesOne (element c) (· == c) id :=
  ⟨fun h hc => (takesOne_satisfy _).hit h hc, fun h => (takesOne_satisfy _).miss h⟩

theorem takesOne_digitValue : TakesOne digitValue Char.isDigit fun c => (c.toNat - '0'.toNat : Nat) := by
  constructor
  · intro i c cs h hc
    simp [digitValue, fromFn, View.splitFirst_eq, h, Run.ofExcept, digitOf, hc]
  · intro i h
    rcases hr : i.rest with _ | ⟨c, cs⟩
    · simp [digitValue, fromFn, View.splitFirst_eq, hr, Run.ofExcept]
    · have hc : c.isDigit = false := past_cons.mp (hr ▸ h)
      simp [digitValue, fromFn, View.splitFirst_eq, hr, Run.ofExcept, digitOf, hc]

/-! ### Runs of characters -/

/-- A fold takes the longest run of characters that pass, whatever its reducer. -/
theorem TakesOne.fold {p : Parser α} {test : Char → Bool} {value : Char → α} (h : TakesOne p test value)
    (reduce : β → α → β) (acc : β) (hi : i.Valid) (hrest : i.rest = u ++ v) (hu : ∀ c ∈ u, test c = true)
    (hv : Past test v) :
    p.fold reduce acc i = .done (u.foldl (fun acc c => reduce acc (value c)) acc, i.drop u.length) := by
  induction u generalizing i acc with
  | nil =>
    rw [fold, h.miss (by rwa [hrest])]
    rfl
  | cons c u ih =>
    obtain ⟨hc, hu⟩ := List.forall_mem_cons.mp hu
    have hshorter : (i.drop 1).len < i.len := hi.len_drop_lt_iff.mpr ⟨Nat.one_pos, by simp [hrest]⟩
    have hnext := ih (reduce acc (value c)) (hi.drop 1) (by simp [hrest]) hu
    rw [fold, h.hit hrest hc]
    simp only [Run.done_andThen, hshorter, if_true, hnext, View.drop_drop, List.foldl_cons, List.length_cons,
      Nat.add_comm 1]

theorem whitespace_parse (hi : i.Valid) (hrest : i.rest = u ++ v) (hu : Spaces u) (hv : Past (· == ' ') v) :
    whitespace.parse i = .done (.success (u.foldl (fun s c => s.push c) "") (i.drop u.length)) := by
  have hblank : ∀ c ∈ u, (c == ' ') = true := fun c hc => beq_iff_eq.mpr (hu c hc)
  have hfold := (takesOne_element ' ').fold (fun s c => s.push c) "" hi hrest hblank hv
  show folded ((element ' ').fold (fun s c => s.push c) "" i) = _
  rw [hfold]
  rfl

/-! ### Texts -/

theorem literal_parse (text : String) (i : View) : (literal text).parse i =
    .done (if text.toList <+: i.rest then .success text (i.drop text.toList.length) else .failure) := by
  show (Run.ofExcept (i.strip text)).andThen _ = _
  rw [View.strip_eq]
  by_cases h : text.toList <+: i.rest
  · simp [h, Run.ofExcept]
  · simp [h, Run.ofExcept]

/-! ### Spaces around a parser -/

section
variable {p : Parser α} {x : α} {k : View} {b w : List Char}

theorem padded_parse (p : Parser α) (i : View) : (padded p).parse i =
    ((whitespace.parse i).onSuccess fun _ j => (p.parse j).onSuccess fun x k => .done (.success x k)).onSuccess
      fun x k => (whitespace.parse k).onSuccess fun _ l => .done (.success x l) := rfl

theorem padded_parse_of_success (hi : i.Valid) (hrest : i.rest = u ++ v) (hu : Spaces u) (hv : Past (· == ' ') v)
    (hp : p.parse (i.drop u.length) = .done (.success x k)) (hk : k.Valid) (hkrest : k.rest = b ++ w) (hb : Spaces b)
    (hw : Past (· == ' ') w) : (padded p).parse i = .done (.success x (k.drop b.length)) := by
  rw [padded_parse, whitespace_parse hi hrest hu hv, Run.done_success_onSuccess, hp, Run.done_success_onSuccess,
    Run.done_success_onSuccess, whitespace_parse hk hkrest hb hw, Run.done_success_onSuccess]

theorem padded_parse_of_failure (hi : i.Valid) (hrest : i.rest = u ++ v) (hu : Spaces u) (hv : Past (· == ' ') v)
    (hp : p.parse (i.drop u.length) = .done .failure) : (padded p).parse i = .done .failure := by
  rw [padded_parse, whitespace_parse hi hrest hu hv, Run.done_success_onSuccess, hp, Run.done_failure_onSuccess,
    Run.done_failure_onSuccess]

theorem token_parse_of_success {text : String} {c : Char} (htext : text.toList = [c]) (hc : c ≠ ' ') (hi : i.Valid)
    (hrest : i.rest = u ++ c :: (b ++ w)) (hu : Spaces u) (hb : Spaces b) (hw : Past (· == ' ') w) :
    (token text).parse i = .done (.success text (i.drop (u ++ c :: b).length)) := by
  have hv : Past (· == ' ') (c :: (b ++ w)) := past_cons.mpr (by simpa using hc)
  have hstart : (i.drop u.length).rest = c :: (b ++ w) := View.drop_length_rest hrest
  have hliteral : (literal text).parse (i.drop u.length) = .done (.success text (i.drop (u ++ [c]).length)) := by
    rw [literal_parse, hstart, htext, if_pos ⟨b ++ w, rfl⟩, View.drop_length_append]
  have hend : (i.drop (u ++ [c]).length).rest = b ++ w := View.drop_length_rest (by simp [hrest])
  have h := padded_parse_of_success hi hrest hu hv hliteral (hi.drop _) hend hb hw
  rw [View.drop_length_append, List.append_assoc] at h
  exact h

theorem token_parse_of_failure {text : String} (hi : i.Valid) (hrest : i.rest = u ++ v) (hu : Spaces u)
    (hv : Past (· == ' ') v) (htext : ¬ text.toList <+: v) : (token text).parse i = .done .failure := by
  have hliteral : (literal text).parse (i.drop u.length) = .done .failure := by
    rw [literal_parse, View.drop_length_rest hrest, if_neg htext]
  have h := padded_parse_of_failure hi hrest hu hv hliteral
  exact h

end

/-! ### Numbers -/

theorem appendDigit_clamp (n : Nat) {d : Nat} (hd : d < 10) :
    appendDigit (Range.unsigned64.clamp n) d = Range.unsigned64.clamp (10 * n + d : Nat) := by
  have hten : (10 : Int) = Range.unsigned64.clamp (10 : Nat) := by decide
  have hdigit : (d : Int) = Range.unsigned64.clamp d :=
    (Range.clamp_natCast_of_le Range.contains_zero_unsigned64
      (Int.le_trans (Int.ofNat_le.mpr (Nat.le_of_lt hd)) (by decide))).symm
  rw [appendDigit, hten, Range.mul_clamp Range.contains_zero_unsigned64, hdigit,
    Range.add_clamp Range.contains_zero_unsigned64, Nat.mul_comm n]

theorem digit_lt_ten {c : Char} (hc : c.isDigit = true) : c.toNat - '0'.toNat < 10 := by
  obtain ⟨-, hle⟩ := Char.isDigit_iff_toNat.mp hc
  have hzero : '0'.toNat = 48 := rfl
  have hnine : '9'.toNat = 57 := rfl
  omega

theorem foldl_appendDigit (hu : Digits u) (n : Nat) :
    u.foldl (fun acc c => appendDigit acc (c.toNat - '0'.toNat : Nat)) (Range.unsigned64.clamp n) =
      Range.unsigned64.clamp (Nat.ofDigitChars 10 u n) := by
  induction u generalizing n with
  | nil => rfl
  | cons c u ih =>
    obtain ⟨hc, hu⟩ := List.forall_mem_cons.mp hu
    rw [List.foldl_cons, appendDigit_clamp n (digit_lt_ten hc), ih hu, Nat.ofDigitChars_cons]

/-- A number is the longest run of digits, with one saturation. -/
theorem integer_parse_of_success (hi : i.Valid) (hrest : i.rest = u ++ v) (hu : Digits u) (hne : u ≠ [])
    (hv : Past Char.isDigit v) :
    integer.parse i = .done (.success (Range.unsigned64.clamp (Nat.ofDigitChars 10 u 0)) (i.drop u.length)) := by
  rcases u with _ | ⟨c, u⟩
  · exact absurd rfl hne
  · obtain ⟨hc, hdigits⟩ := List.forall_mem_cons.mp hu
    have hzero : (0 : Int) = Range.unsigned64.clamp (0 : Nat) := by decide
    have hfold := takesOne_digitValue.fold appendDigit (appendDigit 0 (c.toNat - '0'.toNat : Nat)) (hi.drop 1)
      (show (i.drop 1).rest = u ++ v by simp [hrest]) hdigits hv
    have hvalue := foldl_appendDigit hu 0
    rw [List.foldl_cons, ← hzero] at hvalue
    show (digitValue.parse i).onSuccess _ = _
    rw [takesOne_digitValue.hit hrest hc, Run.done_success_onSuccess, hfold, hvalue, folded, Run.done_andThen,
      View.drop_drop, List.length_cons, Nat.add_comm 1]

theorem integer_parse_of_failure (h : Past Char.isDigit i.rest) : integer.parse i = .done .failure := by
  show (digitValue.parse i).onSuccess _ = _
  rw [takesOne_digitValue.miss h, Run.done_failure_onSuccess]

end Parser
end ParserKit
