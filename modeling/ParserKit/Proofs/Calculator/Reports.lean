import ParserKit.Proofs.Calculator.Evaluation

/-! What an evaluation reports. Everything that the rules of the calculator repeat consumes something wherever it
    matches: a space, a digit, and a sign with an operand after it (`RepeatsConsume`). So no repetition in them ever
    stops at a match that consumes nothing, and the rules report nothing at all: however deep the parentheses nest,
    wherever the text goes wrong, and also where a run is cut off. What is left is the report of the value, which an
    evaluation makes once, after everything has been parsed (`eval_reports`). -/

namespace ParserKit

/-! ### Runs without reports -/

namespace Run
variable {α β : Type} {i k : View} {r : Run (Outcome α)}

theorem events_andThen_eq_nil {r : Run α} {next : α → Run β} (h : r.events = [])
    (hnext : ∀ a, r.ending = .done a → (next a).events = []) : (r.andThen next).events = [] := by
  obtain ⟨es, a | f | -⟩ := r
  · obtain rfl : es = [] := h
    exact hnext a rfl
  · exact h
  · exact h

/-- A run from `i` that reports nothing, and leaves `i` or a later view if it leaves any. -/
structure Mute (i : View) (r : Run (Outcome α)) : Prop where
  events : r.events = []
  later : ∀ {v k}, r.ending = .done (.success v k) → i.Later k

theorem Mute.success (hik : i.Later k) (v : α) : (Run.done (.success v k)).Mute i where
  events := rfl
  later hdone := by
    cases hdone
    exact hik

theorem Mute.failure : (Run.done .failure : Run (Outcome α)).Mute i := ⟨rfl, fun hdone => nomatch hdone⟩

theorem Mute.cut : (Run.cut : Run (Outcome α)).Mute i := ⟨rfl, fun hdone => nomatch hdone⟩

theorem Mute.of_later (hik : i.Later k) (h : r.Mute k) : r.Mute i := ⟨h.events, fun hend => hik.trans (h.later hend)⟩

theorem Mute.andThen {next : Outcome α → Run (Outcome β)} (h : r.Mute i)
    (hsuccess : ∀ v k, r.ending = .done (.success v k) → (next (.success v k)).Mute i)
    (hfailure : (next .failure).Mute i) : (r.andThen next).Mute i := by
  have hnext : ∀ o, r.ending = .done o → (next o).Mute i := by
    rintro (⟨v, k⟩ | -) ho
    · exact hsuccess v k ho
    · exact hfailure
  refine ⟨events_andThen_eq_nil h.events fun o ho => (hnext o ho).events, fun hend => ?_⟩
  obtain ⟨o, ho, hdone⟩ := ending_andThen_eq_done_iff.mp hend
  exact (hnext o ho).later hdone

theorem Mute.onSuccess {next : α → View → Run (Outcome β)} (h : r.Mute i)
    (hnext : ∀ v k, i.Later k → (next v k).Mute i) : (r.onSuccess next).Mute i :=
  h.andThen (fun v k hend => hnext v k (h.later hend)) .failure

theorem Mute.onFailure {other : Unit → Run (Outcome α)} (h : r.Mute i) (hother : (other ()).Mute i) :
    (r.onFailure other).Mute i := h.andThen (fun v _ hend => .success (h.later hend) v) hother

end Run

namespace Parser
open Run
variable {α β γ : Type} {p : Parser α} {q : Parser β} {i k : View} {test : Char → Bool} {value : Char → α}

/-- From every place in a text the parser runs without a report. -/
def Mute (p : Parser α) : Prop := ∀ i : View, i.Valid → (p.parse i).Mute i

/-- Wherever in a text the parser matches, it consumes something. -/
def Consumes (p : Parser α) : Prop :=
  ∀ (i k : View) (v : α), i.Valid → (p.parse i).ending = .done (.success v k) → i.offset < k.offset

/-! ### What consumes something -/

theorem Consumes.combine_left (hc : p.Consumes) (hp : p.Mute) (hq : q.Mute) (f : α → β → γ) :
    (p.combine q f).Consumes := by
  intro i l u hi hend
  obtain ⟨v, k, w, hv, hw, -⟩ := ending_combine_eq_success_iff.mp hend
  have hik := (hp i hi).later hv
  exact Nat.lt_of_lt_of_le (hc i k v hi hv) ((hq k (hik.valid hi)).later hw).offset_le

theorem Consumes.ignorePrevious (hc : p.Consumes) (hp : p.Mute) (hq : q.Mute) : (p.ignorePrevious q).Consumes :=
  hc.combine_left hp hq fun _ w => w

theorem Consumes.combine_right (hp : p.Mute) (hc : q.Consumes) (f : α → β → γ) : (p.combine q f).Consumes := by
  intro i l u hi hend
  obtain ⟨v, k, w, hv, hw, -⟩ := ending_combine_eq_success_iff.mp hend
  have hik := (hp i hi).later hv
  exact Nat.lt_of_le_of_lt hik.offset_le (hc k l w (hik.valid hi) hw)

theorem TakesOne.consumes (h : TakesOne p test value) : p.Consumes := by
  intro i k v _ hend
  rcases h.parse_cases i with ⟨c, cs, hrest, hparse⟩ | hparse
  · rw [hparse] at hend
    cases hend
    exact (i.later_drop 1).offset_lt (by simp [hrest])
  · rw [hparse] at hend
    cases hend

theorem consumes_literal {text : String} (htext : text.toList ≠ []) : (literal text).Consumes := by
  intro i k v _ hend
  rw [literal_parse] at hend
  by_cases hstarts : text.toList <+: i.rest
  · rw [if_pos hstarts] at hend
    cases hend
    have hpos := List.length_pos_iff.mpr htext
    have hle := hstarts.length_le
    refine (i.later_drop _).offset_lt ?_
    rw [View.drop_rest, List.length_drop]
    omega
  · rw [if_neg hstarts] at hend
    cases hend

/-! ### What reports nothing -/

theorem TakesOne.mute (h : TakesOne p test value) : p.Mute := by
  intro i _
  rcases h.parse_cases i with ⟨c, cs, -, hparse⟩ | hparse
  · rw [hparse]
    exact .success (i.later_drop 1) _
  · rw [hparse]
    exact .failure

namespace Mute

theorem run_later (h : p.Mute) (hi : i.Valid) (hik : i.Later k) : (p.parse k).Mute i :=
  (h k (hik.valid hi)).of_later hik

theorem named (h : p.Mute) (n : Thunk String) : (p.named n).Mute := h

theorem literal (text : String) : (Parser.literal text).Mute := by
  intro i _
  rw [literal_parse]
  by_cases hstarts : text.toList <+: i.rest
  · rw [if_pos hstarts]
    exact .success (i.later_drop _) _
  · rw [if_neg hstarts]
    exact .failure

theorem transform (h : p.Mute) (f : α → β) : (p.transform f).Mute := fun i hi =>
  (h i hi).andThen (fun v _ hend => .success ((h i hi).later hend) (f v)) .failure

theorem orWith {q : Parser α} (h : p.Mute) (h' : q.Mute) : (p.orWith q).Mute := by
  intro i hi
  rw [orWith_parse]
  exact (h i hi).onFailure (h' i hi)

theorem combine (h : p.Mute) (h' : q.Mute) (f : α → β → γ) : (p.combine q f).Mute := fun i hi =>
  (h i hi).onSuccess fun v _ hk => (h'.run_later hi hk).onSuccess fun w _ hl => .success hl (f v w)

theorem ignore (h : p.Mute) (h' : q.Mute) : (p.ignore q).Mute := (h.combine h' _).named _

theorem ignorePrevious (h : p.Mute) (h' : q.Mute) : (p.ignorePrevious q).Mute := (h.combine h' _).named _

/-- A loop over a parser that always consumes something ends only where the parser fails. -/
theorem folded (h : p.Mute) (hc : p.Consumes) (hi : i.Valid) (reduce : β → α → β) (acc : β) :
    (Parser.folded (p.fold reduce acc i)).Mute i := by
  induction hlen : i.len using Nat.strongRecOn generalizing i acc with
  | ind n ih =>
    rw [fold, Parser.folded, Run.andThen_assoc]
    refine (h i hi).andThen (fun v k hend => ?_) (.success (.refl i) acc)
    have hik := (h i hi).later hend
    -- the match consumes something, so the branch of the loop that reports is not taken
    have hshorter : k.len < i.len := (hik.len_lt_iff hi).mpr (hc i k v hi hend)
    simp only [hshorter, if_true]
    exact (ih k.len (hlen ▸ hshorter) (hik.valid hi) (reduce acc v) rfl).of_later hik

theorem many (h : p.Mute) (hc : p.Consumes) (seed : β) (reduce : β → α → β) : (p.many seed reduce).Mute :=
  fun _ hi => h.folded hc hi reduce seed

theorem many1 (h : p.Mute) (hc : p.Consumes) (seed : β) (reduce : β → α → β) : (p.many1 seed reduce).Mute :=
  fun i hi => (h i hi).onSuccess fun v _ hk => (h.folded hc (hk.valid hi) reduce (reduce seed v)).of_later hk

theorem separatedBy {separator : Parser β} (h : p.Mute) (h' : separator.Mute) (hc : separator.Consumes) (seed : γ)
    (reduce : γ → α → γ) : (p.separatedBy separator seed reduce).Mute := by
  refine fun i hi => (h i hi).onSuccess fun v k hk => ?_
  -- a separator that consumes something is enough: its item may be of any width
  exact ((h'.ignorePrevious h).folded (hc.ignorePrevious h' h) (hk.valid hi) reduce (reduce seed v)).of_later hk

/-! ### Tokens and numbers -/

theorem element (c : Char) : (Parser.element c).Mute := (takesOne_element c).mute

theorem whitespace : Parser.whitespace.Mute :=
  (((element ' ').many (takesOne_element ' ').consumes _ _).named _).named _

theorem padded (h : p.Mute) : p.padded.Mute := ((whitespace.ignorePrevious h).ignore whitespace).named _

theorem token (text : String) : (Parser.token text).Mute := (literal text).padded.named _

theorem integer : Parser.integer.Mute := (takesOne_digitValue.mute.many1 takesOne_digitValue.consumes _ _).named _

end Mute

theorem Consumes.padded (hc : p.Consumes) (h : p.Mute) : p.padded.Consumes :=
  (Consumes.combine_right Mute.whitespace hc _).combine_left (Mute.whitespace.ignorePrevious h) Mute.whitespace _

theorem consumes_token {text : String} (htext : text.toList ≠ []) : (token text).Consumes :=
  (consumes_literal htext).padded (.literal text)

end Parser

namespace Calculator
open ParserKit.Parser

/-! ### The rules -/

section
variable {inner : Parser Int}

theorem mute_factorOver (h : inner.Mute) : (factorOver inner).Mute :=
  ((((Mute.element '(').ignorePrevious h).ignore (.element ')')).orWith (Mute.integer.transform _)).padded.named _

theorem mute_termOver (h : inner.Mute) : (termOver inner).Mute :=
  ((mute_factorOver h).separatedBy (.token "*") (consumes_token (by decide)) _ _).named _

theorem mute_exprOver (h : inner.Mute) : (exprOver inner).Mute :=
  ((mute_termOver h).separatedBy (.token "+") (consumes_token (by decide)) _ _).named _

end

/-- However deep the parentheses may nest: also a run that is cut off has reported nothing. -/
theorem mute_exprWithin (depth : Nat) : (exprWithin depth).Mute := by
  induction depth with
  | zero => exact fun _ _ => .cut
  | succ depth ih =>
    have hinner : (lazy fun _ => exprWithin depth).Mute := ih
    exact mute_exprOver hinner

theorem mute_innerWithin (depth : Nat) : (innerWithin depth).Mute := mute_exprWithin depth

theorem mute_unbounded {rule : Parser Int → Parser Int} (h : ∀ {inner : Parser Int}, inner.Mute → (rule inner).Mute) :
    (unbounded rule).Mute := fun i hi => h (mute_innerWithin (nesting i)) i hi

theorem mute_expr : expr.Mute := mute_unbounded mute_exprOver

theorem mute_term : term.Mute := mute_unbounded mute_termOver

theorem mute_factor : factor.Mute := mute_unbounded mute_factorOver

/-- What is repeated in the rules: spaces, digits, and signs with an operand after each. -/
structure RepeatsConsume : Prop where
  space : (element ' ').Consumes
  digit : digitValue.Consumes
  factor : ∀ depth, ((token "*").ignorePrevious (factorOver (innerWithin depth))).Consumes
  term : ∀ depth, ((token "+").ignorePrevious (termOver (innerWithin depth))).Consumes

theorem repeatsConsume : RepeatsConsume where
  space := (takesOne_element ' ').consumes
  digit := takesOne_digitValue.consumes
  factor depth := (consumes_token (by decide)).ignorePrevious (.token "*") (mute_factorOver (mute_innerWithin depth))
  term depth := (consumes_token (by decide)).ignorePrevious (.token "+") (mute_termOver (mute_innerWithin depth))

/-! ### Evaluation -/

theorem events_parseComplete {α : Type} {p : Parser α} (h : p.Mute) (text : String) :
    (p.parseComplete text).events = [] := by
  refine Run.events_andThen_eq_nil (h _ (View.valid_ofBuffer _)).events fun o _ => ?_
  rcases completed o with f | result
  · rfl
  · rfl

/-- A value is reported when it is there, and nothing else ever is. -/
theorem events_eval (text : String) :
    (∃ v, (eval text).ending = .done (.ok v) ∧ (eval text).events = [.evaluated text v]) ∨
      (∀ v, (eval text).ending ≠ .done (.ok v)) ∧ (eval text).events = [] := by
  have hparse := events_parseComplete mute_expr text
  rw [eval]
  generalize expr.parseComplete text = r at hparse ⊢
  obtain ⟨es, (e | v) | f | -⟩ := r
  all_goals obtain rfl : es = [] := hparse
  · refine Or.inr ⟨fun v hv => ?_, rfl⟩
    cases hv
  · exact Or.inl ⟨v, rfl, rfl⟩
  · refine Or.inr ⟨fun v hv => ?_, rfl⟩
    cases hv
  · refine Or.inr ⟨fun v hv => ?_, rfl⟩
    cases hv

theorem eq_evaluated_of_mem {text : String} {e : Event} (he : e ∈ (eval text).events) : ∃ v, e = .evaluated text v := by
  rcases events_eval text with ⟨v, -, hevents⟩ | ⟨-, hevents⟩
  · rw [hevents] at he
    exact ⟨v, List.mem_singleton.mp he⟩
  · rw [hevents] at he
    cases he

theorem halts_eval (text : String) : ∃ result, (eval text).ending = .done result := by
  rcases eval_reads text with ⟨n, -, heval⟩ | ⟨w, u, n, -, -, -, heval⟩ | ⟨-, heval⟩
  · exact ⟨_, congrArg Run.ending heval⟩
  · exact ⟨_, congrArg Run.ending heval⟩
  · exact ⟨_, congrArg Run.ending heval⟩

/-- All that an evaluation of the text reports. -/
structure EvalReports (text : String) : Prop where
  halts : ∃ result, (eval text).ending = .done result
  error : ∀ e, (eval text).ending = .done (.error e) → (eval text).events = []
  ok : ∀ v, (eval text).ending = .done (.ok v) → (eval text).events = [.evaluated text v]
  level : ∀ e ∈ (eval text).events, e.level = .debug
  neverStops : ∀ parser offset, .stopped parser offset ∉ (eval text).events

theorem evalReports (text : String) : EvalReports text where
  halts := halts_eval text
  error e he := by
    rcases events_eval text with ⟨v, hv, -⟩ | ⟨-, hevents⟩
    · rw [hv] at he
      cases he
    · exact hevents
  ok w hw := by
    rcases events_eval text with ⟨v, hv, hevents⟩ | ⟨hne, -⟩
    · rw [hv] at hw
      cases hw
      exact hevents
    · exact absurd hw (hne w)
  level e he := by
    obtain ⟨v, rfl⟩ := eq_evaluated_of_mem he
    rfl
  neverStops parser offset hstop := by
    obtain ⟨v, hv⟩ := eq_evaluated_of_mem hstop
    cases hv

/-- Everything that the rules repeat consumes something, and so the rules have nothing to report, from any place in a
    text and down to any depth. An evaluation comes to a result, and reports its value if that is one. -/
theorem eval_reports :
    RepeatsConsume ∧ (∀ depth, (exprWithin depth).Mute) ∧ (expr.Mute ∧ term.Mute ∧ factor.Mute) ∧
      ∀ text, EvalReports text :=
  ⟨repeatsConsume, mute_exprWithin, ⟨mute_expr, mute_term, mute_factor⟩, evalReports⟩

example : eval " (1 + 2)*3 " = ⟨[.evaluated " (1 + 2)*3 " 9], .done (.ok 9)⟩ := by cbv

end Calculator
end ParserKit
