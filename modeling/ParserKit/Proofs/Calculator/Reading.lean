import ParserKit.Calculator.Expr
import ParserKit.Proofs.Calculator.Longest
import ParserKit.Proofs.Parser.Reading

/-! What the rules of the calculator make of a text. From every valid view each rule takes the longest text of
    its part, with the number that this text stands for moved into the range of the words once, and fails where
    there is none (`Reads`). Neither can happen in more than one way, so these are whole runs: they have no
    events and end for good.

    The rules go round in a circle through parentheses. Going round uses up an opening parenthesis, and so the
    rounds that `unbounded` gives to a rule are enough. -/

namespace ParserKit.Calculator
open Text ParserKit.Parser

/-! ### Operators on words -/

namespace Operator

def token : Operator → String
  | add => "+"
  | mul => "*"

def saturating : Operator → Int → Int → Int
  | add => Range.signed64.add
  | mul => Range.signed64.mul

theorem toList_token (op : Operator) : op.token.toList = [op.sign] := by cases op <;> rfl

theorem sign_ne_space (op : Operator) : op.sign ≠ ' ' := by cases op <;> decide

theorem saturating_clamp (op : Operator) (m n : Nat) :
    op.saturating (Range.signed64.clamp m) (Range.signed64.clamp n) = Range.signed64.clamp (op.apply m n) := by
  cases op
  · exact Range.add_clamp Range.contains_zero_signed64 m n
  · exact Range.mul_clamp Range.contains_zero_signed64 m n

theorem clamp_unit (op : Operator) : Range.signed64.clamp op.unit = op.unit := by cases op <;> decide

end Operator

/-! ### Reading a part -/

/-- The run takes the longest text of the part, or fails because there is none. -/
def Reads (p : Part) (i : View) (r : Run (Outcome Int)) : Prop :=
  (∃ w n, Longest p i.rest w n ∧ r = .done (.success (Range.signed64.clamp n) (i.drop w.length))) ∨
    Nowhere p i.rest ∧ r = .done .failure

section
variable {p : Parser Int} {op : Operator} {i j : View}

/-- One sign with an operand after it is read, or nothing that follows an operand is there. -/
theorem link_reads (hi : i.Valid) (hp : ∀ j, i.Later j → Reads (.operand op) j (p.parse j)) :
    (∃ a b w z m, Spaces a ∧ Spaces b ∧ i.rest = a ++ op.sign :: (b ++ (w ++ z)) ∧
        Longest (.operand op) (w ++ z) w m ∧ ((token op.token).ignorePrevious p).parse i =
          .done (.success (Range.signed64.clamp m) (i.drop (a ++ op.sign :: (b ++ w)).length))) ∨
      Longest (.more op) i.rest [] op.unit ∧ ((token op.token).ignorePrevious p).parse i = .done .failure := by
  have hlink : ((token op.token).ignorePrevious p).parse i = ((token op.token).parse i).onSuccess
      fun _ k => (p.parse k).onSuccess fun v k => .done (.success v k) := rfl
  rw [hlink]
  obtain ⟨a, v, hrest, ha, hv⟩ := exists_spaces i.rest
  by_cases hsign : Past (· == op.sign) v
  · have htoken : ¬ op.token.toList <+: v := by
      rintro ⟨z, rfl⟩
      simp [Past, op.toList_token] at hsign
    rw [token_parse_of_failure hi hrest ha hv htoken, Run.done_failure_onSuccess, hrest]
    exact Or.inr ⟨longest_more_of_past ha hv hsign, rfl⟩
  · obtain ⟨u, rfl⟩ := exists_cons_of_not_past hsign
    obtain ⟨b, v, rfl, hb, hv'⟩ := exists_spaces u
    have hafter : (i.drop (a ++ op.sign :: b).length).rest = v := View.drop_length_rest (by simp [hrest])
    rw [token_parse_of_success op.toList_token op.sign_ne_space hi hrest ha hb hv', Run.done_success_onSuccess]
    rcases hp _ (i.later_drop _) with ⟨w, m, hlongest, hparse⟩ | ⟨hnowhere, hparse⟩
    · rw [hafter] at hlongest
      obtain ⟨z, rfl⟩ := hlongest.starts
      rw [hparse, Run.done_success_onSuccess, View.drop_length_append, List.append_assoc, List.cons_append]
      exact Or.inl ⟨a, b, w, z, m, ha, hb, hrest, hlongest, rfl⟩
    · rw [hafter] at hnowhere
      rw [hparse, Run.done_failure_onSuccess, hrest]
      exact Or.inr ⟨hnowhere.list.more ha hb, rfl⟩

/-- Signs with operands are folded up to the end of the longest text that they form. -/
theorem fold_reads (hi : i.Valid) (hp : ∀ j, i.Later j → Reads (.operand op) j (p.parse j)) (acc : Nat) :
    ∃ w n, Longest (.more op) i.rest w n ∧
      ((token op.token).ignorePrevious p).fold op.saturating (Range.signed64.clamp acc) i =
        .done (Range.signed64.clamp (op.apply acc n), i.drop w.length) := by
  induction hlen : i.rest.length using Nat.strongRecOn generalizing i acc with
  | ind len ih =>
    rw [fold]
    rcases link_reads hi hp with ⟨a, b, w, z, m, ha, hb, hrest, hlongest, hlink⟩ | ⟨hlongest, hlink⟩
    · have hend : (i.drop (a ++ op.sign :: (b ++ w)).length).rest = z := View.drop_length_rest (by simp [hrest])
      have hshorter : (i.drop (a ++ op.sign :: (b ++ w)).length).len < i.len :=
        hi.len_drop_lt_iff.mpr ⟨List.length_pos_iff.mpr (by simp), by simp [hrest]⟩
      obtain ⟨t, n, ht, hfold⟩ := ih z.length (by simp [← hlen, hrest]; omega) (hi.drop _)
        (fun j hj => hp j ((i.later_drop _).trans hj)) (op.apply acc m) (by rw [hend])
      rw [hend] at ht
      have hmore := (hlongest.list ht).more ha hb
      refine ⟨a ++ op.sign :: (b ++ (w ++ t)), op.apply m n, by rw [hrest]; exact hmore, ?_⟩
      simp only [hlink, Run.done_andThen, hshorter, if_true, op.saturating_clamp, hfold, op.apply_assoc,
        View.drop_length_append, List.append_assoc, List.cons_append]
    · refine ⟨[], op.unit, hlongest, ?_⟩
      rw [hlink, Run.done_andThen, op.apply_unit]
      rfl

theorem separatedBy_reads (hi : i.Valid) (hp : ∀ j, i.Later j → Reads (.operand op) j (p.parse j)) :
    Reads (.list op) i ((separatedBy p (token op.token) (op.unit : Int) op.saturating).parse i) := by
  have hlist : (separatedBy p (token op.token) (op.unit : Int) op.saturating).parse i = (p.parse i).onSuccess
      fun v k => folded (((token op.token).ignorePrevious p).fold op.saturating (op.saturating op.unit v) k) := rfl
  rw [hlist]
  rcases hp i (.refl i) with ⟨w, m, hlongest, hparse⟩ | ⟨hnowhere, hparse⟩
  · obtain ⟨z, hz⟩ := hlongest.starts
    have hend : (i.drop w.length).rest = z := View.drop_length_rest hz.symm
    obtain ⟨t, n, ht, hfold⟩ := fold_reads (hi.drop w.length) (fun j hj => hp j ((i.later_drop _).trans hj)) m
    rw [hend] at ht
    rw [← hz] at hlongest
    have hseed : op.saturating op.unit (Range.signed64.clamp m) = Range.signed64.clamp m := by
      rw [← op.clamp_unit, op.saturating_clamp, op.unit_apply]
    rw [hparse, Run.done_success_onSuccess, hseed, hfold, folded, Run.done_andThen, View.drop_length_append]
    exact Or.inl ⟨w ++ t, op.apply m n, by rw [← hz]; exact hlongest.list ht, rfl⟩
  · rw [hparse, Run.done_failure_onSuccess]
    exact Or.inr ⟨hnowhere.list, rfl⟩

end

/-! ### Factors -/

def bracketed (inner : Parser Int) : Parser Int := ((element '(').ignorePrevious inner).ignore (element ')')

def number : Parser Int := integer.transform Range.signed64.clamp

section
variable {inner : Parser Int} {i : View} {a u v w z : List Char} {n : Nat}

theorem factorOver_parse (inner : Parser Int) (i : View) :
    (factorOver inner).parse i = (padded ((bracketed inner).orWith number)).parse i := rfl

theorem bracketed_parse (inner : Parser Int) (i : View) : (bracketed inner).parse i =
    (((element '(').parse i).onSuccess fun _ j => (inner.parse j).onSuccess fun v k => .done (.success v k)).onSuccess
      fun v k => ((element ')').parse k).onSuccess fun _ k => .done (.success v k) := rfl

theorem bracketed_parse_of_past (h : Past (· == '(') i.rest) : (bracketed inner).parse i = .done .failure := by
  rw [bracketed_parse, (takesOne_element '(').miss h, Run.done_failure_onSuccess, Run.done_failure_onSuccess]

theorem number_parse_of_success (hi : i.Valid) (hrest : i.rest = u ++ v) (hu : Digits u) (hne : u ≠ [])
    (hv : Past Char.isDigit v) :
    number.parse i = .done (.success (Range.signed64.clamp (Nat.ofDigitChars 10 u 0)) (i.drop u.length)) := by
  have hclamp : ∀ m : Nat, Range.signed64.clamp (Range.unsigned64.clamp m) = Range.signed64.clamp m :=
    Range.clamp_clamp_of_le Range.contains_zero_signed64 Range.contains_zero_unsigned64 (by decide)
  show (integer.parse i).andThen _ = _
  rw [integer_parse_of_success hi hrest hu hne hv, Run.done_andThen, Outcome.map, hclamp]

theorem number_parse_of_failure (h : Past Char.isDigit i.rest) : number.parse i = .done .failure := by
  show (integer.parse i).andThen _ = _
  rw [integer_parse_of_failure h]
  rfl

theorem factor_reads_number (hi : i.Valid) (hrest : i.rest = a ++ v) (ha : Spaces a) (hspaces : Past (· == ' ') v)
    (hopen : Past (· == '(') v) : Reads .factor i ((factorOver inner).parse i) := by
  have hstart : (i.drop a.length).rest = v := View.drop_length_rest hrest
  have hbody : ((bracketed inner).orWith number).parse (i.drop a.length) = number.parse (i.drop a.length) := by
    rw [orWith_parse, bracketed_parse_of_past (by rwa [hstart]), Run.done_failure_onFailure]
  obtain ⟨ds, y, rfl, hds, hy⟩ := exists_span Char.isDigit v
  by_cases hne : ds = []
  · subst hne
    rw [number_parse_of_failure (by rwa [hstart])] at hbody
    rw [factorOver_parse, padded_parse_of_failure hi hrest ha hspaces hbody]
    exact Or.inr ⟨by rw [hrest]; exact nowhere_factor ha hspaces hopen hy, rfl⟩
  · obtain ⟨b, z, rfl, hb, hz⟩ := exists_spaces y
    refine Or.inl ⟨_, _, by rw [hrest]; exact longest_number ha hds hne hb hy hz, ?_⟩
    rw [number_parse_of_success (hi.drop _) hstart hds hne hy, View.drop_length_append] at hbody
    have hend : (i.drop (a ++ ds).length).rest = b ++ z := View.drop_length_rest (by simp [hrest])
    rw [factorOver_parse, padded_parse_of_success hi hrest ha hspaces hbody (hi.drop _) hend hb hz,
      View.drop_length_append, List.append_assoc]

theorem bracketed_parse_of_open (hrest : i.rest = '(' :: u) : (bracketed inner).parse i =
    ((inner.parse (i.drop 1)).onSuccess fun v k => .done (.success v k)).onSuccess
      fun v k => ((element ')').parse k).onSuccess fun _ k => .done (.success v k) := by
  rw [bracketed_parse, (takesOne_element '(').hit hrest rfl, Run.done_success_onSuccess]

/-- Where a parenthesis is opened and not closed, there is no number either. -/
theorem factor_reads_of_unclosed (hi : i.Valid) (hrest : i.rest = a ++ '(' :: u) (ha : Spaces a)
    (hnowhere : Nowhere .factor (a ++ '(' :: u))
    (hbracketed : (bracketed inner).parse (i.drop a.length) = .done .failure) :
    Reads .factor i ((factorOver inner).parse i) := by
  have hspaces : Past (· == ' ') ('(' :: u) := past_cons.mpr (by decide)
  have hnumber : Past Char.isDigit (i.drop a.length).rest := by
    rw [View.drop_length_rest hrest]
    exact past_cons.mpr (by decide)
  have hbody : ((bracketed inner).orWith number).parse (i.drop a.length) = .done .failure := by
    rw [orWith_parse, hbracketed, Run.done_failure_onFailure, number_parse_of_failure hnumber]
  rw [factorOver_parse, padded_parse_of_failure hi hrest ha hspaces hbody]
  exact Or.inr ⟨by rwa [hrest], rfl⟩

theorem factor_reads_group (hi : i.Valid) (hrest : i.rest = a ++ '(' :: u) (ha : Spaces a)
    (hinner : Reads .expr (i.drop (a ++ ['(']).length) (inner.parse (i.drop (a ++ ['(']).length))) :
    Reads .factor i ((factorOver inner).parse i) := by
  have hspaces : Past (· == ' ') ('(' :: u) := past_cons.mpr (by decide)
  have hinside : (i.drop (a ++ ['(']).length).rest = u := View.drop_length_rest (by simp [hrest])
  have hopen : (bracketed inner).parse (i.drop a.length) = _ := bracketed_parse_of_open (View.drop_length_rest hrest)
  have hdrop : (i.drop a.length).drop 1 = i.drop (a ++ ['(']).length := View.drop_length_append i a ['(']
  rw [hdrop] at hopen
  rcases hinner with ⟨w, n, hlongest, hparse⟩ | ⟨hnowhere, hparse⟩
  · rw [hinside] at hlongest
    obtain ⟨z, rfl⟩ := hlongest.starts
    have hafter : (i.drop (a ++ '(' :: w).length).rest = z := View.drop_length_rest (by simp [hrest])
    rw [hparse, Run.done_success_onSuccess, Run.done_success_onSuccess, View.drop_length_append, List.append_assoc,
      List.singleton_append] at hopen
    by_cases hclose : Past (· == ')') z
    · refine factor_reads_of_unclosed hi hrest ha (hlongest.nowhere_group hclose ha) ?_
      rw [hopen, (takesOne_element ')').miss (by rwa [hafter]), Run.done_failure_onSuccess]
    · obtain ⟨y, rfl⟩ := exists_cons_of_not_past hclose
      obtain ⟨b, z, rfl, hb, hz⟩ := exists_spaces y
      have hend : (i.drop ((a ++ '(' :: w) ++ [')']).length).rest = b ++ z := View.drop_length_rest (by simp [hrest])
      have hbody : ((bracketed inner).orWith number).parse (i.drop a.length) =
          .done (.success (Range.signed64.clamp n) (i.drop ((a ++ '(' :: w) ++ [')']).length)) := by
        rw [orWith_parse, hopen, (takesOne_element ')').hit hafter rfl, Run.done_success_onSuccess,
          Run.done_success_onFailure, ← View.drop_length_append i (a ++ '(' :: w) [')']]
        rfl
      refine Or.inl ⟨_, n, by rw [hrest]; exact hlongest.group ha hb hz, ?_⟩
      rw [factorOver_parse, padded_parse_of_success hi hrest ha hspaces hbody (hi.drop _) hend hb hz,
        View.drop_length_append]
      simp only [List.append_assoc, List.cons_append, List.nil_append]
  · rw [hinside] at hnowhere
    refine factor_reads_of_unclosed hi hrest ha (hnowhere.group ha) ?_
    rw [hopen, hparse, Run.done_failure_onSuccess, Run.done_failure_onSuccess]

end

/-! ### The circle of rules -/

/-- Between parentheses that are opened from here on, `inner` reads expressions. -/
def Closes (inner : Parser Int) (i : View) : Prop :=
  ∀ j, i.Later j → j.rest.count '(' < i.rest.count '(' → Reads .expr j (inner.parse j)

section
variable {inner : Parser Int} {i j : View}

theorem count_rest_le (hij : i.Later j) : j.rest.count '(' ≤ i.rest.count '(' := by
  obtain ⟨n, rfl⟩ := hij
  exact (List.drop_sublist n i.rest).count_le '('

theorem Closes.later (h : Closes inner i) (hij : i.Later j) : Closes inner j := by
  intro k hjk hlt
  exact h k (hij.trans hjk) (Nat.lt_of_lt_of_le hlt (count_rest_le hij))

theorem factor_reads (hi : i.Valid) (h : Closes inner i) : Reads .factor i ((factorOver inner).parse i) := by
  obtain ⟨a, v, hrest, ha, hv⟩ := exists_spaces i.rest
  by_cases hopen : Past (· == '(') v
  · exact factor_reads_number hi hrest ha hv hopen
  · obtain ⟨u, rfl⟩ := exists_cons_of_not_past hopen
    have hinside : (i.drop (a ++ ['(']).length).rest = u := View.drop_length_rest (by simp [hrest])
    refine factor_reads_group hi hrest ha (h _ (i.later_drop _) ?_)
    rw [hinside, hrest]
    simp
    omega

theorem term_reads (hi : i.Valid) (h : Closes inner i) : Reads .term i ((termOver inner).parse i) := by
  have hlist : (termOver inner).parse i = (separatedBy (factorOver inner) (token (Operator.token .mul))
      (Operator.unit .mul : Int) (Operator.saturating .mul)).parse i := rfl
  rw [hlist]
  exact separatedBy_reads hi fun j hij => factor_reads (hij.valid hi) (h.later hij)

theorem expr_reads (hi : i.Valid) (h : Closes inner i) : Reads .expr i ((exprOver inner).parse i) := by
  have hlist : (exprOver inner).parse i = (separatedBy (termOver inner) (token (Operator.token .add))
      (Operator.unit .add : Int) (Operator.saturating .add)).parse i := rfl
  rw [hlist]
  exact separatedBy_reads hi fun j hij => term_reads (hij.valid hi) (h.later hij)

/-- As many rounds as there are parentheses to open are enough. -/
theorem exprWithin_reads {depth : Nat} (hi : i.Valid) (hdepth : i.rest.count '(' < depth) :
    Reads .expr i ((exprWithin depth).parse i) := by
  induction depth generalizing i with
  | zero => omega
  | succ depth ih =>
    refine expr_reads hi fun j hij hlt => ?_
    exact ih (hij.valid hi) (by omega)

theorem closes_innerWithin (hi : i.Valid) : Closes (innerWithin (nesting i)) i := by
  intro j hij hlt
  exact exprWithin_reads (hij.valid hi) hlt

end

theorem unbounded_parse (rule : Parser Int → Parser Int) (i : View) :
    (unbounded rule).parse i = (rule (innerWithin (nesting i))).parse i := rfl

section
variable {i : View}

theorem reads_expr (hi : i.Valid) : Reads .expr i (expr.parse i) := by
  rw [expr, unbounded_parse]
  exact expr_reads hi (closes_innerWithin hi)

theorem reads_term (hi : i.Valid) : Reads .term i (term.parse i) := by
  rw [term, unbounded_parse]
  exact term_reads hi (closes_innerWithin hi)

theorem reads_factor (hi : i.Valid) : Reads .factor i (factor.parse i) := by
  rw [factor, unbounded_parse]
  exact factor_reads hi (closes_innerWithin hi)

end

end ParserKit.Calculator
