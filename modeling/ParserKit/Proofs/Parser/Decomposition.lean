import ParserKit.Proofs.Parser.Repetition

/-! Repetitions taken apart. A repetition that wants a first match is that match and then a repetition that starts
    with its value; one that counts can be interrupted after any of its matches (`repetitions_decompose`). All of this
    holds of whole runs, with their events. The first match is not subject to the test that ends a loop. So one or more
    differs from zero or more where nothing matches, and where something matches that consumes nothing, and nowhere
    else. -/

namespace ParserKit

namespace Run
variable {α β γ : Type}

theorem andThen_of_ending {r : Run α} {a : α} (h : r.ending = .done a) (next : α → Run β) :
    r.andThen next = (next a).after r.events := by rw [andThen, h]

theorem onSuccess_of_ending {r : Run (Outcome α)} {v : α} {k : View} (h : r.ending = .done (.success v k))
    (next : α → View → Run (Outcome β)) : r.onSuccess next = (next v k).after r.events := andThen_of_ending h _

theorem onSuccess_of_failure {r : Run (Outcome α)} (h : r.ending = .done .failure)
    (next : α → View → Run (Outcome β)) : r.onSuccess next = ⟨r.events, .done .failure⟩ := by
  rw [onSuccess, andThen_of_ending h]
  simp [done, after]

theorem onSuccess_assoc (r : Run (Outcome α)) (f : α → View → Run (Outcome β)) (g : β → View → Run (Outcome γ)) :
    (r.onSuccess f).onSuccess g = r.onSuccess fun v k => (f v k).onSuccess g := by
  rw [onSuccess, onSuccess, andThen_assoc]
  refine congrArg r.andThen (funext fun o => ?_)
  rcases o with ⟨v, k⟩ | -
  · rfl
  · rfl

end Run

namespace Parser
variable {α β σ : Type} {p : Parser α} {separator : Parser σ} {i k : View}

/-! ### Counted matches -/

/-- So many matches and then so many more are as many as both together. -/
theorem repeatFrom_add (p : Parser α) (reduce : β → α → β) (m n : Nat) (acc : β) (i : View) :
    p.repeatFrom reduce (m + n) acc i =
      (p.repeatFrom reduce m acc i).onSuccess fun acc k => p.repeatFrom reduce n acc k := by
  induction m generalizing acc i with
  | zero => rw [Nat.zero_add, repeatFrom, Run.done_success_onSuccess]
  | succ m ih =>
    rw [Nat.succ_add, repeatFrom, repeatFrom, Run.onSuccess_assoc]
    exact congrArg (p.parse i).onSuccess (funext fun v => funext fun k => ih (reduce acc v) k)

/-! ### The first match -/

theorem many_parse (p : Parser α) (seed : β) (reduce : β → α → β) (i : View) :
    (p.many seed reduce).parse i = folded (p.fold reduce seed i) := rfl

theorem many1_parse (p : Parser α) (seed : β) (reduce : β → α → β) (i : View) :
    (p.many1 seed reduce).parse i = (p.parse i).onSuccess fun v k => (p.many (reduce seed v) reduce).parse k := rfl

theorem ending_many_ne_failure (p : Parser α) (seed : β) (reduce : β → α → β) (i : View) :
    ((p.many seed reduce).parse i).ending ≠ .done .failure := ending_folded_ne_failure _

theorem ending_many1_eq_failure_iff (p : Parser α) (seed : β) (reduce : β → α → β) (i : View) :
    ((p.many1 seed reduce).parse i).ending = .done .failure ↔ (p.parse i).ending = .done .failure := by
  rw [many1_parse, Run.ending_onSuccess_eq_failure_iff]
  refine ⟨?_, Or.inl⟩
  rintro (hp | ⟨v, k, -, hmany⟩)
  · exact hp
  · exact absurd hmany (ending_many_ne_failure p (reduce seed v) reduce k)

/-- A first match that consumes something passes the test of the loop, so that it makes no difference whether it is
    looked for inside of the loop or before it. -/
theorem many1_parse_of_consumes (hi : i.Valid) (hik : i.Later k) {v : α}
    (hp : (p.parse i).ending = .done (.success v k)) (hlt : i.offset < k.offset) (seed : β) (reduce : β → α → β) :
    (p.many1 seed reduce).parse i = (p.many seed reduce).parse i := by
  have hlen : k.len < i.len := (hik.len_lt_iff hi).mpr hlt
  have hfold : p.fold reduce seed i = (p.fold reduce (reduce seed v) k).after (p.parse i).events := by
    rw [fold, Run.andThen_of_ending hp]
    simp only [hlen, if_true]
  rw [many1_parse, Run.onSuccess_of_ending hp, many_parse, many_parse, hfold, folded, folded, Run.after_andThen]

theorem ending_many_of_stops (hstops : Stops p i) (seed : β) (reduce : β → α → β) :
    ((p.many seed reduce).parse i).ending = .done (.success seed i) :=
  ending_folded_eq_success_iff.mpr (fold_of_stops hstops reduce seed)

/-! ### All of them -/

/-- How the repetitions of `p` from `i` are made of a first part and a repetition after it. -/
structure Decomposes (p : Parser α) (separator : Parser σ) (seed : β) (reduce : β → α → β) (i : View) : Prop where
  many1 : (p.many1 seed reduce).parse i = (p.bind fun v => p.many (reduce seed v) reduce).parse i
  separatedBy : (p.separatedBy separator seed reduce).parse i =
    (p.bind fun v => (separator.ignorePrevious p).many (reduce seed v) reduce).parse i
  exactlyN : ∀ m n, (p.exactlyN seed reduce (m + n)).parse i =
    ((p.exactlyN seed reduce m).bind fun acc => p.exactlyN acc reduce n).parse i
  fails : ((p.many1 seed reduce).parse i).ending = .done .failure ↔ (p.parse i).ending = .done .failure
  consumes : ∀ v k, (p.parse i).ending = .done (.success v k) → i.offset < k.offset →
    (p.many1 seed reduce).parse i = (p.many seed reduce).parse i
  /-- A first match that consumes nothing counts, unless it is looked for inside of the loop. -/
  zeroWidth : ∀ z k, (p.parse i).ending = .done (.success z k) → k.offset = i.offset →
    ((p.many1 seed reduce).parse i).ending = .done (.success (reduce seed z) i) ∧
    ((p.many seed reduce).parse i).ending = .done (.success seed i)

/-- Whatever is repeated, with whatever separator, seed and reducer. -/
theorem repetitions_decompose {b : Buffer} {offset : Nat} (hi : View.startingAt b offset = .ok i)
    (hp : p.StaysInText i) (separator : Parser σ) (seed : β) (reduce : β → α → β) :
    Decomposes p separator seed reduce i := by
  obtain ⟨-, -, hvalid⟩ := View.startingAt_eq_ok_iff.mp hi
  refine ⟨rfl, rfl, fun m n => repeatFrom_add p reduce m n seed i, ending_many1_eq_failure_iff p seed reduce i,
    fun v k hv hlt => ?_, fun z k hz hk => ?_⟩
  · exact many1_parse_of_consumes hvalid (hp.later hvalid hv) hv hlt seed reduce
  · obtain rfl : k = i := (hp.later hvalid hz).eq_of_offset_le (Nat.le_of_eq hk)
    have hstops : Stops p k := Or.inr ⟨z, hz⟩
    refine ⟨?_, ending_many_of_stops hstops seed reduce⟩
    rw [many1_parse, Run.ending_onSuccess_eq_success_iff]
    exact ⟨z, k, hz, ending_many_of_stops hstops (reduce seed z) reduce⟩

/-- Where no digit is, an optional digit is matched once by one or more, and not at all by zero or more. -/
theorem repetitions_decompose_missing :
    let i : View := ⟨⟨0, "éa1"⟩, 2, ['a', '1']⟩
    let digit := (satisfy Char.isDigit).optional
    View.startingAt ⟨0, "éa1"⟩ 2 = .ok i ∧ digit.StaysInText i ∧
      Decomposes digit (element ',') 0 (fun n _ => n + 1) i ∧
      ((digit.many1 0 fun n _ => n + 1).parse i).ending = .done (.success 1 i) ∧
      ((digit.many 0 fun n _ => n + 1).parse i).ending = .done (.success 0 i) := by
  intro i digit
  have hi : View.startingAt ⟨0, "éa1"⟩ 2 = .ok i := rfl
  have hstays : digit.StaysInText i :=
    (Simulation.Similar.satisfy Char.isDigit).optional.staysInText (View.startingAt_eq_ok_iff.mp hi).2.2
  have h := repetitions_decompose hi hstays (element ',') 0 fun n _ => n + 1
  exact ⟨hi, hstays, h, h.zeroWidth none i rfl rfl⟩

end Parser
end ParserKit
