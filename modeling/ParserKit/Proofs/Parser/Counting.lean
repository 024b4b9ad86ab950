import ParserKit.Proofs.Parser.Decomposition

/-! Counted repetition next to greedy repetition. Both run along the one chain of matches that consume something. To
    count up to the end of it, or less far, is to take so many matches from its start. Beyond its end the two part: a
    greedy repetition stops there, and one that still has to count fails with the parser, or takes the match that
    consumes nothing again and again (`exactlyN_along_many`). -/

namespace ParserKit.Parser
variable {α β : Type} {p : Parser α} {i k : View} {steps : List (α × View)}

/-! ### Along a chain -/

theorem Chain.take (h : Chain p i steps) (n : Nat) : Chain p i (steps.take n) := by
  induction steps generalizing i n with
  | nil =>
    rw [List.take_nil]
    trivial
  | cons step steps ih =>
    obtain ⟨v, k⟩ := step
    obtain ⟨hp, hlt, hchain⟩ := h
    cases n with
    | zero => trivial
    | succ n => exact ⟨hp, hlt, ih hchain n⟩

theorem Chain.repeatFrom (h : Chain p i steps) (reduce : β → α → β) (acc : β) :
    (p.repeatFrom reduce steps.length acc i).ending =
      .done (.success ((steps.map (·.1)).foldl reduce acc) (chainEnd i steps)) := by
  induction steps generalizing i acc with
  | nil => rfl
  | cons step steps ih =>
    obtain ⟨v, k⟩ := step
    obtain ⟨hp, -, hchain⟩ := h
    exact Run.ending_onSuccess_eq_success_iff.mpr ⟨v, k, hp, ih hchain (reduce acc v)⟩

theorem Chain.exactlyN (h : Chain p i steps) {n : Nat} (hn : n ≤ steps.length) (seed : β) (reduce : β → α → β) :
    ((p.exactlyN seed reduce n).parse i).ending =
      .done (.success (((steps.take n).map (·.1)).foldl reduce seed) (chainEnd i (steps.take n))) := by
  have htake := (h.take n).repeatFrom reduce seed
  rwa [List.length_take, Nat.min_eq_left hn] at htake

/-! ### Beyond its end -/

/-- A match that consumes nothing can be had as often as it is asked for. -/
theorem repeatFrom_of_zeroWidth {z : α} (hz : (p.parse k).ending = .done (.success z k)) (reduce : β → α → β) (n : Nat)
    (acc : β) :
    (p.repeatFrom reduce n acc k).ending = .done (.success ((List.replicate n z).foldl reduce acc) k) := by
  induction n generalizing acc with
  | zero => rfl
  | succ n ih => exact Run.ending_onSuccess_eq_success_iff.mpr ⟨z, k, hz, ih (reduce acc z)⟩

theorem Chain.exactlyN_of_zeroWidth (h : Chain p i steps) {z : α}
    (hz : (p.parse (chainEnd i steps)).ending = .done (.success z (chainEnd i steps))) {n : Nat}
    (hn : steps.length ≤ n) (seed : β) (reduce : β → α → β) :
    ((p.exactlyN seed reduce n).parse i).ending = .done (.success
      ((List.replicate (n - steps.length) z).foldl reduce ((steps.map (·.1)).foldl reduce seed))
      (chainEnd i steps)) := by
  show (p.repeatFrom reduce n seed i).ending = _
  rw [← Nat.add_sub_cancel' hn, repeatFrom_add, Nat.add_sub_cancel_left, Run.ending_onSuccess_eq_success_iff]
  exact ⟨_, _, h.repeatFrom reduce seed, repeatFrom_of_zeroWidth hz reduce _ _⟩

theorem Chain.exactlyN_of_failure (h : Chain p i steps) (hfail : (p.parse (chainEnd i steps)).ending = .done .failure)
    {n : Nat} (hn : steps.length < n) (seed : β) (reduce : β → α → β) :
    ((p.exactlyN seed reduce n).parse i).ending = .done .failure := by
  obtain ⟨m, rfl⟩ := Nat.exists_eq_add_of_lt hn
  show (p.repeatFrom reduce (steps.length + m + 1) seed i).ending = _
  rw [Nat.add_assoc, repeatFrom_add, Run.ending_onSuccess_eq_failure_iff]
  exact Or.inr ⟨_, _, h.repeatFrom reduce seed, Run.ending_onSuccess_eq_failure_iff.mpr (Or.inl hfail)⟩

/-! ### Both together -/

/-- What counted and greedy repetitions of `p` from `i` do, where the greedy ones fold the values of these matches. -/
structure CountsAlong (p : Parser α) (i : View) (steps : List (α × View)) : Prop where
  exhausts : Exhausts p i steps
  many : ∀ {β : Type} (seed : β) (reduce : β → α → β), ((p.many seed reduce).parse i).ending =
    .done (.success ((steps.map (·.1)).foldl reduce seed) (chainEnd i steps))
  /-- Up to the end of the chain, as many of its matches are taken as are asked for. -/
  within : ∀ n, n ≤ steps.length → ∀ {β : Type} (seed : β) (reduce : β → α → β),
    ((p.exactlyN seed reduce n).parse i).ending =
      .done (.success (((steps.take n).map (·.1)).foldl reduce seed) (chainEnd i (steps.take n)))
  exactly : ∀ {β : Type} (seed : β) (reduce : β → α → β),
    ((p.exactlyN seed reduce steps.length).parse i).ending = ((p.many seed reduce).parse i).ending
  fails : (p.parse (chainEnd i steps)).ending = .done .failure → ∀ n, steps.length < n →
    ∀ {β : Type} (seed : β) (reduce : β → α → β), ((p.exactlyN seed reduce n).parse i).ending = .done .failure
  /-- The match at the end that consumes nothing is folded as often as matches are missing. -/
  zeroWidth : ∀ z k, (p.parse (chainEnd i steps)).ending = .done (.success z k) → k.offset = (chainEnd i steps).offset →
    ∀ n, steps.length < n → ∀ {β : Type} (seed : β) (reduce : β → α → β), ((p.exactlyN seed reduce n).parse i).ending =
      .done (.success ((List.replicate (n - steps.length) z).foldl reduce ((steps.map (·.1)).foldl reduce seed))
        (chainEnd i steps))

/-- Whatever is repeated, and however often it is asked for: the values that a greedy repetition folds decide what a
    counted one comes to. -/
theorem exactlyN_along_many {b : Buffer} {offset : Nat} (hi : View.startingAt b offset = .ok i) (h : Repeatable p i) :
    ∃ steps, CountsAlong p i steps := by
  obtain ⟨-, -, hvalid⟩ := View.startingAt_eq_ok_iff.mp hi
  obtain ⟨steps, hsteps⟩ := h.exists_exhausts hvalid
  obtain ⟨hlater, -⟩ := hsteps.chain.exists_skipped h hvalid
  have hend := hlater.valid hvalid
  have hmany : ∀ {β : Type} (seed : β) (reduce : β → α → β), ((p.many seed reduce).parse i).ending =
      .done (.success ((steps.map (·.1)).foldl reduce seed) (chainEnd i steps)) :=
    fun seed reduce => many_of_exhausts h hvalid hsteps seed reduce
  refine ⟨steps, hsteps, hmany, fun n hn _ seed reduce => hsteps.chain.exactlyN hn seed reduce,
    fun seed reduce => ?_, fun hfail n hn _ seed reduce => hsteps.chain.exactlyN_of_failure hfail hn seed reduce,
    fun z k hz hk n hn _ seed reduce => ?_⟩
  · rw [hmany, hsteps.chain.exactlyN (Nat.le_refl _), List.take_length]
  · have hstays := h.stays _ hend hlater.isSuffixOf
    obtain rfl : k = chainEnd i steps := (hstays.later hend hz).eq_of_offset_le (Nat.le_of_eq hk)
    exact hsteps.chain.exactlyN_of_zeroWidth hz (Nat.le_of_lt hn) seed reduce

/-- Two optional digits are there. A repetition that is asked for four of them takes the other two as missing. -/
theorem exactlyN_along_many_digits :
    let i : View := ⟨⟨0, "é12a"⟩, 2, ['1', '2', 'a']⟩
    let digit := (satisfy Char.isDigit).optional
    View.startingAt ⟨0, "é12a"⟩ 2 = .ok i ∧ Repeatable digit i ∧
      CountsAlong digit i [(some '1', i.drop 1), (some '2', i.drop 2)] ∧
      ((digit.exactlyN [] (fun taken d => taken ++ [d]) 4).parse i).ending =
        .done (.success [some '1', some '2', none, none] (i.drop 2)) := by
  intro i digit
  have hi : View.startingAt ⟨0, "é12a"⟩ 2 = .ok i := rfl
  have hsteps : Exhausts digit i [(some '1', i.drop 1), (some '2', i.drop 2)] :=
    ⟨⟨rfl, by decide, rfl, by decide, trivial⟩, Or.inr ⟨none, rfl⟩⟩
  obtain ⟨steps, h⟩ := exactlyN_along_many hi (repeatable_optional_satisfy Char.isDigit i)
  obtain rfl := hsteps.unique h.exhausts
  exact ⟨hi, repeatable_optional_satisfy Char.isDigit i, h,
    h.zeroWidth none (i.drop 2) rfl rfl 4 (by decide) [] fun taken d => taken ++ [d]⟩

end ParserKit.Parser
