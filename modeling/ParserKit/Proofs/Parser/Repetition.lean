import ParserKit.Parser.Fold
import ParserKit.Proofs.Parser.Reading
import ParserKit.Proofs.Grammar.Consumption

/-! Greedy repetition. A repeated parser makes a chain of matches, each of which starts where the one before it
    ended and consumes something. The chain ends where the parser fails, or matches without consuming anything,
    and there is only one such chain (`Chain.unique`). A repetition takes all of it and folds its values in
    order, whatever the parser, the seed and the reducer (`many_greedy`). -/

namespace ParserKit.Parser
variable {α β : Type} {p : Parser α} {i j k : View}

/-! ### Chains of matches -/

/-- Matches one after the other from `i` on, with the view that each of them ends at. -/
def Chain (p : Parser α) : View → List (α × View) → Prop
  | _, [] => True
  | i, (v, k) :: steps => (p.parse i).ending = .done (.success v k) ∧ i.offset < k.offset ∧ Chain p k steps

def chainEnd : View → List (α × View) → View
  | i, [] => i
  | _, (_, k) :: steps => chainEnd k steps

/-- A failure, or a match that consumes nothing. -/
def Stops (p : Parser α) (k : View) : Prop :=
  (p.parse k).ending = .done .failure ∨ ∃ v, (p.parse k).ending = .done (.success v k)

/-- A chain that cannot go on. -/
structure Exhausts (p : Parser α) (i : View) (steps : List (α × View)) : Prop where
  chain : Chain p i steps
  stops : Stops p (chainEnd i steps)

theorem Stops.not_match (h : Stops p i) {v : α} (hp : (p.parse i).ending = .done (.success v k)) :
    ¬ i.offset < k.offset := by
  rcases h with h | ⟨w, h⟩ <;> rw [hp] at h <;> cases h
  exact Nat.lt_irrefl _

theorem Exhausts.unique {steps steps' : List (α × View)} (h : Exhausts p i steps) (h' : Exhausts p i steps') :
    steps' = steps := by
  obtain ⟨hchain, hstops⟩ := h
  obtain ⟨hchain', hstops'⟩ := h'
  induction steps generalizing i steps' with
  | nil =>
    rcases steps' with _ | ⟨⟨v, k⟩, steps'⟩
    · rfl
    · exact absurd hchain'.2.1 (hstops.not_match hchain'.1)
  | cons step steps ih =>
    obtain ⟨v, k⟩ := step
    obtain ⟨hp, hlt, hchain⟩ := hchain
    rcases steps' with _ | ⟨⟨w, k'⟩, steps'⟩
    · exact absurd hlt (hstops'.not_match hp)
    · obtain ⟨hp', -, hchain'⟩ := hchain'
      rw [hp] at hp'
      cases hp'
      rw [ih hchain hstops hchain' hstops']

/-! ### Parsers that may be repeated -/

/-- Wherever in the text from `i` on `p` starts, it comes to an outcome, and stays in the text. -/
structure Repeatable (p : Parser α) (i : View) : Prop where
  halts : ∀ j : View, j.Valid → j.isSuffixOf i = true → ∃ o, (p.parse j).ending = .done o
  stays : ∀ j : View, j.Valid → j.isSuffixOf i = true → p.StaysInText j

theorem Repeatable.of_later (h : Repeatable p i) (hij : i.Later j) : Repeatable p j where
  halts k hk hkj := h.halts k hk (View.isSuffixOf_trans hkj hij.isSuffixOf)
  stays k hk hkj := h.stays k hk (View.isSuffixOf_trans hkj hij.isSuffixOf)

theorem StaysInText.later (h : p.StaysInText i) (hi : i.Valid) {v : α}
    (hp : (p.parse i).ending = .done (.success v k)) : i.Later k :=
  hi.later_of_isSuffixOf (h.rest_valid hp) (h.isSuffixOf hp)

theorem Repeatable.step (h : Repeatable p i) (hi : i.Valid) :
    Stops p i ∨ ∃ v k, (p.parse i).ending = .done (.success v k) ∧ i.offset < k.offset ∧ i.Later k := by
  obtain ⟨o, ho⟩ := h.halts i hi (View.Later.refl i).isSuffixOf
  rcases o with ⟨v, k⟩ | -
  · have hk := (h.stays i hi (View.Later.refl i).isSuffixOf).later hi ho
    rcases Nat.lt_or_ge i.offset k.offset with hlt | hge
    · exact Or.inr ⟨v, k, ho, hlt, hk⟩
    · rw [hk.eq_of_offset_le hge] at ho
      exact Or.inl (Or.inr ⟨v, ho⟩)
  · exact Or.inl (Or.inl ho)

theorem Repeatable.exists_exhausts (h : Repeatable p i) (hi : i.Valid) : ∃ steps, Exhausts p i steps := by
  -- each match of a chain leaves less of the text
  induction hn : i.rest.length using Nat.strongRecOn generalizing i with
  | ind n ih =>
    rcases h.step hi with hstops | ⟨v, k, hp, hlt, hk⟩
    · exact ⟨[], trivial, hstops⟩
    · obtain ⟨steps, hchain, hstops⟩ := ih _ (hn ▸ hk.rest_length_lt hlt) (h.of_later hk) (hk.valid hi) rfl
      exact ⟨(v, k) :: steps, ⟨hp, hlt, hchain⟩, hstops⟩

/-! ### What a repetition makes of a chain -/

theorem ending_folded_eq_success_iff {r : Run (β × View)} {acc : β} :
    (folded r).ending = .done (.success acc k) ↔ r.ending = .done (acc, k) := by
  rw [folded, Run.ending_andThen_eq_done_iff]
  constructor
  · rintro ⟨⟨acc', rest⟩, hr, hdone⟩
    cases hdone
    exact hr
  · exact fun hr => ⟨_, hr, rfl⟩

theorem ending_folded_ne_failure (r : Run (β × View)) : (folded r).ending ≠ .done .failure := by
  intro h
  obtain ⟨⟨acc, rest⟩, -, hdone⟩ := Run.ending_andThen_eq_done_iff.mp h
  cases hdone

theorem fold_of_stops (hstops : Stops p i) (reduce : β → α → β) (acc : β) :
    (p.fold reduce acc i).ending = .done (acc, i) := by
  rw [fold]
  rcases hstops with hp | ⟨v, hp⟩
  · exact Run.ending_andThen_eq_done_iff.mpr ⟨_, hp, rfl⟩
  · refine Run.ending_andThen_eq_done_iff.mpr ⟨_, hp, ?_⟩
    simp only [Nat.lt_irrefl, if_false]
    rfl

theorem fold_of_exhausts (h : Repeatable p i) (hi : i.Valid) {steps : List (α × View)} (hsteps : Exhausts p i steps)
    (reduce : β → α → β) (acc : β) :
    (p.fold reduce acc i).ending = .done ((steps.map (·.1)).foldl reduce acc, chainEnd i steps) := by
  obtain ⟨hchain, hstops⟩ := hsteps
  induction steps generalizing i acc with
  | nil => exact fold_of_stops hstops reduce acc
  | cons step steps ih =>
    obtain ⟨v, k⟩ := step
    obtain ⟨hp, hlt, hchain⟩ := hchain
    have hk := (h.stays i hi (View.Later.refl i).isSuffixOf).later hi hp
    rw [fold]
    refine Run.ending_andThen_eq_done_iff.mpr ⟨_, hp, ?_⟩
    simp only [(hk.len_lt_iff hi).mpr hlt, if_true]
    exact ih (h.of_later hk) (hk.valid hi) _ hchain hstops

theorem many_of_exhausts (h : Repeatable p i) (hi : i.Valid) {steps : List (α × View)} (hsteps : Exhausts p i steps)
    (seed : β) (reduce : β → α → β) : ((p.many seed reduce).parse i).ending =
      .done (.success ((steps.map (·.1)).foldl reduce seed) (chainEnd i steps)) :=
  ending_folded_eq_success_iff.mpr (fold_of_exhausts h hi hsteps reduce seed)

theorem Chain.exists_skipped (h : Repeatable p i) (hi : i.Valid) {steps : List (α × View)} (hchain : Chain p i steps) :
    i.Later (chainEnd i steps) ∧
      ∃ skipped, i.rest = skipped ++ (chainEnd i steps).rest ∧ steps.length ≤ skipped.length := by
  induction steps generalizing i with
  | nil => exact ⟨.refl i, [], rfl, Nat.le_refl 0⟩
  | cons step steps ih =>
    obtain ⟨v, k⟩ := step
    obtain ⟨hp, hlt, hchain⟩ := hchain
    have hk := (h.stays i hi (View.Later.refl i).isSuffixOf).later hi hp
    obtain ⟨hlater, skipped, hrest, hle⟩ := ih (h.of_later hk) (hk.valid hi) hchain
    obtain ⟨taken, hi'⟩ := hk.exists_rest_eq
    refine ⟨hk.trans hlater, taken ++ skipped, ?_, ?_⟩
    · rw [hi', hrest, List.append_assoc]
      rfl
    · have hshorter := hk.rest_length_lt hlt
      rw [hi', List.length_append] at hshorter
      rw [List.length_cons, List.length_append]
      omega

/-- What the repetitions of `p` from `i` do. There is exactly one chain of matches that cannot go on, and every
    repetition comes to the fold of its values at the end of it. From there it would take nothing more. -/
structure TakesChain (p : Parser α) (i : View) (steps : List (α × View)) : Prop where
  exhausts : Exhausts p i steps
  unique : ∀ steps', Exhausts p i steps' → steps' = steps
  /-- There are at least as many characters between the start and the end as there are matches. -/
  skipped : ∃ skipped, i.rest = skipped ++ (chainEnd i steps).rest ∧ steps.length ≤ skipped.length
  many : ∀ {β : Type} (seed : β) (reduce : β → α → β), ((p.many seed reduce).parse i).ending =
    .done (.success ((steps.map (·.1)).foldl reduce seed) (chainEnd i steps))
  again : ∀ {β : Type} (seed : β) (reduce : β → α → β),
    ((p.many seed reduce).parse (chainEnd i steps)).ending = .done (.success seed (chainEnd i steps))

/-- A repetition halts and never fails, and takes all that it can. -/
theorem many_greedy {b : Buffer} {offset : Nat} (hi : View.startingAt b offset = .ok i) (h : Repeatable p i) :
    ∃ steps, TakesChain p i steps := by
  obtain ⟨-, -, hvalid⟩ := View.startingAt_eq_ok_iff.mp hi
  obtain ⟨steps, hsteps⟩ := h.exists_exhausts hvalid
  obtain ⟨hlater, hskipped⟩ := hsteps.chain.exists_skipped h hvalid
  have hagain : Exhausts p (chainEnd i steps) [] := ⟨trivial, hsteps.stops⟩
  refine ⟨steps, hsteps, fun _ => hsteps.unique, hskipped, fun seed reduce => ?_, fun seed reduce => ?_⟩
  · exact many_of_exhausts h hvalid hsteps seed reduce
  · exact many_of_exhausts (h.of_later hlater) (hlater.valid hvalid) hagain seed reduce

/-! ### Optional characters -/

theorem repeatable_optional_satisfy (test : Char → Bool) (i : View) : Repeatable (satisfy test).optional i where
  halts j _ _ := by
    obtain ⟨o, ho⟩ := (takesOne_satisfy test).exists_parse_eq j
    show ∃ o', ((((satisfy test).parse j).onSuccess fun c k => .done (.success (some c) k)).onFailure
      fun _ => .done (.success none j)).ending = .done o'
    rw [ho]
    rcases o with ⟨c, k⟩ | -
    · exact ⟨.success (some c) k, rfl⟩
    · exact ⟨.success none j, rfl⟩
  stays j hj _ := (Simulation.Similar.satisfy test).optional.staysInText hj

/-- An optional digit is repeated as long as there are digits, and the last match is not folded. -/
theorem many_greedy_digits :
    let i : View := .ofText "12a"
    View.startingAt ⟨0, "12a"⟩ 0 = .ok i ∧ Repeatable (satisfy Char.isDigit).optional i ∧
      TakesChain (satisfy Char.isDigit).optional i [(some '1', i.drop 1), (some '2', i.drop 2)] := by
  intro i
  have hi : View.startingAt ⟨0, "12a"⟩ 0 = .ok i := rfl
  have hsteps : Exhausts (satisfy Char.isDigit).optional i [(some '1', i.drop 1), (some '2', i.drop 2)] :=
    ⟨⟨rfl, by decide, rfl, by decide, trivial⟩, Or.inr ⟨none, rfl⟩⟩
  obtain ⟨steps, h⟩ := many_greedy hi (repeatable_optional_satisfy Char.isDigit i)
  rw [h.unique _ hsteps]
  exact ⟨hi, repeatable_optional_satisfy Char.isDigit i, h⟩

end ParserKit.Parser
