import ParserKit.Proofs.Parser.Decomposition
import ParserKit.Proofs.Parser.Totality

/-! The matches behind a repetition. A loop goes round by round: each round is a match that starts where the one before
    it ended, and the test of the loop says after which of them it goes on (`LoopMatches`). A loop that collects values
    ends with those of its rounds, in their order (`Loops.exists_loopMatches`, `exists_loopMatches_of_fold`).

    A repetition may want a first match before its loop starts (`FirstThenLoop`). As long as no match ends before its
    start, repetitions are what the loop comes to that has its own test (`isRunOf_many`, `firstThenLoop_iff`). -/

namespace ParserKit

theorem Run.eq_of_ending {α : Type} {r : Run α} {e : Ending α} (h : r.ending = e) : r = ⟨r.events, e⟩ := by rw [← h]

namespace Parser
variable {α β : Type}

/-! ### Matches in a row -/

/-- The test of a loop that goes on unless a match ends where it started, as in `Loops`. -/
def Elsewhere (i k : View) : Prop := k.offset ≠ i.offset

/-- The test of `fold`. -/
def Shortens (i k : View) : Prop := k.len < i.len

/-- The matches of a loop from `i` on, which goes on after a match as the test says. After the last of them the parser
    fails, or has a match that ends the loop. -/
def LoopMatches (p : Parser α) (goesOn : View → View → Prop) : View → List (α × View) → Prop
  | i, [] => (p.parse i).ending = .done .failure ∨ ∃ v k, (p.parse i).ending = .done (.success v k) ∧ ¬ goesOn i k
  | i, (v, k) :: steps => (p.parse i).ending = .done (.success v k) ∧ goesOn i k ∧ LoopMatches p goesOn k steps

/-- A match, and after it such as `later` says. -/
def FirstThen (p : Parser α) (later : View → List (α × View) → Prop) (i : View) : List (α × View) → Prop
  | [] => False
  | (v, k) :: steps => (p.parse i).ending = .done (.success v k) ∧ later k steps

/-- So many matches in a row. -/
def Row (p : Parser α) : Nat → View → List (α × View) → Prop
  | 0, _, steps => steps = []
  | n + 1, i, steps => FirstThen p (Row p n) i steps

/-! ### Ways to repeat -/

/-- A way to repeat, which takes a seed and a reducer for any kind of accumulator. -/
abbrev Repetition (α : Type) := {β : Type} → β → (β → α → β) → Parser β

/-- What some way to repeat comes to, for any kind of accumulator. -/
abbrev Repeats (α : Type) := (β : Type) → β → (β → α → β) → View → Run (Outcome β) → Prop

/-- Zero or more, by the loop with a test of its own. -/
def LoopOf (p : Parser α) : Repeats α := fun _ seed reduce i r => ∃ r', Loops p reduce seed i r' ∧ r = folded r'

/-- One run of `p`, and after its match the loop over `next`. -/
inductive FirstThenLoop (p next : Parser α) (β : Type) (seed : β) (reduce : β → α → β) (i : View) :
    Run (Outcome β) → Prop
  | fails {events} : p.parse i = ⟨events, .done .failure⟩ →
      FirstThenLoop p next β seed reduce i ⟨events, .done .failure⟩
  | loops {events v k r} : p.parse i = ⟨events, .done (.success v k)⟩ → Loops next reduce (reduce seed v) k r →
      FirstThenLoop p next β seed reduce i ((folded r).after events)

/-- Where the way to repeat comes to an outcome, it is what the parser does from `i`. -/
def IsRunOf (repeats : Repeats α) (repetition : Repetition α) (i : View) : Prop :=
  ∀ {β : Type} (seed : β) (reduce : β → α → β) (r : Run (Outcome β)), repeats β seed reduce i r ↔
    r = (repetition seed reduce).parse i ∧ ∃ o, r.ending = .done o

/-! ### Lists of values -/

/-- Puts a value after those that were collected before it. -/
def collect (taken : List α) (v : α) : List α := taken ++ [v]

/-- What has been collected where a loop ends after these matches, and where that is. -/
def gathered (taken : List α) (i : View) (steps : List (α × View)) : List α × View :=
  (taken ++ steps.map (·.1), chainEnd i steps)

section
variable {p next : Parser α} {i k : View} {acc : β} {reduce : β → α → β} {taken vs : List α} {v : α}
  {steps : List (α × View)} {n : Nat}

@[simp]
theorem gathered_nil (taken : List α) (i : View) : gathered taken i [] = (taken, i) := by
  rw [gathered, List.map_nil, List.append_nil, chainEnd]

@[simp]
theorem gathered_cons (taken : List α) (i : View) (v : α) (k : View) (steps : List (α × View)) :
    gathered taken i ((v, k) :: steps) = gathered (collect taken v) k steps := by
  rw [gathered, gathered, collect, List.append_assoc, List.map_cons, List.singleton_append, chainEnd]

theorem eq_gathered_iff : (vs, k) = gathered [] i steps ↔ vs = steps.map (·.1) ∧ k = chainEnd i steps := by
  rw [gathered, List.nil_append, Prod.mk.injEq]

/-! ### LoopMatches of loops -/

/-- The loop collects the value of each of its matches. -/
theorem Loops.exists_loopMatches {r : Run (List α × View)} (h : Loops p collect taken i r) :
    ∃ steps, LoopMatches p Elsewhere i steps ∧ r.ending = .done (gathered taken i steps) := by
  induction h with
  | fails hp => exact ⟨[], Or.inl (congrArg Run.ending hp), by rw [gathered_nil]⟩
  | stops hp hk => exact ⟨[], Or.inr ⟨_, _, congrArg Run.ending hp, not_not_intro hk⟩, by rw [gathered_nil]⟩
  | @again taken i v k events r hp hk _ ih =>
    obtain ⟨steps, hsteps, hr⟩ := ih
    exact ⟨(v, k) :: steps, ⟨congrArg Run.ending hp, hk, hsteps⟩, by rw [gathered_cons]; exact hr⟩

theorem LoopMatches.exists_loops (h : LoopMatches p Elsewhere i steps) (taken : List α) :
    ∃ r, Loops p collect taken i r ∧ r.ending = .done (gathered taken i steps) := by
  induction steps generalizing i taken with
  | nil =>
    rw [gathered_nil]
    rcases h with hp | ⟨v, k, hp, hk⟩
    · exact ⟨_, .fails (Run.eq_of_ending hp), rfl⟩
    · exact ⟨_, .stops (Run.eq_of_ending hp) (not_not.mp hk), rfl⟩
  | cons step steps ih =>
    obtain ⟨v, k⟩ := step
    obtain ⟨hp, hk, hsteps⟩ := h
    obtain ⟨r, hr, hending⟩ := ih hsteps (collect taken v)
    rw [gathered_cons]
    exact ⟨_, .again (Run.eq_of_ending hp) hk hr, hending⟩

theorem exists_loopMatches_of_fold {x : List α × View} (h : (p.fold collect taken i).ending = .done x) :
    ∃ steps, LoopMatches p Shortens i steps ∧ x = gathered taken i steps := by
  induction hlen : i.len using Nat.strongRecOn generalizing i taken with
  | ind n ih =>
    rw [fold, Run.ending_andThen_eq_done_iff] at h
    obtain ⟨⟨v, k⟩ | -, ho, hnext⟩ := h
    · by_cases hk : k.len < i.len
      · simp only [hk, if_true] at hnext
        obtain ⟨steps, hsteps, rfl⟩ := ih _ (hlen ▸ hk) hnext rfl
        exact ⟨(v, k) :: steps, ⟨ho, hk, hsteps⟩, (gathered_cons ..).symm⟩
      · simp only [hk, if_false] at hnext
        cases hnext
        exact ⟨[], Or.inr ⟨v, k, ho, hk⟩, (gathered_nil ..).symm⟩
    · cases hnext
      exact ⟨[], Or.inl ho, (gathered_nil ..).symm⟩

theorem LoopMatches.ending_fold (h : LoopMatches p Shortens i steps) (taken : List α) :
    (p.fold collect taken i).ending = .done (gathered taken i steps) := by
  induction steps generalizing i taken with
  | nil =>
    rw [fold, Run.ending_andThen_eq_done_iff, gathered_nil]
    rcases h with hp | ⟨v, k, hp, hk⟩
    · exact ⟨_, hp, rfl⟩
    · refine ⟨_, hp, ?_⟩
      simp only [show ¬ k.len < i.len from hk, if_false]
      rfl
  | cons step steps ih =>
    obtain ⟨v, k⟩ := step
    obtain ⟨hp, hk, hsteps⟩ := h
    rw [fold, Run.ending_andThen_eq_done_iff, gathered_cons]
    refine ⟨_, hp, ?_⟩
    simp only [show k.len < i.len from hk, if_true]
    exact ih hsteps (collect taken v)

theorem ending_repeatFrom_collect_iff : (p.repeatFrom collect n taken i).ending = .done (.success vs k) ↔
    ∃ steps, Row p n i steps ∧ (vs, k) = gathered taken i steps := by
  induction n generalizing taken i with
  | zero =>
    constructor
    · intro h
      cases h
      exact ⟨[], rfl, (gathered_nil ..).symm⟩
    · rintro ⟨steps, rfl, hx⟩
      rw [gathered_nil] at hx
      cases hx
      rfl
  | succ n ih =>
    rw [repeatFrom, Run.ending_onSuccess_eq_success_iff]
    constructor
    · rintro ⟨v, j, hp, hrest⟩
      obtain ⟨steps, hsteps, hx⟩ := ih.mp hrest
      exact ⟨(v, j) :: steps, ⟨hp, hsteps⟩, hx.trans (gathered_cons ..).symm⟩
    · rintro ⟨_ | ⟨⟨v, j⟩, steps⟩, hsteps, hx⟩
      · exact hsteps.elim
      · exact ⟨v, j, hsteps.1, ih.mpr ⟨steps, hsteps.2, hx.trans (gathered_cons ..)⟩⟩

theorem Loops.exists_ending {r : Run (β × View)} (h : Loops p reduce acc i r) : ∃ x, r.ending = .done x := by
  induction h with
  | fails | stops => exact ⟨_, rfl⟩
  | again _ _ _ ih => exact ih

/-- A first match and then the loop over `next`, which starts with the value of that match. -/
theorem ending_firstFold_iff : ((p.parse i).onSuccess fun v j => folded (next.fold collect [v] j)).ending =
    .done (.success vs k) ↔ ∃ steps, FirstThen p (LoopMatches next Shortens) i steps ∧ (vs, k) = gathered [] i steps := by
  simp only [Run.ending_onSuccess_eq_success_iff, ending_folded_eq_success_iff]
  constructor
  · rintro ⟨v, j, hp, hrest⟩
    obtain ⟨steps, hsteps, hx⟩ := exists_loopMatches_of_fold hrest
    exact ⟨(v, j) :: steps, ⟨hp, hsteps⟩, hx.trans (gathered_cons [] i v j steps).symm⟩
  · rintro ⟨_ | ⟨⟨v, j⟩, steps⟩, hsteps, hx⟩
    · exact hsteps.elim
    · refine ⟨v, j, hsteps.1, ?_⟩
      rw [hx, gathered_cons]
      exact hsteps.2.ending_fold [v]

/-! ### Loops and repetitions -/

theorem isRunOf_many (hi : i.Valid) (hp : p.MovesOn i) : IsRunOf (LoopOf p) p.many i := by
  intro β seed reduce r
  constructor
  · rintro ⟨r, hr, rfl⟩
    obtain ⟨x, hx⟩ := hr.exists_ending
    obtain rfl := hr.eq_fold hp hi
    exact ⟨rfl, _, ending_folded_eq_success_iff.mpr hx⟩
  · rintro ⟨rfl, o, ho⟩
    obtain ⟨x, hx, -⟩ := Run.ending_andThen_eq_done_iff.mp ho
    exact ⟨_, hp.loops_fold hi hx, rfl⟩

theorem firstThenLoop_iff (hi : i.Valid) (hp : p.MovesOn i) (hnext : next.MovesOn i) {seed : β} {r : Run (Outcome β)} :
    FirstThenLoop p next β seed reduce i r ↔
      r = ((p.parse i).onSuccess fun v k => folded (next.fold reduce (reduce seed v) k)) ∧ ∃ o, r.ending = .done o := by
  constructor
  · rintro (hfail | @⟨events, v, k, r, hfirst, hr⟩)
    · rw [hfail]
      refine ⟨?_, _, rfl⟩
      rw [Run.onSuccess_of_failure rfl]
    · have hik := hp.later (.refl i) (congrArg Run.ending hfirst)
      obtain ⟨x, hx⟩ := hr.exists_ending
      obtain rfl := hr.eq_fold (hnext.of_later hik) (hik.valid hi)
      rw [hfirst]
      exact ⟨rfl, _, ending_folded_eq_success_iff.mpr hx⟩
  · rintro ⟨rfl, o, ho⟩
    obtain ⟨⟨v, k⟩ | -, hfirst, hrest⟩ := Run.ending_andThen_eq_done_iff.mp ho
    · have hik := hp.later (.refl i) hfirst
      obtain ⟨x, hx, -⟩ := Run.ending_andThen_eq_done_iff.mp hrest
      rw [Run.onSuccess_of_ending hfirst]
      exact .loops (Run.eq_of_ending hfirst) ((hnext.of_later hik).loops_fold (hik.valid hi) hx)
    · rw [Run.onSuccess_of_failure hfirst]
      exact .fails (Run.eq_of_ending hfirst)

end
end Parser
end ParserKit
