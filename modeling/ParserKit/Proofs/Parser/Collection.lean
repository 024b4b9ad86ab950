import Mathlib.Data.List.Forall2
import ParserKit.Proofs.Parser.Matches

/-! Accumulators. A repetition hands every value that counts to its reducer, once and in the order of the matches, and
    never looks at what has accumulated. So it makes no difference whether it folds as it goes, or collects the values
    in a list and folds the list at the end (`folds_collected`). This takes nothing of the parser that is repeated, nor
    of the reducer: matches that consume nothing, failures, faults and events stand in both at the same places.

    The list has the values of the matches that the repetition is about (`Collects`): those of its loop, those after a
    first one, or a given number of them. -/

namespace ParserKit

namespace Run
variable {α β γ : Type}

theorem andThen_map_of_ending {r : Run α} {a : α} (h : r.ending = .done a) (f : α → β) :
    (r.andThen fun a => .done (f a)) = ⟨r.events, .done (f a)⟩ := by
  rw [andThen_of_ending h]
  simp [done, after]

theorem onSuccess_andThen_map (r : Run (Outcome α)) (next : α → View → Run (Outcome β)) (f : β → γ) :
    (r.onSuccess next).andThen (fun o => .done (o.map f)) =
      r.onSuccess fun v k => (next v k).andThen fun o => .done (o.map f) := by
  rw [onSuccess, onSuccess, andThen_assoc]
  refine congrArg r.andThen (funext fun o => ?_)
  rcases o with ⟨v, k⟩ | -
  · rfl
  · rfl

end Run

namespace Parser
variable {α β γ σ : Type}

/-! ### Another accumulator -/

section
variable {f : γ → β} {reduce : β → α → β} {reduce' : γ → α → γ}

/-- A loop does to the image of an accumulator what it does to the accumulator, if its reducer does. -/
theorem fold_hom (p : Parser α) (hf : ∀ acc v, f (reduce' acc v) = reduce (f acc) v) (acc : γ) (i : View) :
    p.fold reduce (f acc) i = (p.fold reduce' acc i).andThen fun x => .done (f x.1, x.2) := by
  -- both loops see the same matches, so they go on and stop together
  induction hlen : i.len using Nat.strongRecOn generalizing i acc with
  | ind n ih =>
    rw [fold, fold, Run.andThen_assoc]
    refine congrArg (p.parse i).andThen (funext fun o => ?_)
    rcases o with ⟨v, k⟩ | -
    · by_cases hk : k.len < i.len
      · simp only [hk, if_true, ← hf]
        exact ih _ (hlen ▸ hk) _ _ rfl
      · simp only [hk, if_false]
        rfl
    · rfl

theorem repeatFrom_hom (p : Parser α) (hf : ∀ acc v, f (reduce' acc v) = reduce (f acc) v) (n : Nat) (acc : γ)
    (i : View) :
    p.repeatFrom reduce n (f acc) i = (p.repeatFrom reduce' n acc i).andThen fun o => .done (o.map f) := by
  induction n generalizing acc i with
  | zero => rfl
  | succ n ih =>
    rw [repeatFrom, repeatFrom, Run.onSuccess_andThen_map]
    refine congrArg (p.parse i).onSuccess (funext fun v => funext fun k => ?_)
    rw [← hf]
    exact ih (reduce' acc v) k

theorem folded_andThen (f : γ → β) (r : Run (γ × View)) :
    folded (r.andThen fun x => .done (f x.1, x.2)) = (folded r).andThen fun o => .done (o.map f) := by
  rw [folded, folded, Run.andThen_assoc, Run.andThen_assoc]
  rfl

theorem folded_hom (p : Parser α) (hf : ∀ acc v, f (reduce' acc v) = reduce (f acc) v) (acc : γ) (i : View) :
    folded (p.fold reduce (f acc) i) = (folded (p.fold reduce' acc i)).andThen fun o => .done (o.map f) := by
  rw [fold_hom p hf, folded_andThen]

theorem Loops.hom {p : Parser α} {acc : γ} {i : View} {r : Run (γ × View)}
    (hf : ∀ acc v, f (reduce' acc v) = reduce (f acc) v) (h : Loops p reduce' acc i r) :
    Loops p reduce (f acc) i (r.andThen fun x => .done (f x.1, x.2)) := by
  induction h with
  | fails hp =>
    rw [Run.andThen_map_of_ending rfl]
    exact .fails hp
  | stops hp hk =>
    rw [Run.andThen_map_of_ending rfl]
    exact .stops hp hk
  | again hp hk _ ih =>
    rw [hf] at ih
    rw [Run.after_andThen]
    exact .again hp hk ih

theorem Loops.exists_of_hom {p : Parser α} {acc : γ} {i : View} {r : Run (β × View)}
    (hf : ∀ acc v, f (reduce' acc v) = reduce (f acc) v) (h : Loops p reduce (f acc) i r) :
    ∃ r', Loops p reduce' acc i r' ∧ r = r'.andThen fun x => .done (f x.1, x.2) := by
  generalize hacc : f acc = b at h
  induction h generalizing acc with
  | fails hp =>
    subst hacc
    exact ⟨_, .fails hp, by rw [Run.andThen_map_of_ending rfl]⟩
  | stops hp hk =>
    subst hacc
    exact ⟨_, .stops hp hk, by rw [Run.andThen_map_of_ending rfl]⟩
  | again hp hk _ ih =>
    subst hacc
    obtain ⟨r', hr', rfl⟩ := ih (hf _ _)
    exact ⟨_, .again hp hk hr', (Run.after_andThen _ _ _).symm⟩

end

/-! ### Lists as accumulators -/

theorem foldl_collect (seed : β) (reduce : β → α → β) (taken : List α) (v : α) :
    (collect taken v).foldl reduce seed = reduce (taken.foldl reduce seed) v := by
  rw [collect, List.foldl_append, List.foldl_cons, List.foldl_nil]

/-- Runs of one parser from several views, one after the other. -/
def inTurn (p : Parser α) : List View → Run (List (Outcome α))
  | [] => .done []
  | i :: views => (p.parse i).andThen fun o => (inTurn p views).andThen fun os => .done (o :: os)

theorem ending_inTurn_eq_done_iff {p : Parser α} {views : List View} {os : List (Outcome α)} :
    (p.inTurn views).ending = .done os ↔ List.Forall₂ (fun i o => (p.parse i).ending = .done o) views os := by
  induction views generalizing os with
  | nil =>
    rw [List.forall₂_nil_left_iff]
    exact ⟨fun h => by cases h; rfl, fun h => by rw [h]; rfl⟩
  | cons i views ih =>
    rw [inTurn, List.forall₂_cons_left_iff, Run.ending_andThen_eq_done_iff]
    simp only [Run.ending_andThen_eq_done_iff, ih]
    constructor
    · rintro ⟨o, ho, os, hos, hdone⟩
      cases hdone
      exact ⟨o, os, ho, hos, rfl⟩
    · rintro ⟨o, os, ho, hos, rfl⟩
      exact ⟨o, ho, os, hos, rfl⟩

/-- What a way to repeat makes of a seed and a reducer: it collects a list and folds it. -/
structure FoldsCollected (repetition : Repetition α) : Prop where
  parse_eq : ∀ {β : Type} (seed : β) (reduce : β → α → β) (i : View), (repetition seed reduce).parse i =
    ((repetition [] collect).transform fun taken => taken.foldl reduce seed).parse i
  /-- Whether there is a match and where it ends depends on neither the seed nor the reducer. -/
  extent : ∀ {β γ : Type} (seed : β) (reduce : β → α → β) (seed' : γ) (reduce' : γ → α → γ) (i : View),
    ((repetition seed reduce).transform fun _ => ()).parse i =
      ((repetition seed' reduce').transform fun _ => ()).parse i
  /-- After any number of earlier runs, from whatever views, a run still folds what it collects from the same seed. -/
  fresh : ∀ {β : Type} (seed : β) (reduce : β → α → β) (views : List View) (os : List (Outcome β)),
    ((repetition seed reduce).inTurn views).ending = .done os ↔
      List.Forall₂ (fun i o => ∃ taken, ((repetition [] collect).parse i).ending = .done taken ∧
        o = taken.map fun vs => vs.foldl reduce seed) views os

theorem FoldsCollected.of_parse_eq {repetition : Repetition α}
    (h : ∀ {β : Type} (seed : β) (reduce : β → α → β) (i : View), (repetition seed reduce).parse i =
      ((repetition [] collect).transform fun taken => taken.foldl reduce seed).parse i) :
    FoldsCollected repetition := by
  have hextent : ∀ {β : Type} (seed : β) (reduce : β → α → β) (i : View),
      ((repetition seed reduce).transform fun _ => ()).parse i =
        ((repetition [] collect).transform fun _ => ()).parse i := by
    intro β seed reduce i
    rw [transform_parse, transform_parse, h seed reduce i, transform_parse, Run.andThen_assoc]
    refine congrArg ((repetition [] collect).parse i).andThen (funext fun o => ?_)
    rw [Run.done_andThen, Outcome.map_map]
  refine ⟨h, fun seed reduce seed' reduce' i => ?_, fun seed reduce views os => ?_⟩
  · exact (hextent seed reduce i).trans (hextent seed' reduce' i).symm
  · have hending : ∀ i o, ((repetition seed reduce).parse i).ending = .done o ↔
        ∃ taken, ((repetition [] collect).parse i).ending = .done taken ∧
          o = taken.map fun vs => vs.foldl reduce seed := by
      intro i o
      rw [h seed reduce i, transform_parse, Run.ending_andThen_eq_done_iff]
      refine exists_congr fun taken => and_congr_right fun _ => ?_
      exact ⟨fun hdone => by cases hdone; rfl, fun ho => by rw [ho]; rfl⟩
    simp only [ending_inTurn_eq_done_iff, hending]

/-- Loops without a bound collect and fold in the same way, whatever has been collected before. -/
def LoopCollects (p : Parser α) : Prop := ∀ {β : Type} (seed : β) (reduce : β → α → β) (taken : List α) (i : View)
  (r : Run (β × View)), Loops p reduce (taken.foldl reduce seed) i r ↔
    ∃ r', Loops p collect taken i r' ∧ r = r'.andThen fun x => .done (x.1.foldl reduce seed, x.2)

theorem loopCollects (p : Parser α) : LoopCollects p := by
  intro β seed reduce taken i r
  refine ⟨Loops.exists_of_hom (foldl_collect seed reduce), ?_⟩
  rintro ⟨r', hr', rfl⟩
  exact hr'.hom (f := fun vs => vs.foldl reduce seed) (foldl_collect seed reduce)

/-! ### All repetitions -/

theorem foldsCollected_many (p : Parser α) : FoldsCollected p.many :=
  .of_parse_eq fun seed reduce i => folded_hom p (foldl_collect seed reduce) [] i

/-- A first match and a loop after it collect and fold in the same way. -/
theorem onSuccess_folded_eq (p next : Parser α) (seed : β) (reduce : β → α → β) (i : View) :
    ((p.parse i).onSuccess fun v k => folded (next.fold reduce (reduce seed v) k)) =
      ((p.parse i).onSuccess fun v k => folded (next.fold collect (collect [] v) k)).andThen fun o =>
        .done (o.map fun taken => taken.foldl reduce seed) := by
  rw [Run.onSuccess_andThen_map]
  refine congrArg (p.parse i).onSuccess (funext fun v => funext fun k => ?_)
  exact folded_hom next (foldl_collect seed reduce) [v] k

theorem foldsCollected_many1 (p : Parser α) : FoldsCollected p.many1 := .of_parse_eq (onSuccess_folded_eq p p)

theorem foldsCollected_exactlyN (p : Parser α) (n : Nat) :
    FoldsCollected fun seed reduce => p.exactlyN seed reduce n :=
  .of_parse_eq fun seed reduce i => repeatFrom_hom p (foldl_collect seed reduce) n [] i

theorem foldsCollected_separatedBy (p : Parser α) (separator : Parser σ) : FoldsCollected (p.separatedBy separator) :=
  .of_parse_eq (onSuccess_folded_eq p (separator.ignorePrevious p))

/-! ### What is collected -/

/-- To repeat by a run of the parser that the repetition makes. -/
def runsOf (repetition : Repetition α) : Repeats α := fun _ seed reduce i r => r = (repetition seed reduce).parse i

/-- The way to repeat hands the values of these matches to its reducer. -/
structure Collects (repeats : Repeats α) (matched : View → List (α × View) → Prop) : Prop where
  folds : ∀ {β : Type} (seed : β) (reduce : β → α → β) (i : View) (r : Run (Outcome β)),
    repeats β seed reduce i r ↔ ∃ r', repeats _ [] collect i r' ∧
      r = r'.andThen fun o => .done (o.map fun taken => taken.foldl reduce seed)
  /-- The list that is collected has the values of the matches in their order, each of them once. -/
  lists : ∀ i taken k, (∃ r, repeats _ [] collect i r ∧ r.ending = .done (.success taken k)) ↔
    ∃ steps, matched i steps ∧ taken = steps.map (·.1) ∧ k = chainEnd i steps

theorem FoldsCollected.collects {repetition : Repetition α} {matched : View → List (α × View) → Prop}
    (h : FoldsCollected repetition)
    (hlists : ∀ i vs k, ((repetition [] collect).parse i).ending = .done (.success vs k) ↔
      ∃ steps, matched i steps ∧ (vs, k) = gathered [] i steps) : Collects (runsOf repetition) matched where
  folds seed reduce i r := by
    have hparse := h.parse_eq seed reduce i
    rw [transform_parse] at hparse
    constructor
    · exact fun hr => ⟨_, rfl, hr.trans hparse⟩
    · rintro ⟨r', rfl, rfl⟩
      exact hparse.symm
  lists i vs k := by
    simp only [runsOf, exists_eq_left, hlists, eq_gathered_iff]

theorem collects_many (p : Parser α) : Collects (runsOf p.many) (LoopMatches p Shortens) := by
  refine (foldsCollected_many p).collects fun i vs k => ?_
  rw [show (p.many [] collect).parse i = folded (p.fold collect [] i) from rfl, ending_folded_eq_success_iff]
  constructor
  · exact exists_loopMatches_of_fold
  · rintro ⟨steps, hsteps, hx⟩
    rw [hx]
    exact hsteps.ending_fold []

theorem collects_loopOf (p : Parser α) : Collects (LoopOf p) (LoopMatches p Elsewhere) where
  folds seed reduce i r := by
    constructor
    · rintro ⟨r, hr, rfl⟩
      obtain ⟨r', hr', rfl⟩ := (loopCollects p seed reduce [] i r).mp hr
      exact ⟨folded r', ⟨r', hr', rfl⟩, folded_andThen _ r'⟩
    · rintro ⟨-, ⟨r', hr', rfl⟩, rfl⟩
      exact ⟨_, (loopCollects p seed reduce [] i _).mpr ⟨r', hr', rfl⟩, (folded_andThen _ r').symm⟩
  lists i vs k := by
    constructor
    · rintro ⟨-, ⟨r, hr, rfl⟩, hending⟩
      obtain ⟨steps, hsteps, hr⟩ := hr.exists_loopMatches
      rw [ending_folded_eq_success_iff, hr, Ending.done.injEq] at hending
      exact ⟨steps, hsteps, eq_gathered_iff.mp hending.symm⟩
    · rintro ⟨steps, hsteps, hx⟩
      obtain ⟨r, hr, hending⟩ := hsteps.exists_loops []
      rw [← eq_gathered_iff.mpr hx] at hending
      exact ⟨folded r, ⟨r, hr, rfl⟩, ending_folded_eq_success_iff.mpr hending⟩

theorem collects_firstThenLoop (p next : Parser α) :
    Collects (FirstThenLoop p next) (FirstThen p (LoopMatches next Elsewhere)) where
  folds seed reduce i r := by
    constructor
    · rintro (hp | @⟨events, v, k, r, hp, hr⟩)
      · exact ⟨_, .fails hp, by rw [Run.andThen_map_of_ending rfl, Outcome.map]⟩
      · obtain ⟨r', hr', rfl⟩ := (loopCollects next seed reduce [v] k r).mp hr
        exact ⟨_, .loops hp hr', by rw [folded_andThen, Run.after_andThen]⟩
    · rintro ⟨-, hp | @⟨events, v, k, r', hp, hr'⟩, rfl⟩
      · rw [Run.andThen_map_of_ending rfl, Outcome.map]
        exact .fails hp
      · rw [Run.after_andThen, ← folded_andThen]
        exact .loops hp ((loopCollects next seed reduce [v] k _).mpr ⟨r', hr', rfl⟩)
  lists i vs k := by
    constructor
    · rintro ⟨-, hp | @⟨events, v, j, r, hp, hr⟩, hending⟩
      · cases hending
      · obtain ⟨steps, hsteps, hr⟩ := hr.exists_loopMatches
        have hending : (folded r).ending = .done (.success vs k) := hending
        rw [ending_folded_eq_success_iff, hr, Ending.done.injEq] at hending
        refine ⟨(v, j) :: steps, ⟨congrArg Run.ending hp, hsteps⟩, eq_gathered_iff.mp ?_⟩
        exact hending.symm.trans (gathered_cons [] i v j steps).symm
    · rintro ⟨_ | ⟨⟨v, j⟩, steps⟩, hsteps, hx⟩
      · exact hsteps.elim
      · obtain ⟨r, hr, hending⟩ := hsteps.2.exists_loops [v]
        have hgathered : gathered [] i ((v, j) :: steps) = gathered [v] j steps := gathered_cons ..
        rw [← hgathered, ← eq_gathered_iff.mpr hx] at hending
        exact ⟨_, .loops (Run.eq_of_ending hsteps.1) hr, ending_folded_eq_success_iff.mpr hending⟩

/-- The repetitions of `p` collect the values of matches that follow each other: as they are run, and by the loops with
    a test of their own. -/
structure CollectsMatches (p : Parser α) (separator : Parser σ) : Prop where
  many : Collects (runsOf p.many) (LoopMatches p Shortens)
  many1 : Collects (runsOf p.many1) (FirstThen p (LoopMatches p Shortens))
  exactlyN : ∀ n, Collects (runsOf fun seed reduce => p.exactlyN seed reduce n) (Row p n)
  separatedBy : Collects (runsOf (p.separatedBy separator))
    (FirstThen p (LoopMatches (separator.ignorePrevious p) Shortens))
  manyLoop : Collects (LoopOf p) (LoopMatches p Elsewhere)
  many1Loop : Collects (FirstThenLoop p p) (FirstThen p (LoopMatches p Elsewhere))
  separatedByLoop : Collects (FirstThenLoop p (separator.ignorePrevious p))
    (FirstThen p (LoopMatches (separator.ignorePrevious p) Elsewhere))
  /-- Where no match ends before its start, the loops are what is run. -/
  many_eq : ∀ i, i.Valid → p.MovesOn i → IsRunOf (LoopOf p) p.many i
  many1_eq : ∀ i, i.Valid → p.MovesOn i → IsRunOf (FirstThenLoop p p) p.many1 i
  separatedBy_eq : ∀ i, i.Valid → p.MovesOn i → (separator.ignorePrevious p).MovesOn i →
    IsRunOf (FirstThenLoop p (separator.ignorePrevious p)) (p.separatedBy separator) i

theorem collectsMatches (p : Parser α) (separator : Parser σ) : CollectsMatches p separator where
  many := collects_many p
  many1 := (foldsCollected_many1 p).collects fun _ _ _ => ending_firstFold_iff
  exactlyN n := (foldsCollected_exactlyN p n).collects fun _ _ _ => ending_repeatFrom_collect_iff
  separatedBy := (foldsCollected_separatedBy p separator).collects fun _ _ _ => ending_firstFold_iff
  manyLoop := collects_loopOf p
  many1Loop := collects_firstThenLoop p p
  separatedByLoop := collects_firstThenLoop p _
  many_eq _ hi hp := isRunOf_many hi hp
  many1_eq _ hi hp _ _ _ _ := firstThenLoop_iff hi hp hp
  separatedBy_eq _ hi hp hnext _ _ _ _ := firstThenLoop_iff hi hp hnext

/-- Every repetition of every parser, with every separator, collects and then folds: whole runs are the same, with
    their events, and so are the ends of the loops where nothing bounds them. What is collected are the values of the
    matches, in their order and each of them once. -/
theorem folds_collected (p : Parser α) (separator : Parser σ) :
    FoldsCollected p.many ∧ FoldsCollected p.many1 ∧ (∀ n, FoldsCollected fun seed reduce => p.exactlyN seed reduce n) ∧
      FoldsCollected (p.separatedBy separator) ∧ LoopCollects p ∧ LoopCollects (separator.ignorePrevious p) ∧
      CollectsMatches p separator :=
  ⟨foldsCollected_many p, foldsCollected_many1 p, foldsCollected_exactlyN p, foldsCollected_separatedBy p separator,
    loopCollects p, loopCollects _, collectsMatches p separator⟩

end Parser
end ParserKit
