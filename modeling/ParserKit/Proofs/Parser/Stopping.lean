import ParserKit.Proofs.Parser.Decomposition
import ParserKit.Proofs.Parser.Separation
import ParserKit.Proofs.Parser.Totality

/-! Reports of repetitions. All that a repetition reports itself is that its loop ended because of a match that consumed
    nothing. It says so where the loop ends, once, under the name of the parser that it repeats, and after everything
    that the runs of this parser had to report; if the parser fails there, it says nothing (`stops_reported`). A first
    match before the loop and matches that are counted may consume nothing without a report.

    A parser can report that it stops too, if it is a repetition itself. What a repetition reports itself is what is
    left of its reports if the parsers inside of it are silent. -/

namespace ParserKit

/-! ### Silence -/

namespace Run
variable {α β : Type}

/-- The run without its events. -/
def silent (r : Run α) : Run α := ⟨[], r.ending⟩

theorem silent_onSuccess (r : Run (Outcome α)) (next : α → View → Run (Outcome β)) :
    (r.onSuccess next).silent = r.silent.onSuccess fun v k => (next v k).silent := by
  obtain ⟨es, (⟨v, k⟩ | -) | f | -⟩ := r
  · rfl
  · rfl
  · rfl
  · rfl

end Run

namespace Parser
variable {α β σ : Type} {p unit : Parser α} {separator : Parser σ} {i k : View}

/-- The same parser, without any events of its runs. -/
def silent (p : Parser α) : Parser α := fromFn p.naming fun i => (p.parse i).silent

theorem MovesOn.silent (h : p.MovesOn i) : p.silent.MovesOn i := ⟨h.later⟩

theorem silent_ignorePrevious (separator : Parser σ) (p : Parser α) :
    separator.silent.ignorePrevious p.silent = (separator.ignorePrevious p).silent := by
  refine eq_of_name_parse rfl (funext fun i => ?_)
  show _ = ((separator.ignorePrevious p).parse i).silent
  rw [ignorePrevious_parse, ignorePrevious_parse, Run.silent_onSuccess]
  refine congrArg (separator.silent.parse i).onSuccess (funext fun w => funext fun k => ?_)
  exact (Run.silent_onSuccess (p.parse k) fun v l => .done (.success v l)).symm

/-- Counted matches have nothing to report themselves. -/
theorem repeatFrom_silent (p : Parser α) (reduce : β → α → β) (n : Nat) (acc : β) (i : View) :
    p.silent.repeatFrom reduce n acc i = (p.repeatFrom reduce n acc i).silent := by
  induction n generalizing acc i with
  | zero => rfl
  | succ n ih =>
    rw [repeatFrom, repeatFrom, Run.silent_onSuccess]
    exact congrArg (p.silent.parse i).onSuccess (funext fun v => funext fun k => ih (reduce acc v) k)

/-! ### Reports of the parsers inside -/

/-- The reports of runs from these views, one run after the other. -/
def eventsFrom (p : Parser α) (views : List View) : List Event := views.flatMap fun i => (p.parse i).events

/-- Where a match from `i` ends, if there is one. -/
def ends (p : Parser α) (i : View) : List View :=
  match (p.parse i).ending with
  | .done (.success _ k) => [k]
  | _ => []

theorem events_onSuccess (p : Parser α) (i : View) {next : α → View → Run (Outcome β)} {f : View → List Event}
    (h : ∀ v k, (next v k).events = f k) :
    ((p.parse i).onSuccess next).events = (p.parse i).events ++ (p.ends i).flatMap f := by
  rw [ends]
  obtain ⟨es, (⟨v, k⟩ | -) | f | -⟩ := p.parse i
  · simp [Run.onSuccess, Run.andThen, Run.after, h]
  · simp [Run.onSuccess, Run.andThen, Run.after, Run.done]
  · simp [Run.onSuccess, Run.andThen]
  · simp [Run.onSuccess, Run.andThen]

theorem events_ignorePrevious (separator : Parser σ) (p : Parser α) (i : View) :
    ((separator.ignorePrevious p).parse i).events = (separator.parse i).events ++ p.eventsFrom (separator.ends i) := by
  rw [ignorePrevious_parse]
  refine events_onSuccess separator i fun _ k => ?_
  obtain ⟨es, (⟨v, l⟩ | -) | f | -⟩ := p.parse k
  · simp [Run.onSuccess, Run.andThen, Run.after, Run.done]
  · simp [Run.onSuccess, Run.andThen, Run.after, Run.done]
  · rfl
  · rfl

/-- Where `n` matches in a row start, as far as one follows the other. -/
def starts (p : Parser α) : Nat → View → List View
  | 0, _ => []
  | n + 1, i => i :: (p.ends i).flatMap fun k => starts p n k

theorem events_repeatFrom (p : Parser α) (reduce : β → α → β) (n : Nat) (acc : β) (i : View) :
    (p.repeatFrom reduce n acc i).events = p.eventsFrom (p.starts n i) := by
  induction n generalizing acc i with
  | zero => rfl
  | succ n ih =>
    rw [repeatFrom, events_onSuccess p i fun v k => ih (reduce acc v) k, starts, eventsFrom, List.flatMap_cons,
      List.flatMap_assoc]
    rfl

/-! ### The end of a loop -/

/-- A match from `k` that consumes nothing. -/
def ZeroWidth (p : Parser α) (k : View) : Prop :=
  ∃ v rest, (p.parse k).ending = .done (.success v rest) ∧ rest.offset = k.offset

/-- What a loop that repeats `p` and ends at `k` reports of its end. -/
structure StopReport (p : Parser α) (k : View) (own : List Event) : Prop where
  length_le : own.length ≤ 1
  ne_nil_iff : own ≠ [] ↔ ZeroWidth p k
  eq_stopped : ∀ e ∈ own, e = .stopped p.name k.offset
  /-- A loop that ends because its parser fails does not report it. -/
  fails : (p.parse k).ending = .done .failure → own = []

theorem StopReport.of_failure (hp : (p.parse k).ending = .done .failure) : StopReport p k [] where
  length_le := Nat.zero_le 1
  ne_nil_iff := by
    refine ⟨fun h => absurd rfl h, ?_⟩
    rintro ⟨v, rest, hv, -⟩
    rw [hp] at hv
    cases hv
  eq_stopped _ he := nomatch he
  fails _ := rfl

theorem StopReport.of_zeroWidth (h : ZeroWidth p k) : StopReport p k [.stopped p.name k.offset] where
  length_le := Nat.le_refl 1
  ne_nil_iff := ⟨fun _ => h, fun _ => List.cons_ne_nil _ _⟩
  eq_stopped _ he := List.mem_singleton.mp he
  fails hp := by
    obtain ⟨v, rest, hv, -⟩ := h
    rw [hp] at hv
    cases hv

/-- Matches one after the other from `i` on, each of which ends somewhere else than it starts. -/
def Rounds (p : Parser α) : View → List (α × View) → Prop
  | _, [] => True
  | i, (v, k) :: steps => (p.parse i).ending = .done (.success v k) ∧ k.offset ≠ i.offset ∧ Rounds p k steps

/-- What a loop that repeats `p` from `i` to `k` reports: what the runs of `p` report, from where the loop starts and
    from where each of its matches ends, and then `own`. -/
structure LoopReport (p : Parser α) (i k : View) (events own : List Event) : Prop where
  rounds : ∃ steps, Rounds p i steps ∧ chainEnd i steps = k ∧
    events = p.eventsFrom (i :: steps.map (·.2)) ++ own
  stop : StopReport p k own

theorem LoopReport.again {v : α} {stop : View} {events own : List Event}
    (hp : (p.parse i).ending = .done (.success v k)) (hk : k.offset ≠ i.offset)
    (h : LoopReport p k stop events own) : LoopReport p i stop ((p.parse i).events ++ events) own := by
  obtain ⟨⟨steps, hrounds, hend, rfl⟩, hstop⟩ := h
  refine ⟨⟨(v, k) :: steps, ⟨hp, hk, hrounds⟩, hend, ?_⟩, hstop⟩
  rw [← List.append_assoc]
  rfl

/-- Every loop that comes to an end, whatever is repeated in it, and wherever the matches of that may end. -/
def LoopsReported (p : Parser α) : Prop := ∀ {β : Type} {reduce : β → α → β} {acc : β} {i : View} {r : Run (β × View)},
  Loops p reduce acc i r → ∃ x own, r.ending = .done x ∧ LoopReport p i x.2 r.events own ∧
    Loops p.silent reduce acc i ⟨own, .done x⟩

theorem loopsReported (p : Parser α) : LoopsReported p := by
  intro β reduce acc i r hr
  -- a loop over the silent parser makes the same rounds, and has only its own report left at the end of them
  induction hr with
  | @fails acc i events hp =>
    have hsilent : p.silent.parse i = ⟨[], .done .failure⟩ := congrArg Run.silent hp
    have hstop : StopReport p i [] := .of_failure (congrArg Run.ending hp)
    refine ⟨(acc, i), [], rfl, ⟨⟨[], trivial, rfl, ?_⟩, hstop⟩, .fails hsilent⟩
    simp [eventsFrom, hp]
  | @stops acc i v k events hp hk =>
    have hsilent : p.silent.parse i = ⟨[], .done (.success v k)⟩ := congrArg Run.silent hp
    have hstop : StopReport p i [.stopped p.name i.offset] := .of_zeroWidth ⟨v, k, congrArg Run.ending hp, hk⟩
    refine ⟨(acc, i), _, rfl, ⟨⟨[], trivial, rfl, ?_⟩, hstop⟩, .stops hsilent hk⟩
    simp [eventsFrom, hp]
  | @again acc i v k events r hp hk _ ih =>
    have hsilent : p.silent.parse i = ⟨[], .done (.success v k)⟩ := congrArg Run.silent hp
    obtain ⟨x, own, hx, hreport, hloops⟩ := ih
    have h := LoopReport.again (congrArg Run.ending hp) hk hreport
    rw [hp] at h
    refine ⟨x, own, hx, ?_, .again hsilent hk hloops⟩
    rwa [Run.after, Run.join_eq_append]

/-! ### What a repetition reports -/

theorem events_folded (r : Run (β × View)) : (folded r).events = r.events := by
  obtain ⟨es, ⟨acc, rest⟩ | f | -⟩ := r
  · simp [folded, Run.andThen, Run.after, Run.done]
  · rfl
  · rfl

theorem MovesOn.many_report (h : p.MovesOn i) (hi : i.Valid) {seed acc : β} {reduce : β → α → β}
    (hend : ((p.many seed reduce).parse i).ending = .done (.success acc k)) :
    LoopReport p i k ((p.many seed reduce).parse i).events ((p.silent.many seed reduce).parse i).events := by
  have hfold : (p.fold reduce seed i).ending = .done (acc, k) := ending_folded_eq_success_iff.mp hend
  obtain ⟨x, own, hx, hreport, hsilent⟩ := loopsReported p (h.loops_fold hi hfold)
  rw [hfold] at hx
  cases hx
  rw [many_parse, many_parse, events_folded, events_folded, ← hsilent.eq_fold h.silent hi]
  exact hreport

theorem MovesOn.ignorePrevious (hs : separator.MovesOn i) (hp : p.MovesOn i) :
    (separator.ignorePrevious p).MovesOn i := by
  refine ⟨fun {j k v} hij hend => ?_⟩
  obtain ⟨w, l, hw, hv⟩ := ending_ignorePrevious_eq_success_iff.mp hend
  have hjl := hs.later hij hw
  exact hjl.trans (hp.later (hij.trans hjl) hv)

/-- What a repetition reports that wants a match of `p` from `i` first, and then goes on with `unit`. -/
structure FirstReport (p unit : Parser α) (i : View) (r own : Run (Outcome β)) : Prop where
  success : ∀ acc k, r.ending = .done (.success acc k) → ∃ v j events, (p.parse i).ending = .done (.success v j) ∧
    r.events = (p.parse i).events ++ events ∧ LoopReport unit j k events own.events
  failure : r.ending = .done .failure → r.events = (p.parse i).events ∧ own.events = []

theorem firstReport (hp : p.MovesOn i) (hunit : unit.MovesOn i) (hi : i.Valid) (seed : β) (reduce : β → α → β) :
    FirstReport p unit i ((p.parse i).onSuccess fun v j => (unit.many (reduce seed v) reduce).parse j)
      ((p.silent.parse i).onSuccess fun v j => (unit.silent.many (reduce seed v) reduce).parse j) := by
  constructor
  · intro acc k hend
    obtain ⟨v, j, hv, hmany⟩ := Run.ending_onSuccess_eq_success_iff.mp hend
    have hj := hp.later (.refl i) hv
    have hv' : (p.silent.parse i).ending = .done (.success v j) := hv
    rw [Run.onSuccess_of_ending hv, Run.onSuccess_of_ending hv']
    exact ⟨v, j, _, hv, Run.join_eq_append _ _, (hunit.of_later hj).many_report (hj.valid hi) hmany⟩
  · intro hend
    rcases Run.ending_onSuccess_eq_failure_iff.mp hend with hfail | ⟨v, j, -, hmany⟩
    · have hfail' : (p.silent.parse i).ending = .done .failure := hfail
      rw [Run.onSuccess_of_failure hfail, Run.onSuccess_of_failure hfail']
      exact ⟨rfl, rfl⟩
    · exact absurd hmany (ending_many_ne_failure unit (reduce seed v) reduce j)

/-- What the repetitions of `p` from `i` report, and what they report themselves. -/
structure StopsReported (p : Parser α) (separator : Parser σ) (seed : β) (reduce : β → α → β) (i : View) : Prop where
  many : ∀ acc k, ((p.many seed reduce).parse i).ending = .done (.success acc k) →
    LoopReport p i k ((p.many seed reduce).parse i).events ((p.silent.many seed reduce).parse i).events
  many1 : FirstReport p p i ((p.many1 seed reduce).parse i) ((p.silent.many1 seed reduce).parse i)
  separatedBy : FirstReport p (separator.ignorePrevious p) i ((p.separatedBy separator seed reduce).parse i)
    ((p.silent.separatedBy separator.silent seed reduce).parse i)
  /-- A separator and its item report what each of them reports, and nothing else. -/
  unit : ∀ j, ((separator.ignorePrevious p).parse j).events =
    (separator.parse j).events ++ p.eventsFrom (separator.ends j)
  exactlyN : ∀ n, ((p.exactlyN seed reduce n).parse i).events = p.eventsFrom (p.starts n i) ∧
    ((p.silent.exactlyN seed reduce n).parse i).events = []

theorem MovesOn.stopsReported (hp : p.MovesOn i) (hs : separator.MovesOn i) (hi : i.Valid) (seed : β)
    (reduce : β → α → β) : StopsReported p separator seed reduce i where
  many _ _ hend := hp.many_report hi hend
  many1 := firstReport hp hp hi seed reduce
  separatedBy := by
    have h := firstReport hp (hs.ignorePrevious hp) hi seed reduce
    rwa [← silent_ignorePrevious] at h
  unit := events_ignorePrevious separator p
  exactlyN n := by
    refine ⟨events_repeatFrom p reduce n seed i, ?_⟩
    show (p.silent.repeatFrom reduce n seed i).events = []
    rw [repeatFrom_silent]
    rfl

theorem MovesOn.of_staysInText (hi : i.Valid) (h : ∀ j : View, j.Valid → j.isSuffixOf i = true → p.StaysInText j) :
    p.MovesOn i := ⟨fun hij hend => (h _ (hij.valid hi) hij.isSuffixOf).later (hij.valid hi) hend⟩

/-- The repetitions of a parser that stays in the text, whatever it is, with whatever seed and reducer. Where nothing
    bounds the loops this is so for all parsers, and so after all separators, also such that leave the text. -/
theorem stops_reported {b : Buffer} {offset : Nat} (hi : View.startingAt b offset = .ok i)
    (hp : ∀ j : View, j.Valid → j.isSuffixOf i = true → p.StaysInText j)
    (hs : ∀ j : View, j.Valid → j.isSuffixOf i = true → separator.StaysInText j) (seed : β) (reduce : β → α → β) :
    StopsReported p separator seed reduce i ∧ ∀ {γ : Type} (unit : Parser γ), LoopsReported unit := by
  obtain ⟨-, -, hvalid⟩ := View.startingAt_eq_ok_iff.mp hi
  have hmoves : p.MovesOn i := .of_staysInText hvalid hp
  have hmoves' : separator.MovesOn i := .of_staysInText hvalid hs
  exact ⟨hmoves.stopsReported hmoves' hvalid seed reduce, loopsReported⟩

/-- A traced digit that may be missing reports each of its matches, also the last one, which is at a letter and
    consumes nothing. Then the repetition reports that it stops there. -/
theorem stops_reported_missing :
    let i : View := ⟨⟨0, "é12a"⟩, 2, ['1', '2', 'a']⟩
    let digit := (satisfy Char.isDigit).optional.traced
    let comma := (element ',').optional
    View.startingAt ⟨0, "é12a"⟩ 2 = .ok i ∧ (∀ j : View, j.Valid → j.isSuffixOf i = true → digit.StaysInText j) ∧
      (∀ j : View, j.Valid → j.isSuffixOf i = true → comma.StaysInText j) ∧
      StopsReported digit comma 0 (fun n _ => n + 1) i ∧
      LoopReport digit i (i.drop 2) [.matched digit.name 2 1, .matched digit.name 3 1, .matched digit.name 4 0,
        .stopped digit.name 4] [.stopped digit.name 4] := by
  intro i digit comma
  have hi : View.startingAt ⟨0, "é12a"⟩ 2 = .ok i := rfl
  have hdigit : ∀ j : View, j.Valid → j.isSuffixOf i = true → digit.StaysInText j := fun j hj _ =>
    (Simulation.Similar.traced Simulation.reports_inPlace
      (Simulation.Similar.satisfy Char.isDigit).optional).staysInText hj
  have hcomma : ∀ j : View, j.Valid → j.isSuffixOf i = true → comma.StaysInText j := fun j hj _ =>
    (Simulation.Similar.element ',').optional.staysInText hj
  have h := stops_reported hi hdigit hcomma 0 fun n _ => n + 1
  refine ⟨hi, hdigit, hcomma, h.1, ?_⟩
  have hend : ((digit.many 0 fun n _ => n + 1).parse i).ending = .done (.success 2 (i.drop 2)) := by decide +kernel
  have hevents : ((digit.many 0 fun n _ => n + 1).parse i).events = [.matched digit.name 2 1, .matched digit.name 3 1,
      .matched digit.name 4 0, .stopped digit.name 4] := by decide +kernel
  have hown : ((digit.silent.many 0 fun n _ => n + 1).parse i).events = [.stopped digit.name 4] := by decide +kernel
  have hreport := h.1.many 2 (i.drop 2) hend
  rwa [hevents, hown] at hreport

end Parser
end ParserKit
