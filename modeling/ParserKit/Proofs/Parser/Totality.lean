import ParserKit.Proofs.Calculator.Reading
import ParserKit.Proofs.Parser.Complete

/-! Parsers that come to an outcome wherever they start. Every combinator keeps this, whatever its functions, tests and
    reducers; only a repetition has to give a reason. Its loop goes on as long as a match ends somewhere else than it
    starts (`Loops`). Parsers that only move forward cannot do so for ever, since a match that ends somewhere else then
    leaves less of the text; so the loop as it stands there comes to an end, and `fold` is what it comes to
    (`Total.loops_iff`). -/

namespace ParserKit

namespace Run
variable {α β : Type}

/-- The run ends with a result that is as `Q` says. -/
def Gives (r : Run α) (Q : α → Prop) : Prop := ∃ a, r.ending = .done a ∧ Q a

theorem Gives.done {Q : α → Prop} {a : α} (h : Q a) : (Run.done a).Gives Q := ⟨a, rfl, h⟩

theorem Gives.andThen {Q : α → Prop} {Q' : β → Prop} {r : Run α} {next : α → Run β} (h : r.Gives Q)
    (hnext : ∀ a, Q a → (next a).Gives Q') : (r.andThen next).Gives Q' := by
  obtain ⟨a, ha, hQ⟩ := h
  obtain ⟨b, hb, hQ'⟩ := hnext a hQ
  exact ⟨b, ending_andThen_eq_done_iff.mpr ⟨a, ha, hb⟩, hQ'⟩

theorem Gives.mono {Q Q' : α → Prop} {r : Run α} (h : r.Gives Q) (hQ : ∀ a, Q a → Q' a) : r.Gives Q' := by
  obtain ⟨a, ha, hQa⟩ := h
  exact ⟨a, ha, hQ a hQa⟩

end Run

/-! ### Outcomes -/

/-- A failure, or a match that ends at `i` or later. -/
def Outcome.Onward {α : Type} (i : View) : Outcome α → Prop
  | success _ k => i.Later k
  | failure => True

namespace Run
open Outcome
variable {α β : Type} {i k : View} {r : Run (Outcome α)}

theorem Gives.onSuccess {next : α → View → Run (Outcome β)} (h : r.Gives (Onward i))
    (hnext : ∀ v k, i.Later k → (next v k).Gives (Onward i)) : (r.onSuccess next).Gives (Onward i) := by
  refine h.andThen fun o ho => ?_
  rcases o with ⟨v, k⟩ | -
  · exact hnext v k ho
  · exact .done trivial

theorem Gives.onFailure {other : Unit → Run (Outcome α)} (h : r.Gives (Onward i))
    (hother : (other ()).Gives (Onward i)) : (r.onFailure other).Gives (Onward i) := by
  refine h.andThen fun o ho => ?_
  rcases o with ⟨v, k⟩ | -
  · exact .done ho
  · exact hother

theorem Gives.of_later (hik : i.Later k) (h : r.Gives (Onward k)) : r.Gives (Onward i) := by
  refine h.mono fun o ho => ?_
  rcases o with ⟨v, l⟩ | -
  · exact hik.trans ho
  · trivial

end Run

theorem Calculator.Reads.gives {part : Calculator.Part} {i : View} {r : Run (Outcome Int)} (h : Reads part i r) :
    r.Gives (Outcome.Onward i) := by
  rcases h with ⟨w, n, -, rfl⟩ | ⟨-, rfl⟩
  · exact .done (i.later_drop w.length)
  · exact .done trivial

namespace Parser
open Run Outcome
variable {α β γ σ : Type} {p q : Parser α} {i k : View}

/-- From every place in a text the parser comes to an outcome, and no match of it ends before its start. -/
def Total (p : Parser α) : Prop := ∀ i : View, i.Valid → (p.parse i).Gives (Onward i)

theorem Total.exists_parse_eq (h : p.Total) (hi : i.Valid) : ∃ events o, p.parse i = ⟨events, .done o⟩ := by
  obtain ⟨o, ho, -⟩ := h i hi
  exact ⟨(p.parse i).events, o, ho ▸ rfl⟩

theorem Total.later (h : p.Total) (hi : i.Valid) {v : α} {events : List Event}
    (hp : p.parse i = ⟨events, .done (.success v k)⟩) : i.Later k := by
  obtain ⟨o, ho, honward⟩ := h i hi
  rw [hp] at ho
  cases ho
  exact honward

/-! ### The loop of a repetition -/

/-- What the loop of a repetition comes to, round by round. It has no bound of its own: it ends where `p` fails, or
    where a match ends where it started. -/
inductive Loops (p : Parser α) (reduce : β → α → β) : β → View → Run (β × View) → Prop
  | fails {acc i events} : p.parse i = ⟨events, .done .failure⟩ →
      Loops p reduce acc i ⟨events, .done (acc, i)⟩
  | stops {acc i v k events} : p.parse i = ⟨events, .done (.success v k)⟩ → k.offset = i.offset →
      Loops p reduce acc i ⟨events ++ [.stopped p.name i.offset], .done (acc, i)⟩
  | again {acc i v k events r} : p.parse i = ⟨events, .done (.success v k)⟩ → k.offset ≠ i.offset →
      Loops p reduce (reduce acc v) k r → Loops p reduce acc i (r.after events)

/-- Every match from `i` on ends where it starts or later, in the same text. -/
structure MovesOn (p : Parser α) (i : View) : Prop where
  later : ∀ {j k : View} {v : α}, i.Later j → (p.parse j).ending = .done (.success v k) → j.Later k

theorem MovesOn.of_later (h : p.MovesOn i) (hik : i.Later k) : p.MovesOn k := ⟨fun hkj => h.later (hik.trans hkj)⟩

theorem Total.movesOn (h : p.Total) (hi : i.Valid) : p.MovesOn i := by
  refine ⟨fun {j k v} hij hp => ?_⟩
  obtain ⟨o, ho, honward⟩ := h j (hij.valid hi)
  rw [hp] at ho
  cases ho
  exact honward

theorem Loops.eq_fold {reduce : β → α → β} {acc : β} {r : Run (β × View)} (hr : Loops p reduce acc i r)
    (h : p.MovesOn i) (hi : i.Valid) : r = p.fold reduce acc i := by
  induction hr with
  | fails hp =>
    rw [fold, hp]
    simp [andThen, Run.done, after]
  | @stops acc i v k events hp hk =>
    have hlater := h.later (.refl i) (congrArg Run.ending hp)
    have hlen : ¬ k.len < i.len := by
      rw [hlater.len_lt_iff hi, hk]
      exact Nat.lt_irrefl _
    rw [fold, hp]
    simp [andThen, hlen, emit, Run.done, after]
  | @again acc i v k events r hp hk _ ih =>
    have hlater := h.later (.refl i) (congrArg Run.ending hp)
    have hlen : k.len < i.len := (hlater.len_lt_iff hi).mpr (Nat.lt_of_le_of_ne hlater.offset_le (Ne.symm hk))
    rw [fold, hp, ih (h.of_later hlater) (hlater.valid hi)]
    simp only [andThen, hlen, if_true]

/-- Where a repetition comes to an end, the loop does. -/
theorem MovesOn.exists_loops {reduce : β → α → β} {acc : β} {x : β × View} (h : p.MovesOn i) (hi : i.Valid)
    (hx : (p.fold reduce acc i).ending = .done x) : ∃ r, Loops p reduce acc i r := by
  induction hlen : i.len using Nat.strongRecOn generalizing i acc with
  | ind n ih =>
    rw [fold] at hx
    obtain ⟨o, ho, hnext⟩ := ending_andThen_eq_done_iff.mp hx
    have hp : p.parse i = ⟨(p.parse i).events, .done o⟩ := by rw [← ho]
    rcases o with ⟨v, k⟩ | -
    · by_cases hk : k.offset = i.offset
      · exact ⟨_, .stops hp hk⟩
      · have hlater := h.later (.refl i) ho
        have hshorter : k.len < i.len := (hlater.len_lt_iff hi).mpr (Nat.lt_of_le_of_ne hlater.offset_le (Ne.symm hk))
        simp only [hshorter, if_true] at hnext
        obtain ⟨r, hr⟩ := ih _ (hlen ▸ hshorter) (h.of_later hlater) (hlater.valid hi) hnext rfl
        exact ⟨_, .again hp hk hr⟩
    · exact ⟨_, .fails hp⟩

theorem MovesOn.loops_fold {reduce : β → α → β} {acc : β} {x : β × View} (h : p.MovesOn i) (hi : i.Valid)
    (hx : (p.fold reduce acc i).ending = .done x) : Loops p reduce acc i (p.fold reduce acc i) := by
  obtain ⟨r, hr⟩ := h.exists_loops hi hx
  exact hr.eq_fold h hi ▸ hr

/-- A round that does not end the loop leaves less of the text. -/
theorem Total.exists_loops (h : p.Total) (hi : i.Valid) (reduce : β → α → β) (acc : β) :
    ∃ r, Loops p reduce acc i r := by
  induction hn : i.rest.length using Nat.strongRecOn generalizing i acc with
  | ind n ih =>
    obtain ⟨events, o, hp⟩ := h.exists_parse_eq hi
    rcases o with ⟨v, k⟩ | -
    · by_cases hk : k.offset = i.offset
      · exact ⟨_, .stops hp hk⟩
      · have hlater := h.later hi hp
        have hlt := hlater.rest_length_lt (Nat.lt_of_le_of_ne hlater.offset_le (Ne.symm hk))
        obtain ⟨r, hr⟩ := ih _ (hn ▸ hlt) (hlater.valid hi) (reduce acc v) rfl
        exact ⟨_, .again hp hk hr⟩
    · exact ⟨_, .fails hp⟩

/-- The loop comes to an end, and to one end only. -/
theorem Total.loops_iff (h : p.Total) (hi : i.Valid) {reduce : β → α → β} {acc : β} {r : Run (β × View)} :
    Loops p reduce acc i r ↔ r = p.fold reduce acc i := by
  refine ⟨fun hr => hr.eq_fold (h.movesOn hi) hi, ?_⟩
  rintro rfl
  obtain ⟨r, hr⟩ := h.exists_loops hi reduce acc
  exact hr.eq_fold (h.movesOn hi) hi ▸ hr

theorem Loops.gives {reduce : β → α → β} {acc : β} {r : Run (β × View)} (hr : Loops p reduce acc i r) (h : p.Total)
    (hi : i.Valid) : r.Gives fun x => i.Later x.2 := by
  induction hr with
  | fails | stops => exact ⟨_, rfl, .refl _⟩
  | again hp _ _ ih =>
    have hlater := h.later hi hp
    obtain ⟨x, hx, hkx⟩ := ih (hlater.valid hi)
    exact ⟨x, hx, hlater.trans hkx⟩

theorem Total.fold (h : p.Total) (hi : i.Valid) (reduce : β → α → β) (acc : β) :
    (p.fold reduce acc i).Gives fun x => i.Later x.2 := ((h.loops_iff hi).mpr rfl).gives h hi

/-- The loop that repeats `p` from `i` on comes to an end, and a repetition is what it comes to. -/
def LoopEnds (p : Parser α) (i : View) : Prop := ∀ {β : Type} (reduce : β → α → β) (acc : β),
  (∃ x, (p.fold reduce acc i).ending = .done x) ∧ ∀ r, Loops p reduce acc i r ↔ r = p.fold reduce acc i

theorem Total.loopEnds (h : p.Total) (hi : i.Valid) : LoopEnds p i := by
  intro β reduce acc
  obtain ⟨x, hx, -⟩ := h.fold hi reduce acc
  exact ⟨⟨x, hx⟩, fun _ => h.loops_iff hi⟩

/-! ### Combinators -/

namespace Total

theorem run_later (h : p.Total) (hi : i.Valid) (hik : i.Later k) : (p.parse k).Gives (Onward i) :=
  (h k (hik.valid hi)).of_later hik

theorem exists_ending (h : p.Total) (hi : i.Valid) : ∃ o, (p.parse i).ending = .done o := by
  obtain ⟨o, ho, -⟩ := h i hi
  exact ⟨o, ho⟩

theorem named (h : p.Total) (n : Thunk String) : (p.named n).Total := h

theorem fromFn (h : p.Total) (n : Thunk String) : (Parser.fromFn n p.parse).Total := h

theorem always (v : α) : (Parser.always v).Total := fun i _ => .done (View.Later.refl i)

theorem fail : (Parser.fail : Parser α).Total := fun _ _ => .done trivial

theorem map (h : p.Total) (f : α → β) : (f <$> p).Total := by
  refine fun i hi => (h i hi).andThen fun o ho => .done ?_
  rcases o with ⟨v, k⟩ | -
  · exact ho
  · trivial

theorem transform (h : p.Total) (f : α → β) : (p.transform f).Total := h.map f

theorem traced (h : p.Total) : p.traced.Total := by
  refine fun i hi => (h i hi).andThen fun o ho => ?_
  rcases o with ⟨v, k⟩ | -
  · -- a match never ends before its start, so its length can be told
    have hlater : i.Later k := ho
    simp only [traceOf, hlater.offset_le, if_true]
    exact ⟨_, rfl, ho⟩
  · exact ⟨_, rfl, trivial⟩

theorem ifSatisfies (h : p.Total) (test : α → Bool) : (p.ifSatisfies test).Total := by
  refine fun i hi => (h i hi).onSuccess fun v k hk => ?_
  by_cases ht : test v = true
  · simp only [ht, if_true]
    exact .done hk
  · simp only [ht]
    exact .done trivial

theorem orWith (h : p.Total) (h' : q.Total) : (p.orWith q).Total := fun i hi => (h i hi).onFailure (h' i hi)

theorem optional (h : p.Total) : p.optional.Total := by
  intro i hi
  have hsome : ((p.parse i).onSuccess fun v k => .done (.success (some v) k)).Gives (Onward i) :=
    (h i hi).onSuccess fun v k hk => .done hk
  exact hsome.onFailure (.done (View.Later.refl i))

theorem lookahead (h : p.Total) : p.lookahead.Total :=
  fun i hi => (h i hi).onSuccess fun _ _ _ => .done (View.Later.refl i)

theorem bind (h : p.Total) {next : α → Parser β} (hnext : ∀ v, (next v).Total) : (p.bind next).Total :=
  fun i hi => (h i hi).onSuccess fun v _ hk => (hnext v).run_later hi hk

theorem combine {q : Parser β} (h : p.Total) (h' : q.Total) (f : α → β → γ) : (p.combine q f).Total := by
  refine fun i hi => (h i hi).onSuccess fun a k hk => ?_
  exact (h'.run_later hi hk).onSuccess fun b l hl => .done hl

theorem ignore {q : Parser β} (h : p.Total) (h' : q.Total) : (p.ignore q).Total := h.combine h' _

theorem ignorePrevious {q : Parser β} (h : p.Total) (h' : q.Total) : (p.ignorePrevious q).Total := h.combine h' _

/-! ### Repetitions -/

theorem folded (h : p.Total) (hi : i.Valid) (hik : i.Later k) (reduce : β → α → β) (acc : β) :
    (Parser.folded (p.fold reduce acc k)).Gives (Onward i) :=
  (h.fold (hik.valid hi) reduce acc).andThen fun _ hx => .done (hik.trans hx)

theorem many (h : p.Total) (seed : β) (reduce : β → α → β) : (p.many seed reduce).Total :=
  fun i hi => h.folded hi (.refl i) reduce seed

theorem many1 (h : p.Total) (seed : β) (reduce : β → α → β) : (p.many1 seed reduce).Total :=
  fun i hi => (h i hi).onSuccess fun v _ hk => h.folded hi hk reduce (reduce seed v)

theorem separatedBy {separator : Parser σ} (h : p.Total) (h' : separator.Total) (seed : β) (reduce : β → α → β) :
    (p.separatedBy separator seed reduce).Total :=
  fun i hi => (h i hi).onSuccess fun v _ hk => (h'.ignorePrevious h).folded hi hk reduce (reduce seed v)

theorem repeatFrom (h : p.Total) (hi : i.Valid) (hik : i.Later k) (reduce : β → α → β) (n : Nat) (acc : β) :
    (p.repeatFrom reduce n acc k).Gives (Onward i) := by
  induction n generalizing acc k with
  | zero => exact .done hik
  | succ n ih => exact (h.run_later hi hik).onSuccess fun v l hl => ih hl (reduce acc v)

theorem exactlyN (h : p.Total) (seed : β) (reduce : β → α → β) (n : Nat) : (p.exactlyN seed reduce n).Total :=
  fun i hi => h.repeatFrom hi (.refl i) reduce n seed

/-! ### Series -/

theorem runAll {ps : List (Parser α)} (h : ∀ p ∈ ps, p.Total) (hi : i.Valid) (hik : i.Later k) :
    (Series.runAll ps k).Gives (Onward i) := by
  induction ps generalizing k with
  | nil => exact .done hik
  | cons p ps ih =>
    obtain ⟨hp, hps⟩ := List.forall_mem_cons.mp h
    exact (hp.run_later hi hik).onSuccess fun v l hl => (ih hps hl).onSuccess fun vs l hl => .done hl

theorem sequence {ps : List (Parser α)} (h : ∀ p ∈ ps, p.Total) (f : List α → β) : (Parser.sequence f ps).Total := by
  have htuple : (tuple ps : Parser (List α)).Total := fun i hi => runAll h hi (.refl i)
  exact htuple.transform f

/-! ### Characters, tokens and numbers -/

theorem item : Parser.item.Total := by
  intro i _
  show ((ofExcept i.splitFirst).andThen fun split => Run.done (Outcome.ofOption split)).Gives (Onward i)
  rw [View.splitFirst_eq]
  rcases i.rest with _ | ⟨c, cs⟩
  · exact .done trivial
  · exact .done (i.later_drop 1)

theorem literal (text : String) : (Parser.literal text).Total := by
  intro i _
  rw [literal_parse]
  by_cases h : text.toList <+: i.rest
  · rw [if_pos h]
    exact .done (i.later_drop _)
  · rw [if_neg h]
    exact .done trivial

theorem eof : Parser.eof.Total := by
  intro i _
  show (if i.isEmpty then Run.done (Outcome.success () i) else .done .failure).Gives (Onward i)
  by_cases h : i.isEmpty = true
  · rw [if_pos h]
    exact .done (View.Later.refl i)
  · rw [if_neg h]
    exact .done trivial

theorem digitValue : Parser.digitValue.Total := by
  intro i _
  show ((ofExcept i.splitFirst).andThen _).Gives (Onward i)
  rw [View.splitFirst_eq]
  rcases hr : i.rest with _ | ⟨c, cs⟩
  · exact .done trivial
  · refine .done ?_
    rcases hc : digitOf c with _ | d
    · simp only [List.head?_cons, Option.map_some, hc]
      trivial
    · simp only [List.head?_cons, Option.map_some, hc]
      exact i.later_drop 1

theorem satisfy (test : Char → Bool) : (Parser.satisfy test).Total := (item.ifSatisfies test).named _

theorem element (c : Char) : (Parser.element c).Total := (satisfy _).named _

theorem oneOf (set : String) : (Parser.oneOf set).Total := (satisfy _).named _

theorem noneOf (set : String) : (Parser.noneOf set).Total := (satisfy _).named _

theorem manyOf (c : Char) : (Parser.manyOf c).Total := ((element c).many _ _).named _

theorem whitespace : Parser.whitespace.Total := (manyOf ' ').named _

theorem padded (h : p.Total) : p.padded.Total := ((whitespace.ignorePrevious h).ignore whitespace).named _

theorem token (text : String) : (Parser.token text).Total := (literal text).padded.named _

theorem digit : Parser.digit.Total := (oneOf _).named _

theorem integer : Parser.integer.Total := (digitValue.many1 _ _).named _

/-! ### Expressions -/

theorem lazy {make : Unit → Parser α} (h : (make ()).Total) : (Parser.lazy make).Total := h

theorem factorOver {inner : Parser Int} (h : inner.Total) : (Calculator.factorOver inner).Total :=
  ((((element '(').ignorePrevious h).ignore (element ')')).orWith (integer.transform _)).padded.named _

theorem termOver {inner : Parser Int} (h : inner.Total) : (Calculator.termOver inner).Total :=
  (h.factorOver.separatedBy (token "*") _ _).named _

theorem expr : Calculator.expr.Total := fun _ hi => (Calculator.reads_expr hi).gives

theorem term : Calculator.term.Total := fun _ hi => (Calculator.reads_term hi).gives

theorem factor : Calculator.factor.Total := fun _ hi => (Calculator.reads_factor hi).gives

end Total

end Parser
end ParserKit
