import Mathlib.Logic.Basic
import ParserKit.Calculator.Expr
import ParserKit.Proofs.View.Drop

/-! Simulations. Many facts about all parsers of the library compare two runs step by step: of a parser and of
    a changed one, from a view and from another one, with a small and with a great allowance of recursive
    calls. A `Simulation` says which views, events and faults stand for each other. Every combinator keeps
    similarity, whatever its functions, tests and reducers, so a fact about whole grammars only has to say
    what becomes of the references in them.

    Similar parsers only move forward: where they match, both end at a view that is `Later` than their
    start. -/

namespace ParserKit

/-- What two runs may differ in. -/
structure Simulation where
  view : View → View → Prop
  /-- Stretches of events that stand for each other. -/
  events : List Event → List Event → Prop
  fault : Fault → Fault → Prop
  /-- Whether similar parsers must have the same name. -/
  named : Prop
  /-- Whether a run on the left that was cut off stands for every run. -/
  cutLeft : Prop
  /-- Whether every run stands for a run on the right that was cut off. -/
  cutRight : Prop
  rest_eq : ∀ {i j}, view i j → i.rest = j.rest
  isEmpty_eq : ∀ {i j}, view i j → i.isEmpty = j.isEmpty
  drop : ∀ {i j}, view i j → ∀ n, view (i.drop n) (j.drop n)
  len_lt_iff : ∀ {i j i' j'}, view i j → view i' j' → (i'.len < i.len ↔ j'.len < j.len)
  nil : events [] []
  append : ∀ {es fs es' fs'}, events es fs → events es' fs' → events (es ++ es') (fs ++ fs')
  stopped : ∀ {i j n m}, view i j → (named → n = m) → events [.stopped n i.offset] [.stopped m j.offset]

namespace Simulation
variable {S : Simulation} {α β γ δ : Type}

/-! ### Runs -/

inductive Endings (S : Simulation) (Q : α → β → Prop) : Ending α → Ending β → Prop
  | done {a b} : Q a b → Endings S Q (.done a) (.done b)
  | fault {f g} : S.fault f g → Endings S Q (.fault f) (.fault g)
  | unfinished : Endings S Q .unfinished .unfinished

/-- Runs that stand for each other, with related results. -/
inductive Runs (S : Simulation) (Q : α → β → Prop) : Run α → Run β → Prop
  | cutLeft {es s} : S.cutLeft → Runs S Q ⟨es, .unfinished⟩ s
  | cutRight {r fs} : S.cutRight → Runs S Q r ⟨fs, .unfinished⟩
  | step {es fs x y} : S.events es fs → S.Endings Q x y → Runs S Q ⟨es, x⟩ ⟨fs, y⟩

theorem Runs.done {Q : α → β → Prop} {a : α} {b : β} (h : Q a b) : S.Runs Q (Run.done a) (Run.done b) :=
  .step S.nil (.done h)

theorem Runs.raise {Q : α → β → Prop} {f g : Fault} (h : S.fault f g) : S.Runs Q (Run.raise f) (Run.raise g) :=
  .step S.nil (.fault h)

theorem Runs.cut {Q : α → β → Prop} : S.Runs Q (Run.cut : Run α) (Run.cut : Run β) := .step S.nil .unfinished

theorem Runs.emit {e f : Event} (h : S.events [e] [f]) :
    S.Runs (fun _ _ => True) (Run.emit e) (Run.emit f) := .step h (.done trivial)

theorem Runs.andThen {Q : α → β → Prop} {Q' : γ → δ → Prop} {r : Run α} {s : Run β} {f : α → Run γ} {g : β → Run δ}
    (h : S.Runs Q r s) (hnext : ∀ a b, Q a b → S.Runs Q' (f a) (g b)) :
    S.Runs Q' (r.andThen f) (s.andThen g) := by
  cases h with
  | cutLeft hS => exact .cutLeft hS
  | cutRight hS => exact .cutRight hS
  | step hevents hending =>
    cases hending with
    | @done a b hab =>
      have h' := hnext a b hab
      simp only [Run.andThen, Run.after, Run.join_eq_append]
      generalize f a = r' at h' ⊢
      generalize g b = s' at h' ⊢
      cases h' with
      | cutLeft hS => exact .cutLeft hS
      | cutRight hS => exact .cutRight hS
      | step hevents' hending' => exact .step (S.append hevents hevents') hending'
    | fault hf => exact .step hevents (.fault hf)
    | unfinished => exact .step hevents .unfinished

theorem Runs.mono {Q Q' : α → β → Prop} {r : Run α} {s : Run β} (h : S.Runs Q r s)
    (hQ : ∀ a b, Q a b → Q' a b) : S.Runs Q' r s := by
  cases h with
  | cutLeft hS => exact .cutLeft hS
  | cutRight hS => exact .cutRight hS
  | step hevents hending =>
    refine .step hevents ?_
    cases hending with
    | done hab => exact .done (hQ _ _ hab)
    | fault hf => exact .fault hf
    | unfinished => exact .unfinished

/-! ### Outcomes -/

/-- Outcomes that stand for each other, of runs from `i` and from `j`. -/
inductive Outcomes (S : Simulation) (i j : View) : Outcome α → Outcome α → Prop
  | success {v i' j'} : S.view i' j' → i.Later i' → j.Later j' → Outcomes S i j (.success v i') (.success v j')
  | failure : Outcomes S i j .failure .failure

theorem Outcomes.map {i j : View} {o o' : Outcome α} (f : α → β) (h : S.Outcomes i j o o') :
    S.Outcomes i j (o.map f) (o'.map f) := by
  cases h with
  | success hv hi hj => exact .success hv hi hj
  | failure => exact .failure

theorem Outcomes.of_later {i j i' j' : View} {o o' : Outcome α} (hi : i.Later i') (hj : j.Later j')
    (h : S.Outcomes i' j' o o') : S.Outcomes i j o o' := by
  cases h with
  | success hv hi' hj' => exact .success hv (hi.trans hi') (hj.trans hj')
  | failure => exact .failure

theorem Runs.onSuccess {i j : View} {r s : Run (Outcome α)} {f g : α → View → Run (Outcome β)}
    (h : S.Runs (S.Outcomes i j) r s)
    (hnext : ∀ v i' j', S.view i' j' → i.Later i' → j.Later j' → S.Runs (S.Outcomes i j) (f v i') (g v j')) :
    S.Runs (S.Outcomes i j) (r.onSuccess f) (s.onSuccess g) := by
  refine h.andThen fun o o' ho => ?_
  cases ho with
  | success hv hi hj => exact hnext _ _ _ hv hi hj
  | failure => exact .done .failure

theorem Runs.onFailure {i j : View} {r s : Run (Outcome α)} {f g : Unit → Run (Outcome α)}
    (h : S.Runs (S.Outcomes i j) r s) (hnext : S.Runs (S.Outcomes i j) (f ()) (g ())) :
    S.Runs (S.Outcomes i j) (r.onFailure f) (s.onFailure g) := by
  refine h.andThen fun o o' ho => ?_
  cases ho with
  | success hv hi hj => exact .done (.success hv hi hj)
  | failure => exact hnext

/-! ### Parsers -/

structure Reports (S : Simulation) : Prop where
  matched : ∀ {n m i j i' j'}, (S.named → n = m) → S.view i j → S.view i' j' → i.Later i' → j.Later j' →
    S.events [.matched n i.offset (i'.offset - i.offset)] [.matched m j.offset (j'.offset - j.offset)]
  noMatch : ∀ {n m i j}, (S.named → n = m) → S.view i j → S.events [.noMatch n i.offset] [.noMatch m j.offset]

/-- Parsers whose runs stand for each other, from views that do. -/
def Alike (S : Simulation) (p q : Parser α) : Prop :=
  ∀ i j, S.view i j → S.Runs (S.Outcomes i j) (p.parse i) (q.parse j)

/-- Parsers that stand for each other in runs and in names. -/
structure Similar (S : Simulation) (p q : Parser α) : Prop where
  name : S.named → p.name = q.name
  run : S.Alike p q

namespace Similar
variable {p q : Parser α} {p' q' : Parser β}

theorem run_later (h : S.Similar p q) {i j i' j' : View} (hv : S.view i' j') (hi : i.Later i') (hj : j.Later j') :
    S.Runs (S.Outcomes i j) (p.parse i') (q.parse j') :=
  (h.run _ _ hv).mono fun _ _ ho => ho.of_later hi hj

theorem fromFn (n : Thunk String) {f g : View → Run (Outcome α)}
    (h : ∀ i j, S.view i j → S.Runs (S.Outcomes i j) (f i) (g j)) :
    S.Similar (Parser.fromFn n f) (Parser.fromFn n g) := ⟨fun _ => rfl, h⟩

theorem named (h : S.Similar p q) (n : Thunk String) : S.Similar (p.named n) (q.named n) := ⟨fun _ => rfl, h.run⟩

theorem always (v : α) : S.Similar (Parser.always v) (Parser.always v) :=
  fromFn _ fun _ _ hv => .done (.success hv (.refl _) (.refl _))

theorem fail : S.Similar (Parser.fail : Parser α) Parser.fail := fromFn _ fun _ _ _ => .done .failure

theorem faulty (n : String) {f : Fault} (hf : S.fault f f) :
    S.Similar (Parser.faulty n f : Parser α) (Parser.faulty n f) := fromFn _ fun _ _ _ => .raise hf

theorem cutOff (n : String) : S.Similar (Parser.cutOff n : Parser α) (Parser.cutOff n) := fromFn _ fun _ _ _ => .cut

theorem map (h : S.Similar p q) (f : α → β) : S.Similar (f <$> p) (f <$> q) :=
  ⟨h.name, fun _ _ hv => (h.run _ _ hv).andThen fun _ _ ho => .done (ho.map f)⟩

theorem transform (h : S.Similar p q) (f : α → β) : S.Similar (p.transform f) (q.transform f) :=
  ⟨fun hn => congrArg (fun n => s!"Transform({n})") (h.name hn),
    fun _ _ hv => (h.run _ _ hv).andThen fun _ _ ho => .done (ho.map f)⟩

theorem ifSatisfies (h : S.Similar p q) (test : α → Bool) : S.Similar (p.ifSatisfies test) (q.ifSatisfies test) := by
  refine ⟨fun hn => congrArg (fun n => s!"IfSatisfies({n})") (h.name hn), fun i j hv => ?_⟩
  refine (h.run _ _ hv).onSuccess fun v i' j' hv' hi hj => ?_
  by_cases ht : test v = true
  · simp only [ht, if_true]
    exact .done (.success hv' hi hj)
  · simp only [ht]
    exact .done .failure

theorem orWith (h : S.Similar p q) {p' q' : Parser α} (h' : S.Similar p' q') :
    S.Similar (p.orWith p') (q.orWith q') := by
  refine ⟨fun hn => congrArg₂ (fun n m => s!"OrWith({n} | {m})") (h.name hn) (h'.name hn), fun i j hv => ?_⟩
  show S.Runs _ ((p.parse i).onFailure fun _ => p'.parse i) ((q.parse j).onFailure fun _ => q'.parse j)
  exact (h.run _ _ hv).onFailure (h'.run _ _ hv)

theorem optional (h : S.Similar p q) : S.Similar p.optional q.optional := by
  refine ⟨fun hn => congrArg (fun n => s!"Optional({n})") (h.name hn), fun i j hv => ?_⟩
  have hnone : S.Outcomes i j (.success (none : Option α) i) (.success none j) := .success hv (.refl _) (.refl _)
  refine Runs.onFailure (f := fun _ => .done _) (g := fun _ => .done _) ?_ (.done hnone)
  refine (h.run _ _ hv).andThen fun o o' ho => ?_
  cases ho with
  | success hv' hi hj => exact .done (.success hv' hi hj)
  | failure => exact .done .failure

theorem lookahead (h : S.Similar p q) : S.Similar p.lookahead q.lookahead :=
  ⟨fun hn => congrArg (fun n => s!"Lookahead({n})") (h.name hn),
    fun _ _ hv => (h.run _ _ hv).onSuccess fun _ _ _ _ _ _ => .done (.success hv (.refl _) (.refl _))⟩

theorem combine {γ : Type} (h : S.Similar p q) (h' : S.Similar p' q') (f : α → β → γ) :
    S.Similar (p.combine p' f) (q.combine q' f) := by
  refine ⟨fun hn => congrArg₂ (fun n m => s!"Combine({n}, {m})") (h.name hn) (h'.name hn), fun i j hv => ?_⟩
  refine (h.run _ _ hv).onSuccess fun a _ _ hv₁ hi₁ hj₁ => ?_
  refine (h'.run_later hv₁ hi₁ hj₁).onSuccess fun b _ _ hv₂ hi₂ hj₂ => ?_
  exact .done (.success hv₂ hi₂ hj₂)

theorem ignore (h : S.Similar p q) (h' : S.Similar p' q') : S.Similar (p.ignore p') (q.ignore q') :=
  ⟨fun hn => congrArg₂ (fun n m => s!"Ignore({n}, {m})") (h.name hn) (h'.name hn), (combine h h' _).run⟩

theorem ignorePrevious (h : S.Similar p q) (h' : S.Similar p' q') :
    S.Similar (p.ignorePrevious p') (q.ignorePrevious q') :=
  ⟨fun hn => congrArg₂ (fun n m => s!"IgnorePrevious({n}, {m})") (h.name hn) (h'.name hn),
    (combine h h' _).run⟩

theorem bind (h : S.Similar p q) {next next' : α → Parser β} (hnext : ∀ v, S.Similar (next v) (next' v)) :
    S.Similar (p.bind next) (q.bind next') :=
  ⟨fun hn => congrArg (fun n => s!"Then({n})") (h.name hn),
    fun _ _ hv => (h.run _ _ hv).onSuccess fun v _ _ hv' hi hj => (hnext v).run_later hv' hi hj⟩

theorem lazy {rule rule' : Unit → Parser α} (h : S.Alike (rule ()) (rule' ())) :
    S.Similar (Parser.lazy rule) (Parser.lazy rule') := fromFn _ h

/-! ### Repetitions -/

/-- Loops that stand for each other come to the same accumulator. The induction is on what is left of the
    text, as in the loop itself. -/
theorem fold (h : S.Similar p q) (reduce : β → α → β) (acc : β) {i j : View} (hv : S.view i j) :
    S.Runs (fun x y => x.1 = y.1 ∧ S.view x.2 y.2 ∧ i.Later x.2 ∧ j.Later y.2) (p.fold reduce acc i)
      (q.fold reduce acc j) := by
  induction hlen : i.len using Nat.strongRecOn generalizing i j acc with
  | ind n ih =>
    rw [Parser.fold, Parser.fold]
    refine (h.run _ _ hv).andThen fun o o' ho => ?_
    cases ho with
    | failure => exact .done ⟨rfl, hv, .refl _, .refl _⟩
    | @success v i' j' hv' hi hj =>
      by_cases hlt : i'.len < i.len
      · simp only [hlt, (S.len_lt_iff hv hv').mp hlt, if_true]
        exact (ih _ (hlen ▸ hlt) _ hv' rfl).mono fun x y ⟨he, hxy, hx, hy⟩ =>
          ⟨he, hxy, hi.trans hx, hj.trans hy⟩
      · have hlt' : ¬ j'.len < j.len := fun hlt' => hlt ((S.len_lt_iff hv hv').mpr hlt')
        simp only [hlt, hlt', if_false]
        exact (Runs.emit (S.stopped hv h.name)).andThen fun _ _ _ => .done ⟨rfl, hv, .refl _, .refl _⟩

theorem folded (h : S.Similar p q) (reduce : β → α → β) (acc : β) {i j i' j' : View} (hv : S.view i' j')
    (hi : i.Later i') (hj : j.Later j') :
    S.Runs (S.Outcomes i j) (Parser.folded (p.fold reduce acc i')) (Parser.folded (q.fold reduce acc j')) := by
  refine (h.fold reduce acc hv).andThen fun (a, x) (b, y) ⟨he, hxy, hx, hy⟩ => ?_
  obtain rfl : a = b := he
  exact .done (.success hxy (hi.trans hx) (hj.trans hy))

theorem many (h : S.Similar p q) (seed : β) (reduce : β → α → β) :
    S.Similar (p.many seed reduce) (q.many seed reduce) :=
  ⟨fun hn => congrArg (fun n => s!"Many({n})") (h.name hn), fun _ _ hv => h.folded reduce seed hv (.refl _) (.refl _)⟩

theorem many1 (h : S.Similar p q) (seed : β) (reduce : β → α → β) :
    S.Similar (p.many1 seed reduce) (q.many1 seed reduce) :=
  ⟨fun hn => congrArg (fun n => s!"Many1({n})") (h.name hn),
    fun _ _ hv => (h.run _ _ hv).onSuccess fun v _ _ hv' hi hj => h.folded reduce (reduce seed v) hv' hi hj⟩

theorem separatedBy (h : S.Similar p q) (h' : S.Similar p' q') {γ : Type} (seed : γ) (reduce : γ → α → γ) :
    S.Similar (p.separatedBy p' seed reduce) (q.separatedBy q' seed reduce) :=
  ⟨fun hn => congrArg₂ (fun n m => s!"SeparatedBy({n}, {m})") (h.name hn) (h'.name hn),
    fun _ _ hv => (h.run _ _ hv).onSuccess fun v _ _ hv' hi hj =>
      (h'.ignorePrevious h).folded reduce (reduce seed v) hv' hi hj⟩

theorem repeatFrom (h : S.Similar p q) (reduce : β → α → β) (n : Nat) (acc : β) {i j i' j' : View}
    (hv : S.view i' j') (hi : i.Later i') (hj : j.Later j') :
    S.Runs (S.Outcomes i j) (p.repeatFrom reduce n acc i') (q.repeatFrom reduce n acc j') := by
  induction n generalizing acc i' j' with
  | zero => exact .done (.success hv hi hj)
  | succ n ih => exact (h.run_later hv hi hj).onSuccess fun v _ _ hv' hi' hj' => ih (reduce acc v) hv' hi' hj'

theorem exactlyN (h : S.Similar p q) (seed : β) (reduce : β → α → β) (n : Nat) :
    S.Similar (p.exactlyN seed reduce n) (q.exactlyN seed reduce n) :=
  ⟨fun hn => congrArg (fun m => s!"ExactlyN({m}, {n})") (h.name hn),
    fun _ _ hv => h.repeatFrom reduce n seed hv (.refl _) (.refl _)⟩

/-! ### Series -/

theorem runAll {count : Nat} {ps qs : Fin count → Parser α} (h : ∀ n, S.Similar (ps n) (qs n)) {i j i' j' : View}
    (hv : S.view i' j') (hi : i.Later i') (hj : j.Later j') :
    S.Runs (S.Outcomes i j) (Series.runAll (List.ofFn ps) i') (Series.runAll (List.ofFn qs) j') := by
  induction count generalizing i' j' with
  | zero =>
    rw [List.ofFn_zero, List.ofFn_zero]
    exact .done (.success hv hi hj)
  | succ count ih =>
    rw [List.ofFn_succ, List.ofFn_succ]
    refine ((h 0).run_later hv hi hj).onSuccess fun v _ _ hv₁ hi₁ hj₁ => ?_
    refine (ih (fun n => h n.succ) hv₁ hi₁ hj₁).onSuccess fun vs _ _ hv₂ hi₂ hj₂ => ?_
    exact .done (.success hv₂ hi₂ hj₂)

theorem sequence {count : Nat} {ps qs : Fin count → Parser α} (h : ∀ n, S.Similar (ps n) (qs n))
    (f : List α → β) :
    S.Similar (Parser.sequence f (List.ofFn ps)) (Parser.sequence f (List.ofFn qs)) := by
  refine ⟨fun hn => ?_, fun i j hv => (runAll h hv (.refl _) (.refl _)).andThen fun _ _ ho => .done (ho.map f)⟩
  have hnames : (List.ofFn ps).map (·.name) = (List.ofFn qs).map (·.name) := by
    rw [List.map_ofFn, List.map_ofFn]
    exact congrArg List.ofFn (funext fun n => (h n).name hn)
  exact congrArg (fun names => "Sequence(" ++ ", ".intercalate names ++ ")") hnames

/-! ### Parsers that look at no other -/

theorem item : S.Similar Parser.item Parser.item := by
  refine fromFn _ fun i j hv => ?_
  rw [View.splitFirst_eq, View.splitFirst_eq, S.rest_eq hv]
  rcases j.rest with _ | ⟨c, cs⟩
  · exact .done .failure
  · exact .done (.success (S.drop hv 1) (i.later_drop 1) (j.later_drop 1))

theorem literal (text : String) : S.Similar (Parser.literal text) (Parser.literal text) := by
  refine fromFn _ fun i j hv => ?_
  rw [View.strip_eq, View.strip_eq, S.rest_eq hv]
  by_cases h : text.toList <+: j.rest
  · simp only [h, if_true]
    exact .done (.success (S.drop hv _) (i.later_drop _) (j.later_drop _))
  · simp only [h, if_false]
    exact .done .failure

theorem eof : S.Similar Parser.eof Parser.eof := by
  refine fromFn _ fun i j hv => ?_
  rw [S.isEmpty_eq hv]
  by_cases h : j.isEmpty = true
  · simp only [h, if_true]
    exact .done (.success hv (.refl _) (.refl _))
  · simp only [h]
    exact .done .failure

theorem digitValue : S.Similar Parser.digitValue Parser.digitValue := by
  refine fromFn _ fun i j hv => ?_
  rw [View.splitFirst_eq, View.splitFirst_eq, S.rest_eq hv]
  rcases j.rest with _ | ⟨c, cs⟩
  · exact .done .failure
  · refine Runs.done ?_
    rcases hc : Parser.digitOf c with _ | d
    · simp only [List.head?_cons, Option.map_some, hc]
      exact .failure
    · simp only [List.head?_cons, Option.map_some, hc]
      exact .success (S.drop hv 1) (i.later_drop 1) (j.later_drop 1)

/-! ### Characters and tokens -/

theorem satisfy (test : Char → Bool) : S.Similar (Parser.satisfy test) (Parser.satisfy test) :=
  (item.ifSatisfies test).named _

theorem element (c : Char) : S.Similar (Parser.element c) (Parser.element c) := (satisfy _).named _

theorem oneOf (set : String) : S.Similar (Parser.oneOf set) (Parser.oneOf set) := (satisfy _).named _

theorem noneOf (set : String) : S.Similar (Parser.noneOf set) (Parser.noneOf set) := (satisfy _).named _

theorem manyOf (c : Char) : S.Similar (Parser.manyOf c) (Parser.manyOf c) := ((element c).many _ _).named _

theorem whitespace : S.Similar Parser.whitespace Parser.whitespace := (manyOf ' ').named _

theorem padded (h : S.Similar p q) : S.Similar p.padded q.padded :=
  ⟨fun hn => congrArg (fun n => s!"Padded({n})") (h.name hn), ((whitespace.ignorePrevious h).ignore whitespace).run⟩

theorem token (text : String) : S.Similar (Parser.token text) (Parser.token text) := (literal text).padded.named _

theorem digit : S.Similar Parser.digit Parser.digit := (oneOf _).named _

theorem integer : S.Similar Parser.integer Parser.integer := (digitValue.many1 _ _).named _

/-! ### Expressions -/

section
open Calculator
variable {inner inner' : Parser Int}

theorem factorOver (h : S.Similar inner inner') : S.Similar (factorOver inner) (factorOver inner') :=
  ((((element '(').ignorePrevious h).ignore (element ')')).orWith (integer.transform _)).padded.named _

theorem termOver (h : S.Similar inner inner') : S.Similar (termOver inner) (termOver inner') :=
  (h.factorOver.separatedBy (token "*") _ _).named _

theorem exprOver (h : S.Similar inner inner') : S.Similar (exprOver inner) (exprOver inner') :=
  (h.termOver.separatedBy (token "+") _ _).named _

theorem exprWithin (depth : Nat) : S.Similar (exprWithin depth) (exprWithin depth) := by
  induction depth with
  | zero => exact cutOff _
  | succ depth ih => exact (lazy ih.run).exprOver

/-- A rule closed by as many rounds as the text can need. Both runs need equally many. -/
theorem unbounded {rule : Parser Int → Parser Int}
    (h : ∀ inner : Parser Int, S.Similar inner inner → S.Similar (rule inner) (rule inner)) :
    S.Similar (unbounded rule) (unbounded rule) := by
  refine fromFn _ fun i j hv => ?_
  rw [nesting, nesting, S.rest_eq hv]
  exact (h _ (lazy (exprWithin _).run)).run _ _ hv

theorem expr : S.Similar expr expr := unbounded fun _ h => h.exprOver

theorem term : S.Similar term term := unbounded fun _ h => h.termOver

theorem factor : S.Similar factor factor := unbounded fun _ h => h.factorOver

end

/-! ### Traced parsers -/

/-- A traced parser never ends before its start, so its report is always made. -/
theorem traced (hS : S.Reports) (h : S.Similar p q) : S.Similar p.traced q.traced := by
  refine ⟨h.name, fun i j hv => (h.run _ _ hv).andThen fun o o' ho => ?_⟩
  refine Runs.andThen (Q := fun _ _ => True) ?_ fun _ _ _ => .done ho
  cases ho with
  | success hv' hi hj =>
    simp only [Parser.traceOf, hi.offset_le, hj.offset_le, if_true]
    exact .emit (hS.matched h.name hv hv' hi hj)
  | failure => exact .emit (hS.noMatch h.name hv)

end Similar

/-! ### Runs over the same text -/

/-- Every view stands for itself, and events are not compared. -/
def inPlace (fault : Fault → Fault → Prop) (left right : Prop) : Simulation where
  view i j := i = j
  events _ _ := True
  fault := fault
  named := False
  cutLeft := left
  cutRight := right
  rest_eq h := h ▸ rfl
  isEmpty_eq h := h ▸ rfl
  drop h _ := h ▸ rfl
  len_lt_iff h h' := h ▸ h' ▸ Iff.rfl
  nil := trivial
  append _ _ := trivial
  stopped _ _ := trivial

theorem reports_inPlace {fault : Fault → Fault → Prop} {left right : Prop} : (inPlace fault left right).Reports :=
  ⟨fun _ _ _ _ _ => trivial, fun _ _ => trivial⟩

theorem Similar.fault_self {fault : Fault → Fault → Prop} {p : Parser α}
    (h : (inPlace fault False False).Similar p p) {i : View} {f : Fault} (hp : (p.parse i).ending = .fault f) :
    fault f f := by
  have hrun := h.run i i rfl
  generalize p.parse i = r at hrun hp
  cases hrun with
  | cutLeft hS => exact hS.elim
  | cutRight hS => exact hS.elim
  | step _ hending =>
    subst hp
    cases hending with
    | fault hf => exact hf

end Simulation
end ParserKit
