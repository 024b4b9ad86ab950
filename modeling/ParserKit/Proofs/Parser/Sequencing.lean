import ParserKit.Proofs.Parser.Decomposition

/-! One after the other. To let a value pick the parser that goes on is the only way to go on that is needed: it is
    associative, the parser that consumes nothing is its unit on both sides, and all other ways to run parsers in a row
    are made of it (`bindLaws`). A series is such a row of any length. It binds its parsers one inside the other, so
    that all of their values are there at the end, in their order (`sequence_parse`). A series ends with the first of
    its parsers that fails; those after it are not run and report nothing (`runsInTurn_sequence`).

    All of these are equations of whole runs, with their events, faults and cuts. -/

namespace ParserKit

namespace Run
variable {α β γ δ : Type}

theorem onSuccess_done (r : Run (Outcome α)) : (r.onSuccess fun v k => .done (.success v k)) = r := by
  refine Eq.trans (congrArg r.andThen (funext fun o => ?_)) (andThen_done r)
  obtain ⟨v, k⟩ | - := o
  · rfl
  · rfl

theorem andThen_map (r : Run (Outcome α)) (f : α → β) :
    (r.andThen fun o => .done (o.map f)) = r.onSuccess fun v k => .done (.success (f v) k) := by
  refine congrArg r.andThen (funext fun o => ?_)
  obtain ⟨v, k⟩ | - := o
  · rfl
  · rfl

/-- What goes on after two successes can be told both of their values at once. -/
theorem link_onSuccess (r : Run (Outcome α)) (next : View → Run (Outcome β)) (f : α → β → γ)
    (last : γ → View → Run (Outcome δ)) :
    (r.onSuccess fun v k => (next k).onSuccess fun w l => .done (.success (f v w) l)).onSuccess last =
      r.onSuccess fun v k => (next k).onSuccess fun w l => last (f v w) l := by
  simp only [onSuccess_assoc, done_success_onSuccess]

/-- The run without the value of its success. -/
def forget (r : Run (Outcome α)) : Run (Outcome Unit) := r.onSuccess fun _ k => .done (.success () k)

theorem forget_link (r : Run (Outcome α)) (next : View → Run (Outcome β)) (f : α → β → γ) :
    (r.onSuccess fun v k => (next k).onSuccess fun w l => .done (.success (f v w) l)).forget =
      r.forget.onSuccess fun _ k => (next k).forget := by
  rw [forget, link_onSuccess, forget, onSuccess_assoc]
  rfl

/-! ### Failures with their events -/

theorem after_eq_iff {r : Run α} {es fs : List Event} {e : Ending α} :
    r.after fs = ⟨es, e⟩ ↔ ∃ gs, r = ⟨gs, e⟩ ∧ es = fs ++ gs := by
  obtain ⟨gs, e'⟩ := r
  simp only [after, join_eq_append, Run.mk.injEq]
  constructor
  · intro h
    exact ⟨gs, ⟨rfl, h.2⟩, h.1.symm⟩
  · intro h
    obtain ⟨gs', ⟨rfl, rfl⟩, rfl⟩ := h
    exact ⟨rfl, rfl⟩

/-- A run fails at once, or after a success. -/
theorem onSuccess_eq_failure_iff {r : Run (Outcome α)} {next : α → View → Run (Outcome β)} {es : List Event} :
    r.onSuccess next = ⟨es, .done .failure⟩ ↔ r = ⟨es, .done .failure⟩ ∨
      ∃ v k fs gs, r = ⟨fs, .done (.success v k)⟩ ∧ next v k = ⟨gs, .done .failure⟩ ∧ es = fs ++ gs := by
  obtain ⟨fs, (⟨v, k⟩ | -) | x | -⟩ := r
  · have hparse : (Run.mk fs (.done (.success v k))).onSuccess next = (next v k).after fs := rfl
    rw [hparse, after_eq_iff]
    constructor
    · intro h
      obtain ⟨gs, hnext, hes⟩ := h
      exact Or.inr ⟨v, k, fs, gs, rfl, hnext, hes⟩
    · intro h
      obtain h | ⟨v', k', fs', gs, h, hnext, hes⟩ := h
      · cases h
      · cases h
        exact ⟨gs, hnext, hes⟩
  · simp [onSuccess, andThen, done, after]
  · simp [onSuccess, andThen]
  · simp [onSuccess, andThen]

end Run

/-! ### Laws of binding -/

namespace Parser
variable {α β γ : Type}

theorem ifSatisfies_parse (p : Parser α) (test : α → Bool) (i : View) : (p.ifSatisfies test).parse i =
    (p.parse i).onSuccess fun v k => if test v then .done (.success v k) else .done .failure := rfl

/-- What the ways to go on after a parser come to from `i`. -/
structure BindLaws (p : Parser α) (q : Parser β) (next : α → Parser β) (next' : β → Parser γ) (i : View) : Prop where
  always_bind : ∀ v, ((always v).bind next).parse i = (next v).parse i
  bind_always : (p.bind always).parse i = p.parse i
  bind_bind : ((p.bind next).bind next').parse i = (p.bind fun v => (next v).bind next').parse i
  transform : ∀ f : α → β, (p.transform f).parse i = (p.bind fun v => always (f v)).parse i
  combine : ∀ f : α → β → γ, (p.combine q f).parse i = (p.bind fun v => q.transform fun w => f v w).parse i
  ignore : (p.ignore q).parse i = (p.combine q fun v _ => v).parse i
  ignorePrevious : (p.ignorePrevious q).parse i = (p.combine q fun _ w => w).parse i
  ifSatisfies : ∀ test : α → Bool,
    (p.ifSatisfies test).parse i = (p.bind fun v => if test v then always v else fail).parse i
  /-- After a failure nothing is picked, and nothing else is run. -/
  after_failure : (p.parse i).ending = .done .failure → (p.bind next).parse i = ⟨(p.parse i).events, .done .failure⟩

theorem bindLaws (p : Parser α) (q : Parser β) (next : α → Parser β) (next' : β → Parser γ) (i : View) :
    BindLaws p q next next' i where
  always_bind _ := rfl
  bind_always := Run.onSuccess_done _
  bind_bind := Run.onSuccess_assoc _ _ _
  transform f := by
    rw [transform_parse, Run.andThen_map]
    rfl
  combine f := by
    rw [combine_parse, bind_parse]
    simp only [transform_parse, Run.andThen_map]
  ignore := rfl
  ignorePrevious := rfl
  ifSatisfies test := by
    rw [ifSatisfies_parse, bind_parse]
    refine congrArg (p.parse i).onSuccess (funext fun v => funext fun k => ?_)
    by_cases h : test v = true
    · rw [if_pos h, if_pos h]
      rfl
    · rw [if_neg h, if_neg h]
      rfl
  after_failure hp := Run.onSuccess_of_failure hp _

/-- The same parser without its values. -/
def forget (p : Parser α) : Parser Unit := p.transform fun _ => ()

theorem forget_parse (p : Parser α) (i : View) : p.forget.parse i = (p.parse i).forget := Run.andThen_map _ _

end Parser

/-! ### Series -/

namespace Series
variable {α S V : Type}

/-- Runs the parsers one after the other, for nothing but the view that they end at. -/
def runStages : List (Parser Unit) → View → Run (Outcome Unit)
  | [], i => .done (.success () i)
  | p :: ps, i => (p.parse i).onSuccess fun _ k => runStages ps k

/-- A series that runs its parsers in their order. -/
class InTurn (S : Type) (V : outParam Type) [Series S V] where
  /-- The parsers of the series, without their values. -/
  stages : S → List (Parser Unit)
  /-- Each parser picks the one after it, and all of the values together pick `next`. -/
  bindAll : {β : Type} → S → (V → Parser β) → Parser β
  forget_run : ∀ parts i, (run parts i).forget = runStages (stages parts) i
  bindAll_parse : ∀ {β : Type} parts (next : V → Parser β) i,
    (bindAll parts next).parse i = (run parts i).onSuccess fun vs k => (next vs).parse k

instance : InTurn (Parser α) α where
  stages p := [p.forget]
  bindAll p next := p.bind next
  forget_run p i := by
    rw [runStages, p.forget_parse]
    exact (Run.onSuccess_done (p.parse i).forget).symm
  bindAll_parse _ _ _ := rfl

instance [Series S V] [InTurn S V] : InTurn (Parser α × S) (α × V) where
  stages parts := parts.1.forget :: InTurn.stages parts.2
  bindAll parts next := parts.1.bind fun v => InTurn.bindAll parts.2 fun vs => next (v, vs)
  forget_run parts i := by
    simp only [runStages, Parser.forget_parse, ← InTurn.forget_run]
    exact Run.forget_link (parts.1.parse i) (run parts.2) Prod.mk
  bindAll_parse parts next i := by
    simp only [Parser.bind_parse, InTurn.bindAll_parse]
    exact (Run.link_onSuccess (parts.1.parse i) (run parts.2) Prod.mk fun vs k => (next vs).parse k).symm

/-- The parsers of a list, each of which picks the one after it. -/
def bindList {β : Type} : List (Parser α) → (List α → Parser β) → Parser β
  | [], next => next []
  | p :: ps, next => p.bind fun v => bindList ps fun vs => next (v :: vs)

instance : InTurn (List (Parser α)) (List α) where
  stages ps := ps.map (·.forget)
  bindAll := bindList
  forget_run ps i := by
    induction ps generalizing i with
    | nil => rfl
    | cons p ps ih =>
      simp only [List.map_cons, runStages, Parser.forget_parse, ← ih]
      exact Run.forget_link (p.parse i) (run ps) List.cons
  bindAll_parse ps next i := by
    induction ps generalizing i next with
    | nil => rfl
    | cons p ps ih =>
      simp only [bindList, Parser.bind_parse, ih]
      exact (Run.link_onSuccess (p.parse i) (run ps) List.cons fun vs k => (next vs).parse k).symm

/-! ### The first failure -/

theorem runStages_append (ps qs : List (Parser Unit)) (i : View) :
    runStages (ps ++ qs) i = (runStages ps i).onSuccess fun _ k => runStages qs k := by
  induction ps generalizing i with
  | nil => rfl
  | cons p ps ih =>
    rw [List.cons_append, runStages, runStages, Run.onSuccess_assoc]
    exact congrArg (p.parse i).onSuccess (funext fun _ => funext fun k => ih k)

/-- One of the parsers fails after all before it have matched, and `es` is what these and the failure have reported. -/
def FirstFails (ps : List (Parser Unit)) (i : View) (es : List Event) : Prop :=
  ∃ before p later k fs gs, ps = before ++ p :: later ∧ runStages before i = ⟨fs, .done (.success () k)⟩ ∧
    p.parse k = ⟨gs, .done .failure⟩ ∧ es = fs ++ gs

theorem runStages_eq_failure_iff {ps : List (Parser Unit)} {i : View} {es : List Event} :
    runStages ps i = ⟨es, .done .failure⟩ ↔ FirstFails ps i es := by
  constructor
  · intro h
    induction ps generalizing i es with
    | nil => cases h
    | cons p ps ih =>
      obtain hp | ⟨⟨⟩, j, fs, gs, hp, hps, rfl⟩ := Run.onSuccess_eq_failure_iff.mp h
      · exact ⟨[], p, ps, i, [], es, rfl, rfl, hp, rfl⟩
      · obtain ⟨before, q, later, k, fs', gs', rfl, hbefore, hq, rfl⟩ := ih hps
        refine ⟨p :: before, q, later, k, fs ++ fs', gs', rfl, ?_, hq, (List.append_assoc _ _ _).symm⟩
        have hnext : runStages (p :: before) i = (runStages before j).after fs := by
          rw [runStages, hp]
          rfl
        rw [hnext, Run.after_eq_iff]
        exact ⟨fs', hbefore, rfl⟩
  · intro h
    obtain ⟨before, p, later, k, fs, gs, rfl, hbefore, hp, rfl⟩ := h
    rw [runStages_append]
    exact Run.onSuccess_eq_failure_iff.mpr
      (Or.inr ⟨(), k, fs, gs, hbefore, Run.onSuccess_eq_failure_iff.mpr (Or.inl hp), rfl⟩)

end Series

namespace Parser
open Series

section
variable {β S V : Type} [Series S V]

theorem sequence_eq_onSuccess (f : V → β) (parts : S) (i : View) :
    (sequence f parts).parse i = (Series.run parts i).onSuccess fun vs k => .done (.success (f vs) k) :=
  Run.andThen_map _ _

/-- A series is its parsers, each of which picks the one after it, and then the value that is made of all values. -/
theorem sequence_parse [InTurn S V] (f : V → β) (parts : S) (i : View) :
    (sequence f parts).parse i = (InTurn.bindAll parts fun vs => always (f vs)).parse i := by
  rw [sequence_eq_onSuccess, InTurn.bindAll_parse]
  rfl

theorem sequence_eq_failure_iff [InTurn S V] {f : V → β} {parts : S} {i : View} {es : List Event} :
    (sequence f parts).parse i = ⟨es, .done .failure⟩ ↔ runStages (InTurn.stages parts) i = ⟨es, .done .failure⟩ := by
  have hforget : (Series.run parts i).forget = ⟨es, .done .failure⟩ ↔ Series.run parts i = ⟨es, .done .failure⟩ := by
    rw [Run.forget, Run.onSuccess_eq_failure_iff]
    simp [Run.done]
  rw [sequence_eq_onSuccess, ← InTurn.forget_run, hforget, Run.onSuccess_eq_failure_iff]
  simp [Run.done]

/-- From `i` on `p` is the same as `nested`, and if it fails then because of the first failure among `stages`. -/
structure RunsInTurn (p nested : Parser β) (stages : List (Parser Unit)) (i : View) : Prop where
  parse_eq : p.parse i = nested.parse i
  fails_iff : ∀ es, p.parse i = ⟨es, .done .failure⟩ ↔ FirstFails stages i es

theorem runsInTurn_sequence [InTurn S V] (f : V → β) (parts : S) (i : View) :
    RunsInTurn (sequence f parts) (InTurn.bindAll parts fun vs => always (f vs)) (InTurn.stages parts) i where
  parse_eq := sequence_parse f parts i
  fails_iff _ := sequence_eq_failure_iff.trans runStages_eq_failure_iff

end

/-- What a list of parsers comes to from `i`, and tuples of one to six parsers with a function of as many values. -/
structure SequenceLaws {A B C D E F : Type} (R : Type) (a : Parser A) (b : Parser B) (c : Parser C) (d : Parser D)
    (e : Parser E) (f : Parser F) (i : View) : Prop where
  one : ∀ h : A → R, RunsInTurn (sequence h a) (a.bind fun u => always (h u)) [a.forget] i
  two : ∀ h : A → B → R, RunsInTurn (sequence (fun (u, v) => h u v) (a, b))
    (a.bind fun u => b.bind fun v => always (h u v)) [a.forget, b.forget] i
  three : ∀ h : A → B → C → R, RunsInTurn (sequence (fun (u, v, w) => h u v w) (a, b, c))
    (a.bind fun u => b.bind fun v => c.bind fun w => always (h u v w)) [a.forget, b.forget, c.forget] i
  four : ∀ h : A → B → C → D → R, RunsInTurn (sequence (fun (u, v, w, x) => h u v w x) (a, b, c, d))
    (a.bind fun u => b.bind fun v => c.bind fun w => d.bind fun x => always (h u v w x))
    [a.forget, b.forget, c.forget, d.forget] i
  five : ∀ h : A → B → C → D → E → R, RunsInTurn (sequence (fun (u, v, w, x, y) => h u v w x y) (a, b, c, d, e))
    (a.bind fun u => b.bind fun v => c.bind fun w => d.bind fun x => e.bind fun y => always (h u v w x y))
    [a.forget, b.forget, c.forget, d.forget, e.forget] i
  six : ∀ h : A → B → C → D → E → F → R,
    RunsInTurn (sequence (fun (u, v, w, x, y, z) => h u v w x y z) (a, b, c, d, e, f))
      (a.bind fun u => b.bind fun v => c.bind fun w => d.bind fun x => e.bind fun y => f.bind fun z =>
        always (h u v w x y z))
      [a.forget, b.forget, c.forget, d.forget, e.forget, f.forget] i
  list : ∀ (h : List A → R) (ps : List (Parser A)),
    RunsInTurn (sequence h ps) (bindList ps fun vs => always (h vs)) (ps.map (·.forget)) i

theorem sequenceLaws {A B C D E F : Type} (R : Type) (a : Parser A) (b : Parser B) (c : Parser C) (d : Parser D)
    (e : Parser E) (f : Parser F) (i : View) : SequenceLaws R a b c d e f i where
  one h := runsInTurn_sequence h a i
  two _ := runsInTurn_sequence _ (a, b) i
  three _ := runsInTurn_sequence _ (a, b, c) i
  four _ := runsInTurn_sequence _ (a, b, c, d) i
  five _ := runsInTurn_sequence _ (a, b, c, d, e) i
  six _ := runsInTurn_sequence _ (a, b, c, d, e, f) i
  list h ps := runsInTurn_sequence h ps i

end Parser
end ParserKit
