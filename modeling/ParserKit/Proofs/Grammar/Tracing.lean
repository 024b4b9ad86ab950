import ParserKit.Proofs.Grammar.Change
import ParserKit.Proofs.Grammar.Recursion

/-! Tracing. A traced parser reports what it made of a view and is otherwise the parser that is traced. So a grammar can
    be traced anywhere, in recursive grammars, in rules and in what continuations make, and neither its name nor any of
    its outcomes shows it; what it reports on top are reports of the level of tracing, and without them every run
    reports the same (`tracing_transparent`). -/

namespace ParserKit
variable {α : Type}

/-- Whether a report is there without tracing. -/
def Event.kept (e : Event) : Bool := e.level != .trace

def Run.quiet (r : Run α) : Run α := ⟨r.events.filter Event.kept, r.ending⟩

namespace Simulation

/-- Every run stands for the run that reports the same without tracing. -/
def quieter : Simulation :=
  { inPlace (fun f g => f = g) False False with
    events := fun es fs => fs = es.filter Event.kept
    named := True
    nil := List.filter_nil.symm
    append := fun h h' => by rw [h, h', List.filter_append]
    stopped := fun h hn => by
      obtain rfl := h
      rw [hn trivial]
      rfl }

theorem faults_quieter : quieter.Faults := ⟨fun _ => rfl, fun _ => rfl⟩

theorem Runs.quiet_eq {i j : View} {r s : Run (Outcome α)} (h : quieter.Runs (quieter.Outcomes i j) r s) :
    s = r.quiet := by
  cases h with
  | cutLeft hS => exact hS.elim
  | cutRight hS => exact hS.elim
  | step hevents hending =>
    obtain rfl := hevents
    cases hending with
    | fault hf =>
      obtain rfl := hf
      rfl
    | unfinished => rfl
    | done ho =>
      cases ho with
      | failure => rfl
      | success hv _ _ =>
        obtain rfl := hv
        rfl

/-- The report that tracing adds is made, whatever the outcome, and is gone from the quiet run. -/
theorem Similar.of_traced {p q : Parser α} (h : quieter.Similar p q) : quieter.Similar p.traced q := by
  refine ⟨h.name, fun i j hv => ?_⟩
  have hq : q.parse j = (q.parse j).andThen fun o => .done o := (Run.andThen_done _).symm
  rw [hq]
  refine (h.run i j hv).andThen fun o o' ho => ?_
  cases ho with
  | success hv' hi hj =>
    simp only [Parser.traceOf, hi.offset_le, if_true]
    exact .step rfl (.done (.success hv' hi hj))
  | failure => exact .step rfl (.done .failure)

end Simulation

namespace Grammar
open Simulation

/-- The grammar with what is traced in the place of every traced grammar. -/
def untraced : Grammar → Grammar
  | traced g => g.untraced
  | prim p => prim p
  | padded g => padded g.untraced
  | transform via g f => transform via g.untraced f
  | orWith via g h => orWith via g.untraced h.untraced
  | combine via g h f => combine via g.untraced h.untraced f
  | ignore via g h => ignore via g.untraced h.untraced
  | ignorePrevious via g h => ignorePrevious via g.untraced h.untraced
  | ifSatisfies via g test => ifSatisfies via g.untraced test
  | bind via g captures next => bind via g.untraced captures fun v => (next v).untraced
  | lookahead via g => lookahead via g.untraced
  | optional via g => optional via g.untraced
  | many via g seed reduce => many via g.untraced seed reduce
  | many1 via g seed reduce => many1 via g.untraced seed reduce
  | exactlyN via g seed reduce n => exactlyN via g.untraced seed reduce n
  | separatedBy via g h seed reduce => separatedBy via g.untraced h.untraced seed reduce
  | sequence count parts f => sequence count (fun n => (parts n).untraced) f
  | named g n => named g.untraced n
  | wrapped g => wrapped g.untraced
  | fromFn g n => fromFn g.untraced n
  | lazy rule => lazy rule
  | fix this name body => fix this name body.untraced
  | self this => self this
  | register r => register r

theorem similar_untraced {links links' : Links} (hlinks : Changes quieter.Similar untraced links links') (σ : Scope)
    (g : Grammar) : quieter.Similar (g.parserWith links σ) (g.untraced.parserWith links' (σ.change untraced)) := by
  induction g generalizing σ with
  | traced g ih => exact (ih σ).of_traced
  | prim p => exact .primitive p
  | padded g ih => exact (ih σ).padded
  | transform via g f ih =>
    simp only [untraced, parserWith, Surface.use_eq]
    exact (ih σ).transform f
  | orWith via g h ihg ihh =>
    simp only [untraced, parserWith, Surface.use_eq]
    exact (ihg σ).orWith (ihh σ)
  | combine via g h f ihg ihh =>
    simp only [untraced, parserWith, Surface.use_eq]
    exact (ihg σ).combine (ihh σ) f
  | ignore via g h ihg ihh =>
    simp only [untraced, parserWith, Surface.use_eq]
    exact (ihg σ).ignore (ihh σ)
  | ignorePrevious via g h ihg ihh =>
    simp only [untraced, parserWith, Surface.use_eq]
    exact (ihg σ).ignorePrevious (ihh σ)
  | ifSatisfies via g test ih =>
    simp only [untraced, parserWith, Surface.use_eq]
    exact (ih σ).ifSatisfies test
  | bind via g captures next ihg ihnext =>
    simp only [untraced, parserWith, Surface.use_eq]
    exact (ihg σ).bind fun v => ihnext v σ
  | lookahead via g ih =>
    simp only [untraced, parserWith, Surface.use_eq]
    exact (ih σ).lookahead
  | optional via g ih =>
    simp only [untraced, parserWith, Surface.use_eq]
    exact (ih σ).optional.map _
  | many via g seed reduce ih =>
    simp only [untraced, parserWith, Surface.use_eq]
    exact (ih σ).many seed reduce
  | many1 via g seed reduce ih =>
    simp only [untraced, parserWith, Surface.use_eq]
    exact (ih σ).many1 seed reduce
  | exactlyN via g seed reduce n ih =>
    simp only [untraced, parserWith, Surface.use_eq]
    exact (ih σ).exactlyN seed reduce n
  | separatedBy via g h seed reduce ihg ihh =>
    simp only [untraced, parserWith, Surface.use_eq]
    exact (ihg σ).separatedBy (ihh σ) seed reduce
  | sequence count parts f ih => exact .sequence (fun n => ih n σ) f
  | named g n ih => exact (ih σ).named n
  | wrapped g ih => exact .fromFn _ (ih σ).run
  | fromFn g n ih => exact .fromFn _ (ih σ).run
  | lazy r => exact .lazy (hlinks.rule r).run
  | fix this name body ih => exact .fromFn _ (ih (⟨this, name, body⟩ :: σ)).run
  | self m =>
    -- a name that leads somewhere leads to the changed body, which is entered again one step deeper
    simp only [untraced, parserWith, selfParser, Scope.resolve_change]
    rcases σ.resolve m with _ | ⟨b, inner⟩
    · exact .faulty m (faults_quieter.dropped m)
    · exact .fromFn _ (hlinks.again inner b.body).run
  | register r =>
    simp only [untraced, parserWith, Parser.delayed_eq]
    exact hlinks.register r

theorem respects_untraced : Respects quieter.Similar untraced :=
  ⟨.cutOff, similar_unknown faults_quieter, similar_untraced⟩

/-- Without tracing a grammar has the same name, and at every depth each of its runs is the same but for the reports of
    tracing. So it halts with the same outcomes, and goes on for ever where it did. -/
theorem tracing_transparent (rules : Rules) (g : Grammar) :
    (∀ depth, (g.untraced.parserWithin (rules.change untraced) depth).name = (g.parserWithin rules depth).name) ∧
    (∀ depth i, (g.untraced.parserWithin (rules.change untraced) depth).parse i =
      ((g.parserWithin rules depth).parse i).quiet) ∧
    Family.Same (family rules g) (family (rules.change untraced) g.untraced) := by
  have hrun : ∀ depth i, (g.untraced.parserWithin (rules.change untraced) depth).parse i =
      ((g.parserWithin rules depth).parse i).quiet := fun depth i =>
    ((respects_untraced.parserWithin rules depth g).run i i rfl).quiet_eq
  refine ⟨fun depth => ?_, hrun, Family.same_of_ending_eq fun depth i => ?_⟩
  · exact ((respects_untraced.parserWithin rules depth g).name trivial).symm
  · exact (congrArg Run.ending (hrun depth i)).symm

end Grammar
end ParserKit
