import ParserKit.Proofs.Grammar.Recursion
import ParserKit.Proofs.Parser.Decomposition

/-! Going back. A branch that fails, or that is only looked at, leaves nothing behind but its events: what runs next
    starts from the view that the branch started from. So ordered choice is associative with the parser that always
    fails as its unit, and to choose between two continuations of a parser is to choose after it has run once. These
    laws (`choice_laws`) take nothing of the parsers. They are equations of whole runs where both sides run the same
    parsers, and of endings where one side runs a parser twice and reports its events twice. -/

namespace ParserKit

namespace Run
variable {α β : Type} {r : Run (Outcome α)} {other other' : Unit → Run (Outcome α)}

@[simp] theorem ending_after (es : List Event) (r : Run α) : (r.after es).ending = r.ending := rfl

theorem onFailure_of_failure (h : r.ending = .done .failure) (other : Unit → Run (Outcome α)) :
    r.onFailure other = (other ()).after r.events := by rw [onFailure, andThen, h]

theorem onFailure_of_ne_failure (h : r.ending ≠ .done .failure) (other : Unit → Run (Outcome α)) :
    r.onFailure other = r := by
  obtain ⟨es, (⟨v, k⟩ | -) | f | -⟩ := r
  · simp [onFailure, andThen, done, after]
  · exact absurd rfl h
  · rfl
  · rfl

theorem onFailure_assoc (r : Run (Outcome α)) (other other' : Unit → Run (Outcome α)) :
    (r.onFailure other).onFailure other' = r.onFailure fun _ => (other ()).onFailure other' := by
  rw [onFailure, onFailure, andThen_assoc]
  refine congrArg r.andThen (funext fun o => ?_)
  rcases o with ⟨v, k⟩ | -
  · rfl
  · rfl

theorem onFailure_failure (r : Run (Outcome α)) : (r.onFailure fun _ => .done .failure) = r := by
  refine Eq.trans (congrArg r.andThen (funext fun o => ?_)) (andThen_done r)
  rcases o with ⟨v, k⟩ | -
  · rfl
  · rfl

/-- A run that fails and then goes the same way again comes to the same failure. -/
theorem ending_onFailure_self (r : Run (Outcome α)) : (r.onFailure fun _ => r).ending = r.ending := by
  by_cases h : r.ending = .done .failure
  · rw [onFailure_of_failure h, ending_after]
  · rw [onFailure_of_ne_failure h]

/-- To go on from one match in two ways, the second of them after a failure of the first, takes only one run up to the
    match. -/
theorem ending_onSuccess_onFailure (r : Run (Outcome α)) (next next' : α → View → Run (Outcome β)) :
    ((r.onSuccess next).onFailure fun _ => r.onSuccess next').ending =
      (r.onSuccess fun v k => (next v k).onFailure fun _ => next' v k).ending := by
  obtain ⟨es, (⟨v, k⟩ | -) | f | -⟩ := r
  · have hnext : ∀ next : α → View → Run (Outcome β),
        (Run.mk es (.done (.success v k))).onSuccess next = (next v k).after es := fun _ => rfl
    simp only [hnext]
    by_cases h : (next v k).ending = .done .failure
    · rw [onFailure_of_failure (by simpa using h), onFailure_of_failure h]
      simp
    · rw [onFailure_of_ne_failure (by simpa using h), onFailure_of_ne_failure h]
  · rfl
  · rfl
  · rfl

end Run

namespace Parser
variable {α β γ : Type}

/-! ### Laws of parsers -/

/-- What choosing and looking ahead come to from `i`. -/
structure ChoiceLaws (p q r : Parser α) (next next' : α → Parser β) (i : View) : Prop where
  orWith_assoc : ((p.orWith q).orWith r).parse i = (p.orWith (q.orWith r)).parse i
  fail_orWith : (fail.orWith p).parse i = p.parse i
  orWith_fail : (p.orWith fail).parse i = p.parse i
  orWith_self : ((p.orWith p).parse i).ending = (p.parse i).ending
  bind_orWith_bind : (((p.bind next).orWith (p.bind next')).parse i).ending =
    ((p.bind fun v => (next v).orWith (next' v)).parse i).ending
  optional : p.optional.parse i = ((p.transform some).orWith (always none)).parse i
  lookahead_lookahead : p.lookahead.lookahead.parse i = p.lookahead.parse i
  combine_lookahead : ((p.lookahead.combine p Prod.mk).parse i).ending = ((p.transform fun v => (v, v)).parse i).ending
  combine_lookahead_iff : ∀ v w k, ((p.lookahead.combine p Prod.mk).parse i).ending = .done (.success (v, w) k) ↔
    v = w ∧ (p.parse i).ending = .done (.success w k)
  /-- What runs after a failed branch runs from where the branch started. -/
  after_failure : (p.parse i).ending = .done .failure →
    (p.orWith q).parse i = (q.parse i).after (p.parse i).events ∧
    ∀ next : Option α → Parser β, (p.optional.bind next).parse i = ((next none).parse i).after (p.parse i).events
  /-- And so does what runs after a look ahead. -/
  after_lookahead : ∀ v k, (p.parse i).ending = .done (.success v k) →
    (p.lookahead.bind next).parse i = ((next v).parse i).after (p.parse i).events

theorem ending_combine_lookahead (p : Parser α) (f : α → α → β) (i : View) :
    ((p.lookahead.combine p f).parse i).ending = ((p.transform fun v => f v v).parse i).ending := by
  rw [combine_parse, lookahead_parse, transform_parse, Run.onSuccess_assoc]
  simp only [Run.done_success_onSuccess]
  -- the second run starts where the first did, so that it comes to the same
  generalize p.parse i = r
  obtain ⟨es, (⟨v, k⟩ | -) | f | -⟩ := r
  · rfl
  · rfl
  · rfl
  · rfl

/-- Each of the two values that an optional parser can give is made by a branch of its own. -/
theorem map_optional_parse (p : Parser α) (f : Option α → β) (i : View) :
    (f <$> p.optional).parse i = ((p.transform fun v => f (some v)).orWith (always (f none))).parse i := by
  show (p.optional.parse i).andThen _ = _
  rw [optional_parse, orWith_parse, transform_parse]
  generalize p.parse i = r
  obtain ⟨es, (⟨v, k⟩ | -) | f | -⟩ := r
  · simp [Run.onSuccess, Run.onFailure, Run.andThen, Run.done, Run.after, Outcome.map]
  · simp [Run.onSuccess, Run.onFailure, Run.andThen, Run.done, Run.after, Outcome.map, always, fromFn]
  · rfl
  · rfl

theorem choiceLaws (p q r : Parser α) (next next' : α → Parser β) (i : View) : ChoiceLaws p q r next next' i where
  orWith_assoc := by
    simp only [orWith_parse]
    exact Run.onFailure_assoc _ _ _
  fail_orWith := rfl
  orWith_fail := Run.onFailure_failure _
  orWith_self := Run.ending_onFailure_self _
  bind_orWith_bind := Run.ending_onSuccess_onFailure _ _ _
  optional := by
    have hid : (id <$> p.optional).parse i = p.optional.parse i := by
      refine Eq.trans (congrArg (p.optional.parse i).andThen (funext fun o => ?_)) (Run.andThen_done _)
      rw [Outcome.map_id]
    rw [← hid, map_optional_parse p id i]
    rfl
  lookahead_lookahead := by
    rw [lookahead_parse, lookahead_parse, Run.onSuccess_assoc]
    rfl
  combine_lookahead := ending_combine_lookahead p Prod.mk i
  combine_lookahead_iff v w k := by
    rw [ending_combine_lookahead, transform_parse, Run.ending_andThen_eq_done_iff]
    constructor
    · rintro ⟨⟨u, j⟩ | -, hp, hdone⟩
      · cases hdone
        exact ⟨rfl, hp⟩
      · cases hdone
    · rintro ⟨rfl, hp⟩
      exact ⟨_, hp, rfl⟩
  after_failure hp := by
    refine ⟨?_, fun next => ?_⟩
    · rw [orWith_parse, Run.onFailure_of_failure hp]
    · have hnone : p.optional.parse i = ⟨(p.parse i).events, .done (.success none i)⟩ := by
        rw [optional_parse, Run.onSuccess_of_failure hp]
        simp [Run.onFailure, Run.andThen, Run.done, Run.after]
      rw [bind_parse, hnone]
      rfl
  after_lookahead v k hp := by
    rw [bind_parse, lookahead_parse, Run.onSuccess_assoc, Run.onSuccess_of_ending hp]
    rfl

end Parser

namespace Grammar

/-! ### Laws of grammars -/

/-- The same laws for grammars, whose runs may go on for ever: both sides halt with the same outcomes, break with the
    same faults, and diverge from the same views. -/
structure ChoiceLaws (rules : Rules) (via : Surface) (g h l : Grammar) (captures captures' : List String)
    (next next' : Value → Grammar) : Prop where
  orWith_assoc : Family.Same (family rules (.orWith via (.orWith via g h) l))
    (family rules (.orWith via g (.orWith via h l)))
  fail_orWith : Family.Same (family rules (.orWith via (.prim .fail) g)) (family rules g)
  orWith_fail : Family.Same (family rules (.orWith via g (.prim .fail))) (family rules g)
  orWith_self : Family.Same (family rules (.orWith via g g)) (family rules g)
  bind_orWith_bind : Family.Same (family rules (.orWith via (.bind via g captures next) (.bind via g captures' next')))
    (family rules (.bind via g (captures ++ captures') fun v => .orWith via (next v) (next' v)))
  optional : Family.Same (family rules (.optional via g))
    (family rules (.orWith via (.transform via g .some) (.prim (.always .none))))
  lookahead_lookahead : Family.Same (family rules (.lookahead via (.lookahead via g))) (family rules (.lookahead via g))
  combine_lookahead : ∀ f : Value → Value → Value, Family.Same (family rules (.combine via (.lookahead via g) g f))
    (family rules (.transform via g fun v => f v v))

/-- Grammars of which one is built like one parser and the other like another that ends in the same way. -/
theorem same_of_parserWith (rules : Rules) {g h : Grammar}
    (heq : ∀ links i, ((g.parserWith links []).parse i).ending = ((h.parserWith links []).parse i).ending) :
    Family.Same (family rules g) (family rules h) :=
  Family.same_of_ending_eq fun depth i => heq (linksWithin rules depth) i

theorem choiceLaws (rules : Rules) (via : Surface) (g h l : Grammar) (captures captures' : List String)
    (next next' : Value → Grammar) : ChoiceLaws rules via g h l captures captures' next next' := by
  -- at every depth these are the laws of the parsers that the grammars are built into
  have laws : ∀ (links : Links) (i : View), Parser.ChoiceLaws (g.parserWith links []) (h.parserWith links [])
      (l.parserWith links []) (fun v => (next v).parserWith links []) (fun v => (next' v).parserWith links []) i :=
    fun links i => Parser.choiceLaws _ _ _ _ _ i
  constructor
  · refine same_of_parserWith rules fun links i => ?_
    simp only [parserWith, Surface.use_eq]
    exact congrArg Run.ending (laws links i).orWith_assoc
  · refine same_of_parserWith rules fun links i => ?_
    simp only [parserWith, Surface.use_eq]
    exact congrArg Run.ending (laws links i).fail_orWith
  · refine same_of_parserWith rules fun links i => ?_
    simp only [parserWith, Surface.use_eq]
    exact congrArg Run.ending (laws links i).orWith_fail
  · refine same_of_parserWith rules fun links i => ?_
    simp only [parserWith, Surface.use_eq]
    exact (laws links i).orWith_self
  · refine same_of_parserWith rules fun links i => ?_
    simp only [parserWith, Surface.use_eq]
    exact (laws links i).bind_orWith_bind
  · refine same_of_parserWith rules fun links i => ?_
    simp only [parserWith, Surface.use_eq]
    exact congrArg Run.ending (Parser.map_optional_parse (g.parserWith links []) Value.ofOption i)
  · refine same_of_parserWith rules fun links i => ?_
    simp only [parserWith, Surface.use_eq]
    exact congrArg Run.ending (laws links i).lookahead_lookahead
  · refine fun f => same_of_parserWith rules fun links i => ?_
    simp only [parserWith, Surface.use_eq]
    exact Parser.ending_combine_lookahead _ f i

/-- The laws of choice and of looking ahead hold of all parsers, and of all grammars. -/
theorem choice_laws :
    (∀ {α β : Type} (p q r : Parser α) (next next' : α → Parser β) (i : View),
      Parser.ChoiceLaws p q r next next' i) ∧
    ∀ (rules : Rules) (via : Surface) (g h l : Grammar) (captures captures' : List String)
      (next next' : Value → Grammar), ChoiceLaws rules via g h l captures captures' next next' :=
  ⟨Parser.choiceLaws, choiceLaws⟩

end Grammar
end ParserKit
