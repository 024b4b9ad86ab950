import ParserKit.Grammar.Meaning
import ParserKit.Proofs.Parser.Sequencing

/-! Grammars one after the other. The grammars that run in a row are all made of the one in which a value picks the
    grammar that goes on. The laws of this are those of the parsers, under all rules and at every depth, and so they
    hold of what the runs report as well as of what they come to (`bind_laws`). -/

namespace ParserKit.Grammar

/-- At every depth both have the same runs, with the same events. -/
def SameRuns (rules : Rules) (g h : Grammar) : Prop :=
  ∀ depth i, (g.parserWithin rules depth).parse i = (h.parserWithin rules depth).parse i

/-- The grammars of a list, each of which picks the one after it. What goes on after the last of them keeps copies of
    the registers `captures`. -/
def bindAll (via : Surface) (captures : List String) : List Grammar → (List Value → Grammar) → Grammar
  | [], next => next []
  | g :: gs, next =>
    .bind via g (gs.flatMap mentions ++ captures) fun v => bindAll via captures gs fun vs => next (v :: vs)

/-- What the ways to go on after a grammar come to. -/
structure BindLaws (rules : Rules) (via : Surface) (g h : Grammar) (captures captures' : List String)
    (next next' : Value → Grammar) : Prop where
  always_bind : ∀ v, SameRuns rules (.bind via (.prim (.always v)) captures next) (next v)
  bind_always : SameRuns rules (.bind via g [] fun v => .prim (.always v)) g
  bind_bind : SameRuns rules (.bind via (.bind via g captures next) captures' next')
    (.bind via g (captures ++ captures') fun v => .bind via (next v) captures' next')
  transform : ∀ f, SameRuns rules (.transform via g f) (.bind via g [] fun v => .prim (.always (f v)))
  combine : ∀ f, SameRuns rules (.combine via g h f) (.bind via g h.mentions fun v => .transform via h (f v))
  ignore : SameRuns rules (.ignore via g h) (.combine via g h fun v _ => v)
  ignorePrevious : SameRuns rules (.ignorePrevious via g h) (.combine via g h fun _ w => w)
  ifSatisfies : ∀ test : Value → Bool, SameRuns rules (.ifSatisfies via g test)
    (.bind via g [] fun v => .prim (if test v then .always v else .fail))
  sequence : ∀ count (parts : Fin count → Grammar) f, SameRuns rules (.sequence count parts f)
    (bindAll via [] (List.ofFn parts) fun vs => .prim (.always (f vs)))

theorem sameRuns_of_parserWith (rules : Rules) {g h : Grammar}
    (heq : ∀ links i, (g.parserWith links []).parse i = (h.parserWith links []).parse i) : SameRuns rules g h :=
  fun depth i => heq (linksWithin rules depth) i

theorem parserWith_bindAll (links : Links) (σ : Scope) (via : Surface) (captures : List String) (gs : List Grammar)
    (next : List Value → Grammar) : (bindAll via captures gs next).parserWith links σ =
      Series.InTurn.bindAll (gs.map (·.parserWith links σ)) fun vs => (next vs).parserWith links σ := by
  induction gs generalizing next with
  | nil => rfl
  | cons g gs ih =>
    simp only [bindAll, parserWith, Surface.use_eq, ih]
    rfl

theorem bindLaws (rules : Rules) (via : Surface) (g h : Grammar) (captures captures' : List String)
    (next next' : Value → Grammar) : BindLaws rules via g h captures captures' next next' := by
  have laws : ∀ (links : Links) (i : View), Parser.BindLaws (g.parserWith links []) (h.parserWith links [])
      (fun v => (next v).parserWith links []) (fun v => (next' v).parserWith links []) i :=
    fun links i => Parser.bindLaws _ _ _ _ i
  constructor
  · refine fun v => sameRuns_of_parserWith rules fun links i => ?_
    simp only [parserWith, Surface.use_eq]
    exact (laws links i).always_bind v
  · refine sameRuns_of_parserWith rules fun links i => ?_
    simp only [parserWith, Surface.use_eq]
    exact (laws links i).bind_always
  · refine sameRuns_of_parserWith rules fun links i => ?_
    simp only [parserWith, Surface.use_eq]
    exact (laws links i).bind_bind
  · refine fun f => sameRuns_of_parserWith rules fun links i => ?_
    simp only [parserWith, Surface.use_eq]
    exact (laws links i).transform f
  · refine fun f => sameRuns_of_parserWith rules fun links i => ?_
    simp only [parserWith, Surface.use_eq]
    exact (laws links i).combine f
  · refine sameRuns_of_parserWith rules fun links i => ?_
    simp only [parserWith, Surface.use_eq]
    exact (laws links i).ignore
  · refine sameRuns_of_parserWith rules fun links i => ?_
    simp only [parserWith, Surface.use_eq]
    exact (laws links i).ignorePrevious
  · refine fun test => sameRuns_of_parserWith rules fun links i => ?_
    simp only [parserWith, Surface.use_eq, apply_ite Primitive.parser]
    exact (laws links i).ifSatisfies test
  · refine fun count parts f => sameRuns_of_parserWith rules fun links i => ?_
    rw [parserWith_bindAll, List.map_ofFn, parserWith, Parser.sequence_parse]
    rfl

/-- The laws of going on after a parser, and after a grammar. A series with a function of its values is its parsers one
    inside the other, with the values in their order, and no parser after the first that fails has run. -/
theorem bind_laws :
    (∀ {α β γ : Type} (p : Parser α) (q : Parser β) (next : α → Parser β) (next' : β → Parser γ) (i : View),
      Parser.BindLaws p q next next' i) ∧
    (∀ {A B C D E F : Type} (R : Type) (a : Parser A) (b : Parser B) (c : Parser C) (d : Parser D) (e : Parser E)
      (f : Parser F) (i : View), Parser.SequenceLaws R a b c d e f i) ∧
    ∀ (rules : Rules) (via : Surface) (g h : Grammar) (captures captures' : List String)
      (next next' : Value → Grammar), BindLaws rules via g h captures captures' next next' :=
  ⟨Parser.bindLaws, Parser.sequenceLaws, bindLaws⟩

end ParserKit.Grammar
