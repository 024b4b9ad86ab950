import ParserKit.Proofs.Grammar.Change
import ParserKit.Proofs.Grammar.Recursion

/-! Ways to write a grammar. A combinator can be applied as a function, as a method, through a pipe, through a bar or
    through a prepared call, and each place of a grammar can make a choice of its own. Grammars that differ in nothing
    else are built into the same parser: it has the same name and each of its runs is the same, with its reports
    (`surfaces_agree`). -/

namespace ParserKit.Grammar

/-- The grammar with every combinator applied as a function. -/
def plain : Grammar → Grammar
  | prim p => prim p
  | padded g => padded g.plain
  | transform _ g f => transform .function g.plain f
  | orWith _ g h => orWith .function g.plain h.plain
  | combine _ g h f => combine .function g.plain h.plain f
  | ignore _ g h => ignore .function g.plain h.plain
  | ignorePrevious _ g h => ignorePrevious .function g.plain h.plain
  | ifSatisfies _ g test => ifSatisfies .function g.plain test
  | bind _ g captures next => bind .function g.plain captures fun v => (next v).plain
  | lookahead _ g => lookahead .function g.plain
  | optional _ g => optional .function g.plain
  | many _ g seed reduce => many .function g.plain seed reduce
  | many1 _ g seed reduce => many1 .function g.plain seed reduce
  | exactlyN _ g seed reduce n => exactlyN .function g.plain seed reduce n
  | separatedBy _ g h seed reduce => separatedBy .function g.plain h.plain seed reduce
  | sequence count parts f => sequence count (fun n => (parts n).plain) f
  | named g n => named g.plain n
  | traced g => traced g.plain
  | wrapped g => wrapped g.plain
  | fromFn g n => fromFn g.plain n
  | lazy rule => lazy rule
  | fix this name body => fix this name body.plain
  | self this => self this
  | register r => register r

theorem parserWith_plain {links links' : Links} (hlinks : Changes Eq plain links links') (σ : Scope) (g : Grammar) :
    g.parserWith links σ = g.plain.parserWith links' (σ.change plain) := by
  induction g generalizing σ with
  | prim p => rfl
  | padded g ih | named g n ih | traced g ih | wrapped g ih | fromFn g n ih => simp only [plain, parserWith, ih σ]
  | transform via g f ih | ifSatisfies via g test ih | lookahead via g ih | optional via g ih
  | many via g seed reduce ih | many1 via g seed reduce ih | exactlyN via g seed reduce n ih =>
    simp only [plain, parserWith, Surface.use_eq, ih σ]
  | orWith via g h ihg ihh | combine via g h f ihg ihh | ignore via g h ihg ihh | ignorePrevious via g h ihg ihh
  | separatedBy via g h seed reduce ihg ihh =>
    simp only [plain, parserWith, Surface.use_eq, ihg σ, ihh σ]
  | bind via g captures next ihg ihnext =>
    -- what is made of a value stands under a binder, where only a closed equation can rewrite
    have hnext : ∀ v, (next v).parserWith links σ = (next v).plain.parserWith links' (σ.change plain) :=
      fun v => ihnext v σ
    simp only [plain, parserWith, Surface.use_eq, ihg σ, hnext]
  | sequence count parts f ih =>
    have hparts : ∀ n, (parts n).parserWith links σ = (parts n).plain.parserWith links' (σ.change plain) :=
      fun n => ih n σ
    simp only [plain, parserWith, hparts]
  | lazy r => simp only [plain, parserWith, hlinks.rule r]
  | fix this name body ih =>
    simp only [plain, parserWith, ih (⟨this, name, body⟩ :: σ)]
    rfl
  | self m =>
    simp only [plain, parserWith, selfParser, Scope.resolve_change]
    rcases σ.resolve m with _ | ⟨b, inner⟩
    · rfl
    · simp only [Option.map_some, hlinks.again inner b.body]
      rfl
  | register r => simp only [plain, parserWith, hlinks.register r]

theorem respects_plain : Respects Eq plain := ⟨fun _ => rfl, fun _ => rfl, parserWith_plain⟩

theorem parserWithin_eq {rules rules' : Rules} {g g' : Grammar} (hg : g.plain = g'.plain)
    (hrules : rules.change plain = rules'.change plain) (depth : Nat) :
    g.parserWithin rules depth = g'.parserWithin rules' depth := by
  calc g.parserWithin rules depth
    _ = g.plain.parserWithin (rules.change plain) depth := respects_plain.parserWithin rules depth g
    _ = g'.plain.parserWithin (rules'.change plain) depth := by rw [hg, hrules]
    _ = g'.parserWithin rules' depth := (respects_plain.parserWithin rules' depth g').symm

/-- Grammars with the same plain form, under rules with the same plain forms, have the same name, come to the same
    outcomes and report the same. -/
theorem surfaces_agree {rules rules' : Rules} {g g' : Grammar} (hg : g.plain = g'.plain)
    (hrules : rules.change plain = rules'.change plain) :
    (∀ depth, (g.parserWithin rules depth).name = (g'.parserWithin rules' depth).name) ∧
    (∀ depth i, ((g.parserWithin rules depth).parse i).ending = ((g'.parserWithin rules' depth).parse i).ending ∧
      ((g.parserWithin rules depth).parse i).events = ((g'.parserWithin rules' depth).parse i).events) ∧
    Family.Same (family rules g) (family rules' g') := by
  have heq := parserWithin_eq hg hrules
  refine ⟨fun depth => by rw [heq], fun depth i => ?_, Family.same_of_ending_eq fun depth i => ?_⟩
  · rw [heq]
    exact ⟨rfl, rfl⟩
  · rw [family, family, heq]

/-- Lists in parentheses of single digits and of as many characters as a digit says. -/
def nested (a b c : Surface) : Grammar :=
  let counted := andThen c (prim .digitValue) (.times (prim .item) (.list []) Value.push)
  let items := separatedBy a (orWith b (self "list") (orWith c (lazy "digit") counted)) (prim (.token ","))
    (.list []) Value.push
  fix "list" "List" (ignore b (ignorePrevious c (prim (.element '(')) items) (traced (prim (.element ')'))))

/-- Two ways to write them, in which no combinator is applied in the same way. -/
theorem surfaces_agree_nested :
    let rules (a : Surface) : Rules := fun r => if r = "digit" then some (named (lookahead a (prim .digit)) "D") else none
    let g := nested .function .method .pipe
    let g' := nested .bar .call .function
    g.plain = g'.plain ∧ (rules .method).change plain = (rules .bar).change plain ∧
      (∀ depth, (g.parserWithin (rules .method) depth).name = (g'.parserWithin (rules .bar) depth).name) ∧
      (∀ depth i,
        ((g.parserWithin (rules .method) depth).parse i).ending = ((g'.parserWithin (rules .bar) depth).parse i).ending ∧
        ((g.parserWithin (rules .method) depth).parse i).events = ((g'.parserWithin (rules .bar) depth).parse i).events) ∧
      Family.Same (family (rules .method) g) (family (rules .bar) g') := by
  intro rules g g'
  have hg : g.plain = g'.plain := rfl
  have hrules : (rules .method).change plain = (rules .bar).change plain := by
    funext r
    by_cases h : r = "digit" <;> simp [Rules.change, rules, h, plain]
  exact ⟨hg, hrules, surfaces_agree hg hrules⟩

end ParserKit.Grammar
