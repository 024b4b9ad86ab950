import ParserKit.Proofs.Grammar.Scope
import ParserKit.Proofs.Parser.Simulation

/-! Similar runs of grammars. A simulation that holds of what two families of links lead to holds of every grammar
    under them, also if other grammars stand for some of its names on one side (`similar_parserWith`): the
    induction over the constructors is done here once.

    The depth enters only where a grammar is entered again. Two depths are comparable for a simulation when they
    are equal, or when the simulation lets runs be cut off on the side of the smaller one. -/

namespace ParserKit
open Grammar

namespace Simulation
variable {S : Simulation}

/-- The mistakes that a grammar can make by itself stand for themselves: names and registers of nothing. -/
structure Faults (S : Simulation) : Prop where
  dropped : ∀ n, S.fault (.dropped n) (.dropped n)
  unknown : ∀ n, S.fault (.unknown n) (.unknown n)

def Depths (S : Simulation) (d e : Nat) : Prop := d = e ∨ (S.cutLeft ∧ d ≤ e) ∨ (S.cutRight ∧ e ≤ d)

theorem Depths.refl (d : Nat) : S.Depths d d := Or.inl rfl

theorem Depths.pred {d e : Nat} (h : S.Depths (d + 1) (e + 1)) : S.Depths d e := by
  rcases h with h | ⟨hS, h⟩ | ⟨hS, h⟩
  · exact Or.inl (by omega)
  · exact Or.inr (Or.inl ⟨hS, by omega⟩)
  · exact Or.inr (Or.inr ⟨hS, by omega⟩)

theorem Depths.cutLeft {e : Nat} (h : S.Depths 0 (e + 1)) : S.cutLeft := by
  rcases h with h | ⟨hS, -⟩ | ⟨-, h⟩
  · omega
  · exact hS
  · omega

theorem Depths.cutRight {d : Nat} (h : S.Depths (d + 1) 0) : S.cutRight := by
  rcases h with h | ⟨-, h⟩ | ⟨hS, -⟩
  · omega
  · omega
  · exact hS

theorem Similar.primitive (p : Primitive) : S.Similar p.parser p.parser := by
  cases p with
  | item => exact item.map _
  | satisfy test => exact (satisfy test).map _
  | element c => exact (element c).map _
  | oneOf set => exact (oneOf set).map _
  | noneOf set => exact (noneOf set).map _
  | literal text => exact (literal text).map _
  | manyOf c => exact (manyOf c).map _
  | always v => exact always v
  | fail => exact fail
  | eof => exact eof.map _
  | whitespace => exact whitespace.map _
  | token text => exact (token text).map _
  | digit => exact digit.map _
  | digitValue => exact digitValue.map _
  | integer => exact integer.map _
  | expr => exact expr.map _
  | term => exact term.map _
  | factor => exact factor.map _

end Simulation

namespace Grammar
variable {S : Simulation} {links links' : Links}

/-! ### Two families of links -/

/-- The scopes of a relation stand for each other, with some names filled on the right: whatever names are left in
    a grammar lead to similar parsers. -/
structure Scoped (S : Simulation) (links links' : Links) (registers : Names)
    (R : Filling → Names → Scope → Scope → Prop) : Prop where
  push : ∀ {ρ ns σ σ'} {b : Binding}, R ρ ns σ σ' → b.body.Closed (ns.insert b.this) registers →
    R (without ρ b.this) (ns.insert b.this) (b :: σ) (b.fill (without ρ b.this) :: σ')
  self : ∀ {ρ ns σ σ' m}, R ρ ns σ σ' → ns m →
    S.Similar (selfParser links σ m) (((self m).fill ρ).parserWith links' σ')

theorem similar_parserWith (hS : S.Reports) {registers : Names} {R : Filling → Names → Scope → Scope → Prop}
    (hR : Scoped S links links' registers R) (rule : ∀ r, S.Alike (links.rule r) (links'.rule r))
    (register : ∀ r, registers r → S.Similar (links.register r) (links'.register r)) {g : Grammar} {ρ : Filling}
    {ns : Names} {σ σ' : Scope} (hg : g.Closed ns registers) (hσ : R ρ ns σ σ') :
    S.Similar (g.parserWith links σ) ((g.fill ρ).parserWith links' σ') := by
  induction g generalizing ρ ns σ σ' with
  | prim p => exact .primitive p
  | padded g ih => exact (ih hg hσ).padded
  | transform via g f ih =>
    simp only [fill, parserWith, Surface.use_eq]
    exact (ih hg hσ).transform f
  | orWith via g h ihg ihh =>
    simp only [fill, parserWith, Surface.use_eq]
    exact (ihg hg.1 hσ).orWith (ihh hg.2 hσ)
  | combine via g h f ihg ihh =>
    simp only [fill, parserWith, Surface.use_eq]
    exact (ihg hg.1 hσ).combine (ihh hg.2 hσ) f
  | ignore via g h ihg ihh =>
    simp only [fill, parserWith, Surface.use_eq]
    exact (ihg hg.1 hσ).ignore (ihh hg.2 hσ)
  | ignorePrevious via g h ihg ihh =>
    simp only [fill, parserWith, Surface.use_eq]
    exact (ihg hg.1 hσ).ignorePrevious (ihh hg.2 hσ)
  | ifSatisfies via g test ih =>
    simp only [fill, parserWith, Surface.use_eq]
    exact (ih hg hσ).ifSatisfies test
  | bind via g captures next ihg ihnext =>
    simp only [fill, parserWith, Surface.use_eq]
    exact (ihg hg.1 hσ).bind fun v => ihnext v (hg.2 v) hσ
  | lookahead via g ih =>
    simp only [fill, parserWith, Surface.use_eq]
    exact (ih hg hσ).lookahead
  | optional via g ih =>
    simp only [fill, parserWith, Surface.use_eq]
    exact (ih hg hσ).optional.map _
  | many via g seed reduce ih =>
    simp only [fill, parserWith, Surface.use_eq]
    exact (ih hg hσ).many seed reduce
  | many1 via g seed reduce ih =>
    simp only [fill, parserWith, Surface.use_eq]
    exact (ih hg hσ).many1 seed reduce
  | exactlyN via g seed reduce n ih =>
    simp only [fill, parserWith, Surface.use_eq]
    exact (ih hg hσ).exactlyN seed reduce n
  | separatedBy via g h seed reduce ihg ihh =>
    simp only [fill, parserWith, Surface.use_eq]
    exact (ihg hg.1 hσ).separatedBy (ihh hg.2 hσ) seed reduce
  | sequence count parts f ih => exact .sequence (fun n => ih n (hg n) hσ) f
  | named g n ih => exact (ih hg hσ).named n
  | traced g ih => exact (ih hg hσ).traced hS
  | wrapped g ih => exact .fromFn _ (ih hg hσ).run
  | fromFn g n ih => exact .fromFn _ (ih hg hσ).run
  | lazy r => exact .lazy (rule r)
  | fix m name g ih => exact .fromFn _ (ih hg (hR.push (b := ⟨m, name, g⟩) hσ hg)).run
  | self m => exact hR.self hσ hg
  | register r =>
    simp only [fill, parserWith, Parser.delayed_eq]
    exact register r hg

/-! ### Depth -/

/-- Links that allow one more entry at each step. -/
structure Unrolls (F : Nat → Links) : Prop where
  zero : ∀ σ g, (F 0).again σ g = .cutOff ""
  succ : ∀ d σ g, (F (d + 1)).again σ g = g.parserWith (F d) σ

theorem unrolls_linksWithin (rules : Rules) : Unrolls (linksWithin rules) := ⟨fun _ _ => rfl, fun _ _ _ => rfl⟩

section
variable {F F' : Nat → Links} {d e : Nat} {σ σ' τ τ' : Scope} {b b' : Binding} {m : String}

/-- The names that lead to `b` and to `b'` are similar if these are, with one entry less on each side. -/
theorem similar_selfParser (hF : Unrolls F) (hF' : Unrolls F') (hde : S.Depths d e)
    (hσ : σ.resolve m = some (b, τ)) (hσ' : σ'.resolve m = some (b', τ')) (hname : b.name = b'.name)
    (h : ∀ d' e', d = d' + 1 → e = e' + 1 → S.Alike (b.body.parserWith (F d') τ) (b'.body.parserWith (F' e') τ')) :
    S.Similar (selfParser (F d) σ m) (selfParser (F' e) σ' m) := by
  simp only [selfParser, hσ, hσ', hname]
  refine .fromFn _ fun i j hv => ?_
  rcases d with _ | d
  · rw [hF.zero]
    rcases e with _ | e
    · rw [hF'.zero]
      exact .cut
    · exact .cutLeft hde.cutLeft
  · rcases e with _ | e
    · rw [hF'.zero]
      exact .cutRight hde.cutRight
    · rw [hF.succ, hF'.succ]
      exact h d e rfl rfl i j hv

end

/-- One grammar in one scope. Every name counts as bound: one that leads nowhere does so on both sides. -/
theorem similar_of_unrolls (hS : S.Reports) (hf : S.Faults) {F F' : Nat → Links} (hF : Unrolls F)
    (hF' : Unrolls F') {d e : Nat} (hde : S.Depths d e) {registers : Names}
    (rule : ∀ r, S.Alike ((F d).rule r) ((F' e).rule r))
    (register : ∀ r, registers r → S.Similar ((F d).register r) ((F' e).register r))
    (ih : ∀ d' e', d = d' + 1 → e = e' + 1 → ∀ {τ : Scope} {b : Grammar}, Scope.Whole registers τ →
      b.Closed Names.all registers → S.Alike (b.parserWith (F d') τ) (b.parserWith (F' e') τ))
    {σ : Scope} (hσ : Scope.Whole registers σ) {g : Grammar} (hg : g.Closed Names.all registers) :
    S.Similar (g.parserWith (F d) σ) (g.parserWith (F' e) σ) := by
  let R : Filling → Names → Scope → Scope → Prop := fun ρ ns τ τ' =>
    ρ = [] ∧ ns = Names.all ∧ τ = τ' ∧ Scope.Whole registers τ
  have hR : Scoped S (F d) (F' e) registers R := by
    constructor
    · rintro ρ ns τ τ' b ⟨rfl, rfl, rfl, hτ⟩ hb
      rw [Names.insert_all] at hb ⊢
      exact ⟨rfl, rfl, by simp, List.forall_mem_cons.mpr ⟨hb, hτ⟩⟩
    · rintro ρ ns τ τ' m ⟨rfl, rfl, rfl, hτ⟩ -
      rw [fill_nil]
      rcases hres : τ.resolve m with _ | ⟨b, inner⟩
      · rw [parserWith, selfParser, selfParser, hres]
        exact .faulty m (hf.dropped m)
      · obtain ⟨hb, hinner⟩ := hτ.resolve hres
        exact similar_selfParser hF hF' hde hres hres rfl fun d' e' hd he => ih d' e' hd he hinner hb
  have h := similar_parserWith hS hR rule register hg ⟨rfl, rfl, rfl, hσ⟩
  rwa [fill_nil] at h

theorem similar_unknown (hf : S.Faults) (r : String) :
    S.Similar (Parser.faulty r (.unknown r) : Parser Value) (Parser.faulty r (.unknown r)) :=
  .faulty r (hf.unknown r)

theorem alike_rule (hf : S.Faults) (rules : Rules) {d e : Nat} (hde : S.Depths d e)
    (h : ∀ d' e', d = d' + 1 → e = e' + 1 → ∀ g : Grammar,
      S.Alike (g.parserWith (linksWithin rules d') []) (g.parserWith (linksWithin rules e') [])) (r : String) :
    S.Alike ((linksWithin rules d).rule r) ((linksWithin rules e).rule r) := by
  intro i j hv
  rcases d with _ | d
  · rcases e with _ | e
    · exact .cut
    · exact .cutLeft hde.cutLeft
  · rcases e with _ | e
    · exact .cutRight hde.cutRight
    · rcases hr : rules r with _ | g
      · simp only [linksWithin, hr]
        exact (similar_unknown hf r).run i j hv
      · simp only [linksWithin, hr]
        exact h d e rfl rfl g i j hv

theorem similar_linksWithin (hS : S.Reports) (hf : S.Faults) (rules : Rules) {d e : Nat} (hde : S.Depths d e)
    (σ : Scope) (g : Grammar) :
    S.Similar (g.parserWith (linksWithin rules d) σ) (g.parserWith (linksWithin rules e) σ) := by
  induction d using Nat.strongRecOn generalizing e σ g with
  | ind d ih =>
    refine similar_of_unrolls hS hf (unrolls_linksWithin rules) (unrolls_linksWithin rules) hde
      (alike_rule hf rules hde ?_) (fun r _ => ?_) ?_ (fun b _ => closed_all b.body) (closed_all g)
    · rintro d e rfl rfl g
      exact (ih d (Nat.lt_succ_self d) hde.pred [] g).run
    · rcases d with _ | d <;> rcases e with _ | e <;> exact similar_unknown hf r
    · rintro d e rfl rfl τ b - -
      exact (ih d (Nat.lt_succ_self d) hde.pred τ b).run

theorem alike_rules (hS : S.Reports) (hf : S.Faults) (rules : Rules) {d e : Nat} (hde : S.Depths d e) (r : String) :
    S.Alike ((linksWithin rules d).rule r) ((linksWithin rules e).rule r) := by
  refine alike_rule hf rules hde ?_ r
  rintro d e rfl rfl g
  exact (similar_linksWithin hS hf rules hde.pred [] g).run

theorem similar_of_shared (hS : S.Reports) (hf : S.Faults) (rules : Rules) {d e : Nat} (hde : S.Depths d e)
    {ns : Names} {σ σ' : Scope} {g : Grammar} (hg : g.Closed ns Names.none) (hσ : Scope.Shared ns σ σ') :
    S.Similar (g.parserWith (linksWithin rules d) σ) (g.parserWith (linksWithin rules e) σ') := by
  induction d using Nat.strongRecOn generalizing e ns σ σ' g with
  | ind d ih =>
    let R : Filling → Names → Scope → Scope → Prop := fun ρ ns τ τ' => ρ = [] ∧ Scope.Shared ns τ τ'
    have hR : Scoped S (linksWithin rules d) (linksWithin rules e) Names.none R := by
      constructor
      · rintro ρ ns τ τ' b ⟨rfl, hτ⟩ hb
        rw [without_nil, Binding.fill_nil]
        exact ⟨rfl, .push hb hτ⟩
      · rintro ρ ns τ τ' m ⟨rfl, hτ⟩ hm
        rw [fill_nil]
        obtain ⟨ns', b, inner, inner', hres, hres', hb, hinner⟩ := hτ.resolve hm
        refine similar_selfParser (unrolls_linksWithin rules) (unrolls_linksWithin rules) hde hres hres' rfl ?_
        rintro d e rfl rfl
        exact (ih d (Nat.lt_succ_self d) hde.pred hb hinner).run
    have h := similar_parserWith hS hR (alike_rules hS hf rules hde) (fun r hr => hr.elim) hg ⟨rfl, hσ⟩
    rwa [fill_nil] at h

end Grammar
end ParserKit
