import ParserKit.Proofs.Grammar.Similarity

/-! Recursive grammars and grammars whose name is filled. Inside `fix this name body` the name `this` leads back
    to `body`; with the name filled, something else stands in its place. If the two are alike, so are the whole
    grammars (`alike_fill`), whatever else is in them: other recursive grammars inside, of other names or of
    the same one, and continuations that are made while the run goes on. -/

namespace ParserKit.Grammar
open Simulation Scope

variable {S : Simulation} {F F' : Nat → Links} {b : Binding} {h : Grammar} {used : Names} {ahead : Nat}

/-- What the name leads to on the left is alike to what fills it, as far as the body itself is alike to the filled
    body with one entry less on each side. -/
def FitsHole (S : Simulation) (F F' : Nat → Links) (b : Binding) (h : Grammar) (ahead : Nat) : Prop :=
  ∀ e, (∀ e', e = e' + 1 → ∀ τ τ' : Scope, S.Alike (b.body.parserWith (F (e' + ahead)) (b :: τ))
      ((b.body.fill [(b.this, h)]).parserWith (F' e') τ')) →
    ∀ τ τ' : Scope, S.Alike ((F (e + ahead)).again (b :: τ) b.body) (h.parserWith (F' e) τ')

/-- Grammars in filled scopes at every depth, with `ahead` more entries on the left. -/
theorem alike_filled (hS : S.Reports) (hn : ¬ S.named) (hF : Unrolls F) (hF' : Unrolls F')
    (hahead : ahead = 0 ∨ S.cutRight) (rule : ∀ e r, S.Alike ((F (e + ahead)).rule r) ((F' e).rule r))
    (hused : ∀ n, used n → n = b.this) (hbody : b.body.Closed used Names.none)
    (hole : used b.this → FitsHole S F F' b h ahead) (e : Nat) {g : Grammar} {ρ : Filling} {ns : Names}
    {σ σ' : Scope} (hg : g.Closed ns Names.none) (hσ : Filled b h used ρ ns σ σ') :
    S.Alike (g.parserWith (F (e + ahead)) σ) ((g.fill ρ).parserWith (F' e) σ') := by
  induction e using Nat.strongRecOn generalizing g ρ ns σ σ' with
  | ind e ih =>
    have hde : S.Depths (e + ahead) e := by
      rcases hahead with rfl | hcut
      · exact .refl e
      · exact Or.inr (Or.inr ⟨hcut, Nat.le_add_right e ahead⟩)
    have hR : Scoped S (F (e + ahead)) (F' e) Names.none (Filled b h used) := by
      refine ⟨fun hσ hc => .push hc hσ, fun {ρ ns τ τ' m} hτ hm => ?_⟩
      rcases hτ.resolve hm with ⟨rfl, hthis, hlookup, inner, hres⟩ |
        ⟨hlookup, ρ', ns', c, inner, inner', hres, hres', hc, hinner⟩
      · -- the name that is filled
        refine ⟨fun hnamed => absurd hnamed hn, fun i j hv => ?_⟩
        have hleft : (selfParser (F (e + ahead)) τ b.this).parse i =
            ((F (e + ahead)).again (b :: inner) b.body).parse i := by
          rw [selfParser, hres]
          rfl
        rw [hleft, fill, hlookup, Option.getD_some]
        refine hole hthis e (fun e' he κ κ' => ?_) inner τ' i j hv
        subst he
        exact ih e' (Nat.lt_succ_self e') hbody (.start hused)
      · -- every other one
        rw [fill, hlookup, Option.getD_none, parserWith]
        refine similar_selfParser hF hF' hde hres hres' rfl fun d' e' hd he => ?_
        subst he
        obtain rfl : d' = e' + ahead := by omega
        exact ih e' (Nat.lt_succ_self e') hc hinner
    exact (similar_parserWith hS hR (rule e) (fun r hr => hr.elim) hg hσ).run

theorem alike_fill (hS : S.Reports) (hn : ¬ S.named) (hF : Unrolls F) (hF' : Unrolls F')
    (hahead : ahead = 0 ∨ S.cutRight) (rule : ∀ e r, S.Alike ((F (e + ahead)).rule r) ((F' e).rule r))
    (hused : ∀ n, used n → n = b.this) (hbody : b.body.Closed used Names.none)
    (hole : used b.this → FitsHole S F F' b h ahead) (e : Nat) (σ σ' : Scope) :
    S.Alike (b.body.parserWith (F (e + ahead)) (b :: σ)) ((b.body.fill [(b.this, h)]).parserWith (F' e) σ') := by
  exact alike_filled hS hn hF hF' hahead rule hused hbody hole e hbody (.start hused)

end ParserKit.Grammar
