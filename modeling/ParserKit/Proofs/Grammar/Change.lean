import ParserKit.Proofs.Grammar.Scope

/-! Grammars that are changed everywhere. A change of grammars reaches the bodies of the recursive grammars in a scope
    and the grammars of the rules too. If it relates the parser of a grammar to that of the changed grammar as far as
    its links do, it does so at every depth (`Respects.parserWithin`): what is left to say about a change is what
    becomes of one grammar. -/

namespace ParserKit

def Binding.change (f : Grammar → Grammar) (b : Binding) : Binding := { b with body := f b.body }

def Scope.change (f : Grammar → Grammar) (σ : Scope) : Scope := σ.map (Binding.change f)

def Grammar.Rules.change (f : Grammar → Grammar) (rules : Rules) : Rules := fun r => (rules r).map f

section
variable {f : Grammar → Grammar}

@[simp] theorem Scope.change_cons (b : Binding) (σ : Scope) :
    Scope.change f (b :: σ) = b.change f :: Scope.change f σ := rfl

theorem Scope.resolve_change (σ : Scope) (m : String) :
    (σ.change f).resolve m = (σ.resolve m).map fun (b, inner) => (b.change f, inner.change f) := by
  induction σ with
  | nil => rfl
  | cons b σ ih =>
    rw [change_cons]
    by_cases hb : b.this = m
    · subst hb
      have hthis : (b.change f).this = b.this := rfl
      rw [resolve_cons_self, ← hthis, resolve_cons_self]
      rfl
    · rw [resolve_cons_of_ne (Ne.symm hb), resolve_cons_of_ne (b := b.change f) (Ne.symm hb), ih]

end

namespace Grammar

/-- Links that are related, with the change on the right. -/
structure Changes (R : Parser Value → Parser Value → Prop) (f : Grammar → Grammar) (links links' : Links) : Prop where
  rule : ∀ r, R (links.rule r) (links'.rule r)
  again : ∀ σ g, R (links.again σ g) (links'.again (σ.change f) (f g))
  register : ∀ r, R (links.register r) (links'.register r)

/-- A change that keeps to a relation of parsers, as far as links do. -/
structure Respects (R : Parser Value → Parser Value → Prop) (f : Grammar → Grammar) : Prop where
  cutOff : ∀ n, R (.cutOff n) (.cutOff n)
  unknown : ∀ n, R (.faulty n (.unknown n)) (.faulty n (.unknown n))
  parserWith : ∀ {links links'}, Changes R f links links' → ∀ σ g,
    R (g.parserWith links σ) ((f g).parserWith links' (σ.change f))

variable {R : Parser Value → Parser Value → Prop} {f : Grammar → Grammar}

theorem Respects.linksWithin (h : Respects R f) (rules : Rules) (depth : Nat) :
    Changes R f (linksWithin rules depth) (linksWithin (rules.change f) depth) := by
  induction depth with
  | zero => exact ⟨h.cutOff, fun _ _ => h.cutOff "", h.unknown⟩
  | succ depth ih =>
    refine ⟨fun r => ?_, fun σ g => h.parserWith ih σ g, h.unknown⟩
    rcases hr : rules r with _ | g
    · simp only [Grammar.linksWithin, Rules.change, hr, Option.map_none]
      exact h.unknown r
    · simp only [Grammar.linksWithin, Rules.change, hr, Option.map_some]
      exact h.parserWith ih [] g

theorem Respects.parserWithin (h : Respects R f) (rules : Rules) (depth : Nat) (g : Grammar) :
    R (g.parserWithin rules depth) ((f g).parserWithin (rules.change f) depth) :=
  h.parserWith (h.linksWithin rules depth) [] g

end Grammar
end ParserKit
