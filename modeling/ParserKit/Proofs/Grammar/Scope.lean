import ParserKit.Grammar.Meaning

/-! Names in grammars. A grammar is closed when every `self` in it is bound, and the free `self`s of a name can
    be filled with another grammar. Scopes that differ only where a closed grammar cannot see resolve its
    names in the same way. -/

namespace ParserKit

abbrev Names := String → Prop

namespace Names

def insert (m : String) (ns : Names) : Names := fun n => n = m ∨ ns n

def all : Names := fun _ => True

def none : Names := fun _ => False

@[simp] theorem insert_all (m : String) : all.insert m = all := by
  funext n
  simp [insert, all]

end Names

namespace Grammar

/-! ### Closed grammars -/

/-- Every name that the grammar refers to is bound in it or is one of `bound`, and it uses no registers but
    those in `registers`. A lazy rule sees no names. -/
def Closed : Grammar → Names → Names → Prop
  | prim _, _, _ | lazy _, _, _ => True
  | self m, bound, _ => bound m
  | register r, _, registers => registers r
  | fix m _ g, bound, registers => g.Closed (bound.insert m) registers
  | padded g, bound, registers | transform _ g _, bound, registers | ifSatisfies _ g _, bound, registers
  | lookahead _ g, bound, registers | optional _ g, bound, registers | many _ g _ _, bound, registers
  | many1 _ g _ _, bound, registers | exactlyN _ g _ _ _, bound, registers | named g _, bound, registers
  | traced g, bound, registers | wrapped g, bound, registers | fromFn g _, bound, registers =>
    g.Closed bound registers
  | orWith _ g h, bound, registers | combine _ g h _, bound, registers | ignore _ g h, bound, registers
  | ignorePrevious _ g h, bound, registers | separatedBy _ g h _ _, bound, registers =>
    g.Closed bound registers ∧ h.Closed bound registers
  | bind _ g _ next, bound, registers => g.Closed bound registers ∧ ∀ v, (next v).Closed bound registers
  | sequence _ parts _, bound, registers => ∀ n, (parts n).Closed bound registers

theorem closed_all (g : Grammar) : g.Closed Names.all Names.all := by
  induction g with
  | self m => trivial
  | register r => trivial
  | fix m name g ih => simpa [Closed] using ih
  | _ => simp_all [Closed]

/-! ### Filling names -/

abbrev Filling := List (String × Grammar)

def without (ρ : Filling) (m : String) : Filling := ρ.filter fun entry => entry.1 != m

/-- The grammar with other grammars in the place of its free `self`s. -/
def fill : Grammar → Filling → Grammar
  | prim p, _ => prim p
  | padded g, ρ => padded (g.fill ρ)
  | transform via g f, ρ => transform via (g.fill ρ) f
  | orWith via g h, ρ => orWith via (g.fill ρ) (h.fill ρ)
  | combine via g h f, ρ => combine via (g.fill ρ) (h.fill ρ) f
  | ignore via g h, ρ => ignore via (g.fill ρ) (h.fill ρ)
  | ignorePrevious via g h, ρ => ignorePrevious via (g.fill ρ) (h.fill ρ)
  | ifSatisfies via g test, ρ => ifSatisfies via (g.fill ρ) test
  | bind via g captures next, ρ =>
    bind via (g.fill ρ) (captures ++ ρ.flatMap fun entry => entry.2.mentions) fun v => (next v).fill ρ
  | lookahead via g, ρ => lookahead via (g.fill ρ)
  | optional via g, ρ => optional via (g.fill ρ)
  | many via g seed reduce, ρ => many via (g.fill ρ) seed reduce
  | many1 via g seed reduce, ρ => many1 via (g.fill ρ) seed reduce
  | exactlyN via g seed reduce n, ρ => exactlyN via (g.fill ρ) seed reduce n
  | separatedBy via g h seed reduce, ρ => separatedBy via (g.fill ρ) (h.fill ρ) seed reduce
  | sequence count parts f, ρ => sequence count (fun n => (parts n).fill ρ) f
  | named g n, ρ => named (g.fill ρ) n
  | traced g, ρ => traced (g.fill ρ)
  | wrapped g, ρ => wrapped (g.fill ρ)
  | fromFn g n, ρ => fromFn (g.fill ρ) n
  | lazy rule, _ => lazy rule
  | fix m name g, ρ => fix m name (g.fill (without ρ m))
  | self m, ρ => (ρ.lookup m).getD (self m)
  | register r, _ => register r

section
variable {m n : String} {h : Grammar} {ρ : Filling}

@[simp] theorem without_nil (m : String) : without [] m = [] := rfl

@[simp] theorem fill_nil (g : Grammar) : g.fill [] = g := by
  induction g <;> simp_all [fill]

theorem lookup_without_self : List.lookup m (without ρ m) = none := by
  rw [List.lookup_eq_none_iff]
  intro entry hentry
  have hne : entry.1 ≠ m := by simpa using (List.mem_filter.mp hentry).2
  simpa using Ne.symm hne

theorem lookup_without_of_ne (hmn : m ≠ n) : List.lookup m (without ρ n) = ρ.lookup m := by
  induction ρ with
  | nil => rfl
  | cons entry ρ ih =>
    obtain ⟨k, g⟩ := entry
    by_cases hk : k = n
    · subst hk
      have hdrop : without ((k, g) :: ρ) k = without ρ k := by simp [without]
      rw [hdrop, ih, List.lookup_cons, beq_false_of_ne hmn]
    · have hkeep : without ((k, g) :: ρ) n = (k, g) :: without ρ n := by simp [without, hk]
      rw [hkeep, List.lookup_cons, List.lookup_cons, ih]

end

end Grammar

def Binding.grammar (b : Binding) : Grammar := .fix b.this b.name b.body

def Binding.fill (b : Binding) (ρ : Grammar.Filling) : Binding := { b with body := b.body.fill ρ }

@[simp] theorem Binding.fill_nil (b : Binding) : b.fill [] = b := by simp [fill]

/-! ### Scopes that agree -/

namespace Scope
open Grammar

@[simp] theorem resolve_cons_self (b : Binding) (σ : Scope) :
    Scope.resolve (b :: σ) b.this = some (b, b :: σ) := by simp [Scope.resolve]

theorem resolve_cons_of_ne {b : Binding} {m : String} (h : m ≠ b.this) (σ : Scope) :
    Scope.resolve (b :: σ) m = σ.resolve m := by
  rw [Scope.resolve, if_neg (Ne.symm h)]

/-- The grammars of all entries are closed, apart from these registers. -/
def Whole (registers : Names) (σ : Scope) : Prop := ∀ b ∈ σ, b.body.Closed Names.all registers

theorem whole_nil (registers : Names) : Whole registers [] := fun _ h => nomatch h

theorem Whole.resolve {registers : Names} {σ τ : Scope} {m : String} {b : Binding} (hσ : Whole registers σ)
    (h : σ.resolve m = some (b, τ)) : b.body.Closed Names.all registers ∧ Whole registers τ := by
  induction σ with
  | nil => simp [Scope.resolve] at h
  | cons c σ ih =>
    by_cases hk : m = c.this
    · subst hk
      rw [resolve_cons_self] at h
      cases h
      exact ⟨hσ _ List.mem_cons_self, hσ⟩
    · rw [resolve_cons_of_ne hk] at h
      exact ih (fun b hb => hσ b (List.mem_cons_of_mem _ hb)) h

/-- Scopes with the same entries for the names in a set, closed under what they refer to. -/
inductive Shared : Names → Scope → Scope → Prop
  | outer {ns σ σ'} : (∀ n, ¬ ns n) → Shared ns σ σ'
  | push {ns σ σ'} {b : Binding} : b.body.Closed (ns.insert b.this) Names.none → Shared ns σ σ' →
      Shared (ns.insert b.this) (b :: σ) (b :: σ')

theorem Shared.resolve {ns : Names} {σ σ' : Scope} (h : Shared ns σ σ') {m : String} (hm : ns m) :
    ∃ ns' b τ τ', σ.resolve m = some (b, τ) ∧ σ'.resolve m = some (b, τ') ∧ b.body.Closed ns' Names.none ∧
      Shared ns' τ τ' := by
  induction h with
  | outer hns => exact absurd hm (hns m)
  | @push ns σ σ' b hb hσ ih =>
    by_cases hk : m = b.this
    · subst hk
      exact ⟨_, b, _, _, resolve_cons_self _ _, resolve_cons_self _ _, hb, .push hb hσ⟩
    · rw [resolve_cons_of_ne hk, resolve_cons_of_ne hk]
      exact ih (hm.resolve_left hk)

/-- Scopes inside a recursive grammar `b`, and inside its body with its name filled with `h`. The name is filled until
    another recursive grammar of this name is entered. The body refers to no names but those in `used`. -/
inductive Filled (b : Binding) (h : Grammar) (used : Names) : Filling → Names → Scope → Scope → Prop
  | start {σ σ'} : (∀ n, used n → n = b.this) → Filled b h used [(b.this, h)] used (b :: σ) σ'
  | push {ρ ns σ σ'} {c : Binding} : c.body.Closed (ns.insert c.this) Names.none → Filled b h used ρ ns σ σ' →
      Filled b h used (without ρ c.this) (ns.insert c.this) (c :: σ) (c.fill (without ρ c.this) :: σ')

/-- A name leads back to the body where it is filled, and to entries that are filled where it is not. -/
theorem Filled.resolve {b : Binding} {h : Grammar} {used ns : Names} {ρ : Filling} {σ σ' : Scope}
    (hσ : Filled b h used ρ ns σ σ') {m : String} (hm : ns m) :
    (m = b.this ∧ used m ∧ ρ.lookup m = some h ∧ ∃ τ, σ.resolve m = some (b, b :: τ)) ∨
    (ρ.lookup m = none ∧ ∃ ρ' ns' c τ τ', σ.resolve m = some (c, τ) ∧ σ'.resolve m = some (c.fill ρ', τ') ∧
      c.body.Closed ns' Names.none ∧ Filled b h used ρ' ns' τ τ') := by
  induction hσ with
  | @start σ σ' hused =>
    obtain rfl := hused m hm
    exact Or.inl ⟨rfl, hm, by simp, σ, resolve_cons_self _ _⟩
  | @push ρ ns σ σ' c hc hσ ih =>
    by_cases hk : m = c.this
    · subst hk
      exact Or.inr ⟨lookup_without_self, _, _, c, _, _, resolve_cons_self _ _, resolve_cons_self _ _, hc,
        .push hc hσ⟩
    · have hk' : m ≠ (c.fill (without ρ c.this)).this := hk
      rw [resolve_cons_of_ne hk, resolve_cons_of_ne hk', lookup_without_of_ne hk]
      exact ih (hm.resolve_left hk)

end Scope
end ParserKit
