import ParserKit.Proofs.Forward.Building
import ParserKit.Proofs.Grammar.Similarity

/-! References of recursive grammars never dangle. Wherever a run is, the references that it can come to lead to cells
    of parsers that it is inside of (`Stack.Upholds`): a body runs only inside of the parser with its cell, and what
    a continuation or a rule builds is entered on top of what was there. So a built parser is the same as the parser
    that the structure of its grammar gives (`builtWithin_eq`), and no run of it comes to a cell that is gone or was
    never defined (`neverDangles_builtWithin`). -/

namespace ParserKit

/-! ### References and scopes -/

namespace Stack

/-- The references for these names lead to living cells, which are defined as the recursive grammars of a scope. -/
inductive Upholds (s : Stack) : Names → Environment → Scope → Prop
  | outer {ns env σ} : (∀ n, ¬ ns n) → Upholds s ns env σ
  | push {ns env σ} {b : Binding} {a : Address} : b.body.Closed (ns.insert b.this) Names.none →
      s.Has (b.grammar.cells env a) → Upholds s ns env σ →
      Upholds s (ns.insert b.this) ((b.this, ⟨a, b.name⟩) :: env) (b :: σ)

variable {s t : Stack} {ns : Names} {env : Environment} {σ : Scope}

theorem Upholds.mono (h : s.Upholds ns env σ) (hst : s.Extends t) : t.Upholds ns env σ := by
  induction h with
  | outer hns => exact .outer hns
  | push hb hcells _ ih => exact .push hb (hcells.mono hst) ih

theorem Upholds.resolve (h : s.Upholds ns env σ) {m : String} (hm : ns m) :
    ∃ ns' env' τ b a, env.lookup m = some ⟨a, b.name⟩ ∧ σ.resolve m = some (b, τ) ∧
      s.status a = .alive ⟨b.body, env', a.inside 0⟩ ∧ s.Has (b.body.cells env' (a.inside 0)) ∧
      b.body.Closed ns' Names.none ∧ s.Upholds ns' env' τ := by
  induction h with
  | outer hns => exact absurd hm (hns m)
  | @push ns env σ b a hb hcells hσ ih =>
    by_cases hk : m = b.this
    · subst hk
      have hlookup : List.lookup b.this ((b.this, (⟨a, b.name⟩ : Reference)) :: env) = some ⟨a, b.name⟩ := by simp
      obtain ⟨hcell, hbody⟩ := List.forall_mem_cons.mp hcells
      exact ⟨_, _, _, b, a, hlookup, Scope.resolve_cons_self _ _, hcell, hbody, hb, .push hb hcells hσ⟩
    · rw [Scope.resolve_cons_of_ne hk, List.lookup_cons, beq_false_of_ne hk]
      exact ih (hm.resolve_left hk)

end Stack

namespace Grammar
open Stack Simulation

/-! ### Built parsers and grammars -/

/-- A rule that refers to recursive grammars around it is built anew in each run, as what a continuation makes. -/
theorem parserOn_named_bind_always (links : Stack.Links) (s : Stack) (env : Environment) (a : Address) (via : Surface)
    (captures : List String) (v : Value) (next : Value → Grammar) :
    (named (bind via (prim (.always v)) captures next) "Lazy").parserOn links s env a =
      Parser.lazy fun _ => s.run links env (next v) := by
  simp only [parserOn, Surface.use_eq]
  rfl

/-- Links by which a reference and a rule are what they are in a scope. -/
structure Agree (links : Stack.Links) (links' : ParserKit.Links) : Prop where
  self : ∀ {s ns env σ m} (a : Address), s.Upholds ns env σ → ns m →
    (self m).parserOn links s env a = selfParser links' σ m
  rule : ∀ s r, links.rule s r = links'.rule r

theorem parserOn_eq {links : Stack.Links} {links' : ParserKit.Links} (hlinks : Agree links links') {g : Grammar}
    {ns : Names} {s : Stack} {env : Environment} {σ : Scope} {a : Address} (hg : g.Closed ns Names.none)
    (hσ : s.Upholds ns env σ) (hcells : s.Has (g.cells env a)) :
    g.parserOn links s env a = g.parserWith links' σ := by
  -- the induction carries two facts: the cells of `g` itself are alive, and so are those that it can refer to
  induction g generalizing ns s env σ a with
  | prim p => rfl
  | padded g ih | transform via g f ih | ifSatisfies via g test ih | lookahead via g ih | optional via g ih
  | many via g seed reduce ih | many1 via g seed reduce ih | exactlyN via g seed reduce n ih | named g name ih
  | traced g ih | wrapped g ih | fromFn g name ih =>
    simp only [parserOn, parserWith, ih hg hσ hcells]
  | orWith via g h ihg ihh | combine via g h f ihg ihh | ignore via g h ihg ihh | ignorePrevious via g h ihg ihh
  | separatedBy via g h seed reduce ihg ihh =>
    obtain ⟨hfirst, hsecond⟩ := List.forall_mem_append.mp hcells
    simp only [parserOn, parserWith, ihg hg.1 hσ hfirst, ihh hg.2 hσ hsecond]
  | bind via g captures next ihg ihnext =>
    -- a continuation builds on a greater stack, where what was alive still is
    have hnext : ∀ v, (next v).parserOn links (s.enter env (next v)) env s.next = (next v).parserWith links' σ :=
      fun v => ihnext v (hg.2 v) (hσ.mono (s.extends_enter env (next v))) (s.has_enter env (next v))
    simp only [parserOn, parserWith, ihg hg.1 hσ hcells, hnext]
  | sequence count parts f ih =>
    have hparts : ∀ n, (parts n).parserOn links s env (a.inside n) = (parts n).parserWith links' σ := by
      intro n
      refine ih n (hg n) hσ fun c hc => hcells c ?_
      exact List.mem_flatten.mpr ⟨_, List.mem_ofFn.mpr ⟨n, rfl⟩, hc⟩
    simp only [parserOn, parserWith, hparts]
  | lazy r => simp only [parserOn, parserWith, hlinks.rule]
  | fix this name body ih =>
    obtain ⟨-, hbody⟩ := List.forall_mem_cons.mp hcells
    have hpush := Upholds.push (b := ⟨this, name, body⟩) hg hcells hσ
    simp only [parserOn, parserWith, ih hg hpush hbody]
  | self m => exact hlinks.self a hσ hg
  | register r => exact hg.elim

section
variable {rules : Rules}

theorem agree_linksWithin (hrules : ∀ r g, rules r = some g → g.Closed Names.none Names.none) (depth : Nat) :
    Agree (Stack.linksWithin rules depth) (linksWithin rules depth) := by
  induction depth with
  | zero =>
    refine ⟨fun a hσ hm => ?_, fun _ _ => rfl⟩
    obtain ⟨ns', env', τ, b, x, hlookup, hres, hcell, -⟩ := hσ.resolve hm
    simp only [parserOn, selfParser, hlookup, hres, Stack.linksWithin, follow, hcell]
    rfl
  | succ depth ih =>
    refine ⟨fun a hσ hm => ?_, fun s r => ?_⟩
    · obtain ⟨ns', env', τ, b, x, hlookup, hres, hcell, hcells, hb, hτ⟩ := hσ.resolve hm
      simp only [parserOn, selfParser, hlookup, hres, Stack.linksWithin, follow, hcell, linksWithin,
        parserOn_eq ih hb hτ hcells]
    · simp only [Stack.linksWithin, linksWithin]
      rcases hr : rules r with _ | g
      · rfl
      · exact parserOn_eq ih (hrules r g hr) (.outer fun _ => id) (s.has_enter [] g)

theorem builtWithin_eq (hrules : ∀ r g, rules r = some g → g.Closed Names.none Names.none) {g : Grammar}
    (hg : g.Closed Names.none Names.none) (depth : Nat) : g.builtWithin rules depth = g.parserWithin rules depth :=
  parserOn_eq (agree_linksWithin hrules depth) hg (.outer fun _ => id) (Stack.empty.has_enter [] g)

end
end Grammar

/-! ### Faults -/

/-- The faults of a reference whose cell is gone, or was never defined. -/
def Fault.Dangling : Fault → Prop
  | undefined _ | dropped _ => True
  | boundary _ | unknown _ | backwards .. => False

/-- Every run stands for itself, as long as it follows no reference that leads nowhere. -/
def Simulation.following : Simulation := .inPlace (fun f g => f = g ∧ ¬ f.Dangling) False False

namespace Grammar
open Simulation Scope
variable {rules : Rules}

theorem following_linksWithin (hrules : ∀ r g, rules r = some g → g.Closed Names.none Names.none) (depth : Nat)
    {ns : Names} {σ : Scope} {g : Grammar} (hg : g.Closed ns Names.none) (hσ : Shared ns σ σ) :
    following.Similar (g.parserWith (linksWithin rules depth) σ) (g.parserWith (linksWithin rules depth) σ) := by
  induction depth using Nat.strongRecOn generalizing ns σ g with
  | ind depth ih =>
    let R : Filling → Names → Scope → Scope → Prop := fun ρ ns τ τ' => ρ = [] ∧ τ = τ' ∧ Shared ns τ τ
    have hR : Scoped following (linksWithin rules depth) (linksWithin rules depth) Names.none R := by
      constructor
      · rintro ρ ns τ τ' b ⟨rfl, rfl, hτ⟩ hb
        rw [without_nil, Binding.fill_nil]
        exact ⟨rfl, rfl, .push hb hτ⟩
      · rintro ρ ns τ τ' m ⟨rfl, rfl, hτ⟩ hm
        rw [fill_nil]
        obtain ⟨ns', b, inner, inner', hres, hres', hb, hinner⟩ := hτ.resolve hm
        obtain rfl : inner = inner' := by simpa [hres] using hres'
        refine similar_selfParser (unrolls_linksWithin rules) (unrolls_linksWithin rules) (.refl depth) hres hres rfl ?_
        rintro d _ rfl ⟨⟩
        exact (ih d (Nat.lt_succ_self d) hb hinner).run
    have hrule : ∀ r, following.Alike ((linksWithin rules depth).rule r) ((linksWithin rules depth).rule r) := by
      intro r
      rcases depth with _ | d
      · exact fun _ _ _ => .cut
      · simp only [linksWithin]
        rcases hr : rules r with _ | g
        · exact fun _ _ _ => .raise ⟨rfl, id⟩
        · exact (ih d (Nat.lt_succ_self d) (hrules r g hr) (.outer fun _ => id)).run
    have h := similar_parserWith reports_inPlace hR hrule (fun r hr => hr.elim) hg ⟨rfl, rfl, hσ⟩
    rwa [fill_nil] at h

/-- No run of a recursive grammar with its cells follows a reference that leads nowhere, however deep it goes. Its
    references lead where the structure of the grammar says. -/
theorem neverDangles_builtWithin (hrules : ∀ r g, rules r = some g → g.Closed Names.none Names.none) {g : Grammar}
    (hg : g.Closed Names.none Names.none) (depth : Nat) :
    (∀ i f, ((g.builtWithin rules depth).parse i).ending = .fault f → ¬ f.Dangling) ∧
      g.builtWithin rules depth = g.parserWithin rules depth := by
  have heq := builtWithin_eq hrules hg depth
  refine ⟨fun i f hf => ?_, heq⟩
  rw [heq] at hf
  have h := following_linksWithin hrules depth hg (.outer (σ := []) fun _ => id)
  exact (Similar.fault_self h hf).2

/-- A digit, maybe after spaces. -/
def digitRule : Grammar :=
  fix "digit" "Digit" (orWith .method (prim .digitValue) (ignorePrevious .method (prim (.element ' ')) (self "digit")))

/-- A digit in brackets, with any number of signs inside of each bracket. What follows a bracket is built when the
    bracket was read. It has recursive grammars of its own, one of which hides the outer one. -/
def bracketed : Grammar :=
  fix "inside" "Bracketed" (orWith .method (lazy "digit")
    (bind .method (prim (.oneOf "([")) [] fun v =>
      ignore .method
        (fix "signed" "Signed" (orWith .method
          (fix "inside" "Signs" (ignorePrevious .method (prim (.element '-'))
            (orWith .method (self "inside") (self "signed"))))
          (self "inside")))
        (prim (.element (if v = .char '(' then ')' else ']')))))

theorem neverDangles_bracketed :
    (∀ r g, (if r = "digit" then some digitRule else none) = some g → g.Closed Names.none Names.none) ∧
      bracketed.Closed Names.none Names.none ∧
      ((bracketed.builtWithin (fun r => if r = "digit" then some digitRule else none) 9).parse
        (.ofText "([--([ 7])])")).ending = .done (.success (.int 7) ⟨⟨0, "([--([ 7])])"⟩, 12, []⟩) ∧
      ∀ i f, ((bracketed.builtWithin (fun r => if r = "digit" then some digitRule else none) 9).parse i).ending =
        .fault f → ¬ f.Dangling := by
  have hrules : ∀ r g, (if r = "digit" then some digitRule else none) = some g →
      g.Closed Names.none Names.none := by
    intro r g hg
    split at hg
    · cases hg
      simp [digitRule, Closed, Names.insert]
    · cases hg
  have hclosed : bracketed.Closed Names.none Names.none := by simp [bracketed, Closed, Names.insert]
  exact ⟨hrules, hclosed, rfl, (neverDangles_builtWithin hrules hclosed 9).1⟩

end Grammar
end ParserKit
