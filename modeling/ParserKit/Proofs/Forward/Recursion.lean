import ParserKit.Forward.Session
import ParserKit.Proofs.Grammar.Recursion

/-! Recursion through a cell. A cell is declared, a parser is built with a reference to it, and the cell is
    defined as that parser: once, before anything runs. What comes out is kept by a register, and so is the
    cell; every reference inside finds the definition. This is a third way to make a grammar recursive, and it
    comes to the same outcomes as the other two (`recursive_agrees`). -/

namespace ParserKit

namespace Grammar

/-! ### What is mentioned -/

theorem closed_of_not_mentions {this x : String} {registers ns : Names} {g : Grammar} (hg : g.Closed ns registers)
    (hx : x ∉ (g.fill [(this, register x)]).mentions) : g.Closed (fun n => ns n ∧ n ≠ this) registers := by
  induction g generalizing ns with
  | prim p => trivial
  | lazy r => trivial
  | register r => exact hg
  | self m =>
    refine ⟨hg, ?_⟩
    rintro rfl
    simp [fill, mentions] at hx
  | fix m name g ih =>
    have hg : g.Closed (ns.insert m) registers := hg
    show g.Closed (Names.insert m fun n => ns n ∧ n ≠ this) registers
    by_cases hm : m = this
    · subst hm
      have hns : Names.insert m (fun n => ns n ∧ n ≠ m) = ns.insert m := by
        funext n
        by_cases hn : n = m <;> simp [Names.insert, hn]
      rwa [hns]
    · have hns : Names.insert m (fun n => ns n ∧ n ≠ this) = fun n => ns.insert m n ∧ n ≠ this := by
        funext n
        by_cases hn : n = m <;> simp [Names.insert, hn, hm]
      rw [hns]
      have hkeep : without [(this, register x)] m = [(this, register x)] := by simp [without, Ne.symm hm]
      rw [fill, hkeep] at hx
      exact ih hg hx
  | bind via g captures next => simp [fill, mentions] at hx
  | orWith via g k ihg ihk | combine via g k f ihg ihk | ignore via g k ihg ihk | ignorePrevious via g k ihg ihk
  | separatedBy via g k seed reduce ihg ihk =>
    simp only [fill, mentions, List.mem_append, not_or] at hx
    exact ⟨ihg hg.1 hx.1, ihk hg.2 hx.2⟩
  | sequence count parts f ih =>
    intro n
    refine ih n (hg n) fun hn => hx ?_
    simp only [fill, mentions, List.mem_flatten, List.mem_ofFn]
    exact ⟨_, ⟨n, rfl⟩, hn⟩
  | padded g ih | transform via g f ih | ifSatisfies via g test ih | lookahead via g ih | optional via g ih
  | many via g seed reduce ih | many1 via g seed reduce ih | exactlyN via g seed reduce n ih | named g n ih
  | traced g ih | wrapped g ih | fromFn g n ih => exact ih hg hx

end Grammar

namespace Session
open Grammar Simulation Scope

variable {rules : Rules}

/-! ### Held grammars -/

/-- What a grammar refers to when it is held with copies of other parsers. -/
def heldLinks (s : Session) (rules : Rules) (part : String → Held) (cells : List Nat) (depth : Nat) : Links where
  rule := (s.linksWithin rules depth).rule
  again σ g := (s.linksWithin rules depth).again (.built σ g part cells)
  register r := (part r).parserWith (s.linksWithin rules depth)

theorem unrolls_heldLinks (s : Session) (rules : Rules) (part : String → Held) (cells : List Nat) :
    Unrolls (s.heldLinks rules part cells) := ⟨fun _ _ => rfl, fun _ _ _ => rfl⟩

/-- The rules of a table that use no registers, in a session and without one, if grammars without registers are
    alike with one entry less. -/
theorem alike_rule_held (hrules : ∀ r g, rules r = some g → g.Closed Names.all Names.none) (s : Session) {e : Nat}
    (h : ∀ e', e = e' + 1 → ∀ {part cells} {g : Grammar}, g.Closed Names.all Names.none →
      (endings False False).Alike (g.parserWith (Grammar.linksWithin rules e') [])
        (g.parserWith (s.heldLinks rules part cells e') [])) (r : String) :
    (endings False False).Alike ((Grammar.linksWithin rules e).rule r) ((s.linksWithin rules e).rule r) := by
  intro i j hv
  rcases e with _ | e
  · exact .cut
  · rcases hr : rules r with _ | g
    · simp only [Grammar.linksWithin, Session.linksWithin, hr]
      exact (similar_unknown faults_endings r).run i j hv
    · simp only [Grammar.linksWithin, Session.linksWithin, hr]
      exact h e rfl (hrules r g hr) i j hv

theorem similar_held (hrules : ∀ r g, rules r = some g → g.Closed Names.all Names.none) (s : Session) (e : Nat)
    {part : String → Held} {cells : List Nat} {σ : Scope} (hσ : Whole Names.none σ) {g : Grammar}
    (hg : g.Closed Names.all Names.none) : (endings False False).Similar
      (g.parserWith (Grammar.linksWithin rules e) σ) (g.parserWith (s.heldLinks rules part cells e) σ) := by
  induction e using Nat.strongRecOn generalizing part cells σ g with
  | ind e ih =>
    refine similar_of_unrolls reports_endings faults_endings (unrolls_linksWithin rules)
      (unrolls_heldLinks s rules part cells) (.refl e) (alike_rule_held hrules s ?_) (fun r hr => hr.elim) ?_ hσ hg
    · rintro e rfl part cells g hg
      exact (ih e (Nat.lt_succ_self e) (whole_nil _) hg).run
    · rintro d e' rfl he τ b hτ hb
      obtain rfl : e' = d := by omega
      exact (ih e' (Nat.lt_succ_self e') hτ hb).run

theorem alike_rules_held (hrules : ∀ r g, rules r = some g → g.Closed Names.all Names.none) (s : Session) (e : Nat)
    (r : String) :
    (endings False False).Alike ((Grammar.linksWithin rules e).rule r) ((s.linksWithin rules e).rule r) := by
  refine alike_rule_held hrules s ?_ r
  rintro e rfl part cells g hg
  exact (similar_held hrules s e (whole_nil _) hg).run

/-! ### One cell -/

/-- What it takes to make a recursive grammar with a cell: the cell is declared, the grammar is built with a
    reference to it, and the cell is defined. -/
def tie (forward ref result : String) (b : Binding) : List Step :=
  [.declare forward b.name, .refer ref forward, .define result forward (b.body.fill [(b.this, .register ref)])]

section
variable {ref : String} {b : Binding} {part : String → Held} {cells : List Nat} {s : Session}

def referring (forward ref name : String) : Session :=
  ⟨[⟨name, none⟩], [(forward, 0)], [(ref, .reference 0 name)]⟩

theorem after_refer (forward ref name : String) :
    after [.declare forward name, .refer ref forward] = referring forward ref name := by
  simp [referring, after, start, step, nameOf, Table.put, Table.remove, Table.find]

theorem hold_referring (forward ref name : String) (g : Grammar) :
    ∃ part cells, (referring forward ref name).hold g = .built [] g part cells ∧
      (ref ∈ g.mentions → part ref = .reference 0 name) := by
  refine ⟨_, _, rfl, fun href => ?_⟩
  simp [href, referring, register, Table.find]

theorem step_define_referring (forward ref result name : String) (g : Grammar) :
    (referring forward ref name).step (.define result forward g) =
      ⟨[⟨name, some ((referring forward ref name).hold g)⟩], [],
        Table.put [(ref, .reference 0 name)] result
          (.definition 0 name ((referring forward ref name).hold g))⟩ := by
  simp [referring, step, nameOf, Table.find, Table.remove]

/-- What comes out of it keeps the cell, and the cell holds the grammar that was built, with the reference. -/
theorem after_tie (forward ref result : String) (b : Binding) :
    ∃ part cells, (ref ∈ (b.body.fill [(b.this, .register ref)]).mentions → part ref = .reference 0 b.name) ∧
      (after (tie forward ref result b)).register result =
        .definition 0 b.name (.built [] (b.body.fill [(b.this, .register ref)]) part cells) ∧
      (after (tie forward ref result b)).status 0 =
        .alive (.built [] (b.body.fill [(b.this, .register ref)]) part cells) := by
  obtain ⟨part, cells, hhold, hpart⟩ := hold_referring forward ref b.name (b.body.fill [(b.this, .register ref)])
  have hafter : after (tie forward ref result b) = (after [.declare forward b.name, .refer ref forward]).step
      (.define result forward (b.body.fill [(b.this, .register ref)])) := rfl
  rw [hafter, after_refer, step_define_referring, hhold]
  refine ⟨part, cells, hpart, ?_, ?_⟩
  · simp [register, Table.put, Table.find]
  · simp [status, keeps, Table.put, Held.owns]

/-- The body in its own scope and the definition of the cell go on equally long. -/
theorem alike_fill_cell (hrules : ∀ r g, rules r = some g → g.Closed Names.all Names.none)
    (hb : b.body.Closed (· = b.this) Names.none)
    (hpart : ref ∈ (b.body.fill [(b.this, .register ref)]).mentions → part ref = .reference 0 b.name)
    (hs : s.status 0 = .alive (.built [] (b.body.fill [(b.this, .register ref)]) part cells)) (d : Nat) :
    (endings False False).Alike (b.body.parserWith (Grammar.linksWithin rules d) [b])
      ((b.body.fill [(b.this, .register ref)]).parserWith (s.heldLinks rules part cells d) []) := by
  have hused : b.body.Closed (fun n => n = b.this ∧ ref ∈ (b.body.fill [(b.this, .register ref)]).mentions)
      Names.none := by
    by_cases href : ref ∈ (b.body.fill [(b.this, .register ref)]).mentions
    · simpa [href] using hb
    · simpa [href] using closed_of_not_mentions hb href
  have hhole : ref ∈ (b.body.fill [(b.this, .register ref)]).mentions →
      FitsHole (endings False False) (Grammar.linksWithin rules) (s.heldLinks rules part cells) b (.register ref)
        0 := by
    intro href e ih τ τ' i j hv
    have hstart : (Grammar.register ref).parserWith (s.heldLinks rules part cells e) τ' =
        .fromFn b.name fun input => ((s.linksWithin rules e).cell 0 b.name).parse input := by
      rw [Grammar.parserWith, Parser.delayed_eq]
      show (part ref).parserWith (s.linksWithin rules e) = _
      rw [hpart href, Held.parserWith]
    rw [hstart]
    rcases e with _ | e
    · exact .cut
    · have hcell : (s.linksWithin rules (e + 1)).cell 0 b.name =
          (b.body.fill [(b.this, .register ref)]).parserWith (s.heldLinks rules part cells e) [] := by
        simp only [Session.linksWithin, hs]
        rfl
      rw [hcell]
      exact ih e rfl τ [] i j hv
  exact alike_fill reports_endings id (unrolls_linksWithin rules) (unrolls_heldLinks s rules part cells) (Or.inl rfl)
    (alike_rules_held hrules s) (fun _ hn => hn.1) hused (fun hn => hhole hn.2) d [] []

def tied (rules : Rules) (forward ref result : String) (b : Binding) : Family :=
  fun depth => (after (tie forward ref result b)).parserWithin rules depth result

theorem same_tied (hrules : ∀ r g, rules r = some g → g.Closed Names.all Names.none)
    (hb : b.body.Closed (· = b.this) Names.none) (forward ref result : String) :
    Family.Same (family rules b.grammar) (tied rules forward ref result b) := by
  obtain ⟨part, cells, hpart, hresult, hs⟩ := after_tie forward ref result b
  refine Family.same_of_ending_eq fun d i => ?_
  have hright : (tied rules forward ref result b d).parse i = ((b.body.fill [(b.this, .register ref)]).parserWith
      ((after (tie forward ref result b)).heldLinks rules part cells d) []).parse i := by
    rw [tied, parserWithin, hresult]
    rfl
  rw [family_grammar_parse, hright]
  exact ending_eq_of_alike_uncut (alike_fill_cell hrules hb hpart hs d) i

end

end Session

namespace Grammar
open Session

/-- The ways to make a grammar refer to itself agree, whatever its parser is called: a recursive grammar comes to
    the same outcomes as a lazy rule that stands for the body filled with the rule, as its own unfolding, and as
    the definition of a cell that the body is built with a reference to. -/
theorem recursive_agrees (rules : Rules) (this name : String) {body : Grammar}
    (hbody : body.Closed (· = this) Names.none) :
    (∀ rule, rules rule = some (body.fill [(this, lazy rule)]) →
      Family.Same (family rules (fix this name body)) (family rules (lazy rule))) ∧
    Family.Same (family rules (fix this name body)) (family rules (body.fill [(this, fix this name body)])) ∧
    ((∀ r g, rules r = some g → g.Closed Names.all Names.none) → ∀ forward ref result,
      Family.Same (family rules (fix this name body)) (tied rules forward ref result ⟨this, name, body⟩)) := by
  have hb : (Binding.mk this name body).body.Closed (· = (Binding.mk this name body).this) Names.none := hbody
  exact ⟨fun _ hrule => same_lazy hb hrule, same_unfold hb, fun hrules => same_tied hrules hb⟩

/-- How deep parentheses nest, when `self` is how deep they nest inside. -/
def parentheses (this : String) : Grammar :=
  .many .method
    (.transform .method
      (.ignore .method (.ignorePrevious .method (.prim (.element '(')) (.self this)) (.prim (.element ')')))
      fun depth => .int (depth.num + 1))
    (.int 0) fun depth inner => .int (max depth.num inner.num)

theorem recursive_agrees_parentheses :
    let rules : Rules := fun r =>
      if r = "depth" then some ((parentheses "this").fill [("this", lazy "depth")]) else none
    Family.Same (family rules (fix "this" "Depth" (parentheses "this"))) (family rules (lazy "depth")) ∧
    Family.Same (family rules (fix "this" "Depth" (parentheses "this")))
      (family rules ((parentheses "this").fill [("this", fix "this" "Depth" (parentheses "this"))])) ∧
    Family.Same (family rules (fix "this" "Depth" (parentheses "this")))
      (tied rules "forward" "ref" "result" ⟨"this", "Depth", parentheses "this"⟩) := by
  intro rules
  have hrules : ∀ r g, rules r = some g → g.Closed Names.all Names.none := by
    intro r g hr
    by_cases h : r = "depth"
    · obtain rfl : (parentheses "this").fill [("this", lazy "depth")] = g := by simpa [rules, h] using hr
      simp [parentheses, fill, Closed]
    · simp [rules, h] at hr
  have hbody : (parentheses "this").Closed (· = "this") Names.none := by simp [parentheses, Closed]
  obtain ⟨hlazy, hunfold, htied⟩ := recursive_agrees rules "this" "Depth" hbody
  exact ⟨hlazy "depth" rfl, hunfold, htied hrules "forward" "ref" "result"⟩

end Grammar
end ParserKit
