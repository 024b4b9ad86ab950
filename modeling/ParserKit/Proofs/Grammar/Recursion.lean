import ParserKit.Proofs.Grammar.Filling

/-! Two ways to be recursive. A grammar that is closed apart from a name builds a parser from a parser: what
    stands for the name. It can be made recursive by that name, or by a lazy rule that stands for it, and it
    comes to the same outcomes (`same_lazy`): neither way can be told from the other by running it. In the same
    sense a recursive grammar can be unfolded (`same_unfold`). Runs may go on for ever, so what is compared are
    the outcomes at all depths. -/

namespace ParserKit

namespace Simulation
variable {left right : Prop}

/-- Every run stands for the runs that end in the same way. Runs on the left, and on the right, may be cut off
    before that. -/
def endings (left right : Prop) : Simulation := inPlace Eq left right

theorem reports_endings : (endings left right).Reports := reports_inPlace

theorem faults_endings : (endings left right).Faults := ⟨fun _ => rfl, fun _ => rfl⟩

/-- Runs that stand for each other end in the same way, unless one was cut off that may be. -/
theorem ending_eq_of_alike {α : Type} {p q : Parser α} (h : (endings left right).Alike p q) (i : View) :
    (p.parse i).ending = (q.parse i).ending ∨ (left ∧ (p.parse i).ending = .unfinished) ∨
      (right ∧ (q.parse i).ending = .unfinished) := by
  have hrun := h i i rfl
  generalize p.parse i = r at hrun ⊢
  generalize q.parse i = s at hrun ⊢
  cases hrun with
  | cutLeft hl => exact Or.inr (Or.inl ⟨hl, rfl⟩)
  | cutRight hr => exact Or.inr (Or.inr ⟨hr, rfl⟩)
  | step _ hending =>
    refine Or.inl ?_
    cases hending with
    | fault hf => exact congrArg Ending.fault hf
    | unfinished => rfl
    | done ho =>
      cases ho with
      | failure => rfl
      | success hv _ _ => exact congrArg (fun k => Ending.done (Outcome.success _ k)) hv

theorem ending_eq_of_alike_uncut {α : Type} {p q : Parser α} (h : (endings False False).Alike p q) (i : View) :
    (p.parse i).ending = (q.parse i).ending := by
  rcases ending_eq_of_alike h i with heq | ⟨hl, -⟩ | ⟨hr, -⟩
  · exact heq
  · exact hl.elim
  · exact hr.elim

end Simulation

namespace Grammar
open Simulation Scope

/-! ### Outcomes at all depths -/

/-- A parser by the depth that its runs may go to. -/
abbrev Family := Nat → Parser Value

namespace Family
variable {F F' : Family}

/-- Runs that are allowed to go deep enough have this outcome. -/
def Halts (F : Family) (i : View) (o : Outcome Value) : Prop := ∃ depth, ((F depth).parse i).ending = .done o

def Breaks (F : Family) (i : View) (f : Fault) : Prop := ∃ depth, ((F depth).parse i).ending = .fault f

def Diverges (F : Family) (i : View) : Prop := ∀ depth, ((F depth).parse i).ending = .unfinished

/-- Both halt with the same outcomes, end with the same faults, and diverge on the same views. -/
structure Same (F F' : Family) : Prop where
  halts : ∀ i o, F.Halts i o ↔ F'.Halts i o
  breaks : ∀ i f, F.Breaks i f ↔ F'.Breaks i f
  diverges : ∀ i, F.Diverges i ↔ F'.Diverges i

/-- Every run on the left is cut off, or ends like a run on the right. -/
def Below (F F' : Family) : Prop :=
  ∀ d, ∃ e, ∀ i, ((F d).parse i).ending = .unfinished ∨ ((F d).parse i).ending = ((F' e).parse i).ending

theorem Below.halts (h : Below F F') {i : View} {o : Outcome Value} (ho : F.Halts i o) : F'.Halts i o := by
  obtain ⟨d, hd⟩ := ho
  obtain ⟨e, he⟩ := h d
  rcases he i with hcut | heq
  · rw [hcut] at hd
    cases hd
  · exact ⟨e, heq ▸ hd⟩

theorem Below.breaks (h : Below F F') {i : View} {f : Fault} (hf : F.Breaks i f) : F'.Breaks i f := by
  obtain ⟨d, hd⟩ := hf
  obtain ⟨e, he⟩ := h d
  rcases he i with hcut | heq
  · rw [hcut] at hd
    cases hd
  · exact ⟨e, heq ▸ hd⟩

theorem Below.diverges (h : Below F F') {i : View} (hi : F'.Diverges i) : F.Diverges i := by
  intro d
  obtain ⟨e, he⟩ := h d
  rcases he i with hcut | heq
  · exact hcut
  · rw [heq, hi e]

theorem Below.same (h : Below F F') (h' : Below F' F) : Same F F' where
  halts _ _ := ⟨h.halts, h'.halts⟩
  breaks _ _ := ⟨h.breaks, h'.breaks⟩
  diverges _ := ⟨h'.diverges, h.diverges⟩

theorem same_of_ending_eq (h : ∀ d i, ((F d).parse i).ending = ((F' d).parse i).ending) : Same F F' := by
  have hbelow : Below F F' := fun d => ⟨d, fun i => Or.inr (h d i)⟩
  have habove : Below F' F := fun d => ⟨d, fun i => Or.inr (h d i).symm⟩
  exact hbelow.same habove

end Family

def family (rules : Rules) (g : Grammar) : Family := fun depth => g.parserWithin rules depth

/-- Deeper runs of a grammar change nothing about a run that has ended. -/
theorem family_stable (rules : Rules) (g : Grammar) {d e : Nat} (hde : d ≤ e) (i : View) :
    ((family rules g d).parse i).ending = .unfinished ∨
      ((family rules g d).parse i).ending = ((family rules g e).parse i).ending := by
  have hdepths : (endings True False).Depths d e := Or.inr (Or.inl ⟨trivial, hde⟩)
  have h := similar_linksWithin reports_endings faults_endings rules hdepths [] g
  rcases ending_eq_of_alike h.run i with heq | ⟨-, hcut⟩ | ⟨hr, -⟩
  · exact Or.inr heq
  · exact Or.inl hcut
  · exact hr.elim

theorem halts_unique {rules : Rules} {g : Grammar} {i : View} {o o' : Outcome Value}
    (h : (family rules g).Halts i o) (h' : (family rules g).Halts i o') : o = o' := by
  obtain ⟨d, hd⟩ := h
  obtain ⟨e, he⟩ := h'
  have key : ∀ {d o}, ((family rules g d).parse i).ending = .done o → ∀ {e}, d ≤ e →
      ((family rules g e).parse i).ending = .done o := by
    intro d o hd e hde
    rcases family_stable rules g hde i with hcut | heq
    · rw [hcut] at hd
      cases hd
    · exact heq ▸ hd
  have hboth := (key hd (Nat.le_max_left d e)).symm.trans (key he (Nat.le_max_right d e))
  simpa using hboth

/-! ### A rule that refers to itself -/

section
variable {rules : Rules} {b : Binding}

theorem family_grammar_parse (rules : Rules) (b : Binding) (d : Nat) (i : View) :
    (family rules b.grammar d).parse i = (b.body.parserWith (linksWithin rules d) [b]).parse i := rfl

/-- At every depth the body in its own scope ends like the body with its name filled with the rule. -/
theorem alike_fill_lazy {rule : String} (hb : b.body.Closed (· = b.this) Names.none)
    (hrule : rules rule = some (b.body.fill [(b.this, lazy rule)])) (d : Nat) :
    (endings False False).Alike (b.body.parserWith (linksWithin rules d) [b])
      ((b.body.fill [(b.this, lazy rule)]).parserWith (linksWithin rules d) []) := by
  have hhole : FitsHole (endings False False) (linksWithin rules) (linksWithin rules) b (lazy rule) 0 := by
    intro e ih τ τ' i j hv
    rcases e with _ | e
    · exact .cut
    · have hstart : (lazy rule).parserWith (linksWithin rules (e + 1)) τ' =
          Parser.lazy fun _ => (b.body.fill [(b.this, lazy rule)]).parserWith (linksWithin rules e) [] := by
        simp only [parserWith, linksWithin, hrule]
      rw [hstart]
      exact ih e rfl τ [] i j hv
  exact alike_fill reports_endings id (unrolls_linksWithin rules) (unrolls_linksWithin rules) (Or.inl rfl)
    (fun e => alike_rules reports_endings faults_endings rules (.refl e)) (fun _ => id) hb (fun _ => hhole) d [] []

theorem same_lazy {rule : String} (hb : b.body.Closed (· = b.this) Names.none)
    (hrule : rules rule = some (b.body.fill [(b.this, lazy rule)])) :
    Family.Same (family rules b.grammar) (family rules (lazy rule)) := by
  have key : ∀ d i, ((family rules b.grammar d).parse i).ending =
      ((family rules (lazy rule) (d + 1)).parse i).ending := by
    intro d i
    have hright : (family rules (lazy rule) (d + 1)).parse i =
        ((b.body.fill [(b.this, lazy rule)]).parserWith (linksWithin rules d) []).parse i := by
      simp [family, parserWithin, parserWith, linksWithin, Parser.lazy, Parser.fromFn, hrule]
    rw [family_grammar_parse, hright]
    exact ending_eq_of_alike_uncut (alike_fill_lazy hb hrule d) i
  refine Family.Below.same (fun d => ⟨d + 1, fun i => Or.inr (key d i)⟩) fun d => ?_
  rcases d with _ | d
  · exact ⟨0, fun _ => Or.inl rfl⟩
  · exact ⟨d, fun i => Or.inr (key d i).symm⟩

/-! ### Unfolding -/

theorem shared_name (hb : b.body.Closed (· = b.this) Names.none) (σ σ' : Scope) :
    Shared (· = b.this) (b :: σ) (b :: σ') := by
  have hname : (· = b.this) = Names.none.insert b.this := funext fun n => by simp [Names.insert, Names.none]
  rw [hname] at hb ⊢
  exact .push hb (.outer fun _ => id)

/-- The body in its own scope, and unfolded once, at the same depth: the unfolded one may go on longer. -/
theorem alike_unfold_above (hb : b.body.Closed (· = b.this) Names.none) (d : Nat) :
    (endings True False).Alike (b.body.parserWith (linksWithin rules d) [b])
      ((b.body.fill [(b.this, b.grammar)]).parserWith (linksWithin rules d) []) := by
  have hhole : FitsHole (endings True False) (linksWithin rules) (linksWithin rules) b b.grammar 0 := by
    intro e _ τ τ' i j hv
    rcases e with _ | e
    · exact .cutLeft trivial
    · have hdepths : (endings True False).Depths e (e + 1) := Or.inr (Or.inl ⟨trivial, Nat.le_succ e⟩)
      exact (similar_of_shared reports_endings faults_endings rules hdepths hb (shared_name hb τ τ')).run i j hv
  exact alike_fill reports_endings id (unrolls_linksWithin rules) (unrolls_linksWithin rules) (Or.inl rfl)
    (fun e => alike_rules reports_endings faults_endings rules (.refl e)) (fun _ => id) hb (fun _ => hhole) d [] []

/-- With one entry more, the body in its own scope goes on at least as long as unfolded once. -/
theorem alike_unfold_below (hb : b.body.Closed (· = b.this) Names.none) (d : Nat) :
    (endings False True).Alike (b.body.parserWith (linksWithin rules (d + 1)) [b])
      ((b.body.fill [(b.this, b.grammar)]).parserWith (linksWithin rules d) []) := by
  have hhole : FitsHole (endings False True) (linksWithin rules) (linksWithin rules) b b.grammar 1 := by
    intro e _ τ τ' i j hv
    exact (similar_of_shared reports_endings faults_endings rules (.refl e) hb (shared_name hb τ τ')).run i j hv
  have hdepths : ∀ e, (endings False True).Depths (e + 1) e := fun e => Or.inr (Or.inr ⟨trivial, Nat.le_succ e⟩)
  exact alike_fill reports_endings id (unrolls_linksWithin rules) (unrolls_linksWithin rules) (Or.inr trivial)
    (fun e => alike_rules reports_endings faults_endings rules (hdepths e)) (fun _ => id) hb (fun _ => hhole) d [] []

theorem same_unfold (hb : b.body.Closed (· = b.this) Names.none) :
    Family.Same (family rules b.grammar) (family rules (b.body.fill [(b.this, b.grammar)])) := by
  refine Family.Below.same (fun d => ⟨d, fun i => ?_⟩) fun d => ⟨d + 1, fun i => ?_⟩
  · rcases ending_eq_of_alike (alike_unfold_above hb d) i with heq | ⟨-, hcut⟩ | ⟨hr, -⟩
    · exact Or.inr heq
    · exact Or.inl hcut
    · exact hr.elim
  · rcases ending_eq_of_alike (alike_unfold_below hb d) i with heq | ⟨hl, -⟩ | ⟨-, hcut⟩
    · exact Or.inr heq.symm
    · exact hl.elim
    · exact Or.inl hcut

end

end Grammar
end ParserKit
