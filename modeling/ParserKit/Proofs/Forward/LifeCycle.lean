import Mathlib.Data.Fintype.Fin
import Mathlib.Data.Fintype.Card
import Mathlib.Logic.Relation
import Mathlib.Order.WellFounded
import ParserKit.Proofs.Forward.Holding

/-! The life of a cell. Whether a reference can be followed depends on the steps that a session has seen: a cell
    that was defined is there as long as a register holds a copy of the parser that its definition returned, in
    whatever other parsers that copy may be; one that was not is there as long as its handle is. Cells own each
    other only through what was built before, so none keeps itself (`lifeCycle`). -/

namespace ParserKit

theorem Held.Within.trans {p q h : Held} (hp : p.Within q) (hq : q.Within h) : p.Within h := by
  induction hq with
  | self => exact hp
  | body _ ih => exact .body ih
  | part hr _ ih => exact .part hr ih

namespace Session
open Held

variable {s : Session} {steps before : List Step} {c d : Nat} {p : Held}

/-! ### Single steps -/

theorem step_declare (s : Session) (f name : String) :
    (s.step (.declare f name)).cells = s.cells ++ [⟨name, none⟩] ∧
      Table.find (s.step (.declare f name)).forwards = Function.update (Table.find s.forwards) f s.cells.length ∧
      (s.step (.declare f name)).register = s.register := ⟨rfl, Table.find_put .., rfl⟩

theorem step_refer {f : String} (hf : Table.find s.forwards f = some c) (r : String) :
    (s.step (.refer r f)).cells = s.cells ∧ (s.step (.refer r f)).forwards = s.forwards ∧
      (s.step (.refer r f)).register = Function.update s.register r (.reference c (s.nameOf c)) := by
  simp only [step, hf]
  exact ⟨trivial, trivial, register_put ..⟩

theorem step_refer_of_none {f : String} (hf : Table.find s.forwards f = none) (r : String) :
    s.step (.refer r f) = s := by
  simp only [step, hf]

theorem step_build (s : Session) (r : String) (g : Grammar) :
    (s.step (.build r g)).cells = s.cells ∧ (s.step (.build r g)).forwards = s.forwards ∧
      (s.step (.build r g)).register = Function.update s.register r (s.hold g) := ⟨rfl, rfl, register_put ..⟩

theorem step_define {f : String} (hf : Table.find s.forwards f = some c) (r : String) (g : Grammar) :
    (s.step (.define r f g)).cells = defined s.cells c (s.hold g) ∧
      Table.find (s.step (.define r f g)).forwards = Function.update (Table.find s.forwards) f none ∧
      (s.step (.define r f g)).register =
        Function.update s.register r (.definition c (s.nameOf c) (s.hold g)) := by
  simp only [step, hf]
  exact ⟨rfl, Table.find_remove .., register_put { s with cells := defined s.cells c (s.hold g) } ..⟩

theorem step_define_of_none {f : String} (hf : Table.find s.forwards f = none) (r : String) (g : Grammar) :
    s.step (.define r f g) = s := by
  simp only [step, hf]

theorem step_drop (s : Session) (r : String) :
    (s.step (.drop r)).cells = s.cells ∧ (s.step (.drop r)).forwards = s.forwards ∧
      (s.step (.drop r)).register = Function.update s.register r (.empty r) := ⟨rfl, rfl, register_remove ..⟩

theorem step_dropForward (s : Session) (f : String) :
    (s.step (.dropForward f)).cells = s.cells ∧
      Table.find (s.step (.dropForward f)).forwards = Function.update (Table.find s.forwards) f none ∧
      (s.step (.dropForward f)).register = s.register := ⟨rfl, Table.find_remove .., rfl⟩

/-! ### Definitions in a run of steps -/

/-- The step that follows `before` defines the cell, and `p` is the parser that it returns. -/
def Defines (steps before : List Step) (c : Nat) (p : Held) : Prop :=
  ∃ r f g, before ++ [.define r f g] <+: steps ∧ Table.find (after before).forwards f = some c ∧
    p = (after (before ++ [.define r f g])).register r

theorem after_concat (steps : List Step) (x : Step) : after (steps ++ [x]) = (after steps).step x := by
  rw [after_append]
  rfl

theorem Defines.of_isPrefix {later : List Step} (h : Defines steps before c p) (hlater : steps <+: later) :
    Defines later before c p := by
  obtain ⟨r, f, g, hsteps, hf, hp⟩ := h
  exact ⟨r, f, g, hsteps.trans hlater, hf, hp⟩

theorem Defines.getElem? (h : Defines steps before c p) :
    ∃ name body, p = .definition c name body ∧ (after steps).cells[c]? = some ⟨name, some body⟩ := by
  obtain ⟨r, f, g, hsteps, hf, rfl⟩ := h
  obtain ⟨hcells, -, hregister⟩ := step_define hf r g
  have hp : (after (before ++ [.define r f g])).register r =
      .definition c ((after before).nameOf c) ((after before).hold g) := by
    rw [after_concat, hregister, Function.update_self]
  refine ⟨(after before).nameOf c, (after before).hold g, hp, keeps_after hsteps _ _ _ ?_⟩
  rw [after_concat, hcells]
  exact getElem?_defined_self ((sound_after before).getElem?_of_find hf) _

theorem Defines.unique {before' : List Step} {p' : Held} (h : Defines steps before c p)
    (h' : Defines steps before' c p') : before = before' ∧ p = p' := by
  -- once it is defined, no handle leads to it any more
  have key : ∀ {b b' : List Step} {q q' : Held}, Defines steps b c q → Defines steps b' c q' →
      b.length < b'.length → False := by
    rintro b b' q q' ⟨r, f, g, hb, hf, rfl⟩ ⟨r', f', g', hb', hf', -⟩ hlt
    have hpre : b ++ [.define r f g] <+: b' :=
      List.prefix_of_prefix_length_le hb ((List.prefix_append b' _).trans hb') (by
        rw [List.length_append]
        exact hlt)
    obtain ⟨name, body, -, hdefined⟩ := Defines.getElem? ⟨r, f, g, hpre, hf, rfl⟩
    obtain ⟨name', hwaiting⟩ := (sound_after b').waiting hf'
    rw [hwaiting] at hdefined
    cases hdefined
  have hlength : before.length = before'.length := by
    rcases Nat.lt_trichotomy before.length before'.length with hlt | heq | hgt
    · exact (key h h' hlt).elim
    · exact heq
    · exact (key h' h hgt).elim
  obtain ⟨name, body, rfl, hbody⟩ := h.getElem?
  obtain ⟨name', body', rfl, hbody'⟩ := h'.getElem?
  obtain ⟨r, f, g, hb, -⟩ := h
  obtain ⟨r', f', g', hb', -⟩ := h'
  refine ⟨?_, ?_⟩
  · exact (List.prefix_of_prefix_length_le ((List.prefix_append _ _).trans hb) ((List.prefix_append _ _).trans hb')
      hlength.le).eq_of_length hlength
  · rw [hbody] at hbody'
    cases hbody'
    rfl

theorem getElem?_of_step {x : Step} {name : String} {body : Held}
    (h : (s.step x).cells[c]? = some ⟨name, some body⟩) : s.cells[c]? = some ⟨name, some body⟩ ∨
      ∃ r f g, x = .define r f g ∧ Table.find s.forwards f = some c := by
  cases x with
  | declare f n =>
    rw [(step_declare s f n).1] at h
    exact Or.inl (getElem?_of_declared h)
  | refer r f =>
    rcases hf : Table.find s.forwards f with _ | d
    · rw [step_refer_of_none hf] at h
      exact Or.inl h
    · rw [(step_refer hf r).1] at h
      exact Or.inl h
  | build r g =>
    rw [(step_build s r g).1] at h
    exact Or.inl h
  | define r f g =>
    rcases hf : Table.find s.forwards f with _ | d
    · rw [step_define_of_none hf] at h
      exact Or.inl h
    · rw [(step_define hf r g).1] at h
      by_cases hcd : c = d
      · exact Or.inr ⟨r, f, g, rfl, hcd ▸ hf⟩
      · rw [getElem?_defined_of_ne hcd] at h
        exact Or.inl h
  | drop r =>
    rw [(step_drop s r).1] at h
    exact Or.inl h
  | dropForward f =>
    rw [(step_dropForward s f).1] at h
    exact Or.inl h

theorem exists_defines {name : String} {body : Held} (h : (after steps).cells[c]? = some ⟨name, some body⟩) :
    ∃ before, Defines steps before c (.definition c name body) := by
  induction steps using List.reverseRecOn with
  | nil => simp [after, start] at h
  | append_singleton steps x ih =>
    rw [after_concat] at h
    rcases getElem?_of_step h with hold | ⟨r, f, g, rfl, hf⟩
    · obtain ⟨before, hbefore⟩ := ih hold
      exact ⟨before, hbefore.of_isPrefix (List.prefix_append _ _)⟩
    · have hdefines : Defines (steps ++ [.define r f g]) steps c ((after (steps ++ [.define r f g])).register r) :=
        ⟨r, f, g, List.prefix_rfl, hf, rfl⟩
      obtain ⟨name', body', hp, hcell⟩ := hdefines.getElem?
      rw [after_concat, h] at hcell
      cases hcell
      exact ⟨steps, hp ▸ hdefines⟩

/-! ### Held cells -/

def Holds (s : Session) (p : Held) : Prop := ∃ r, p.Within (s.register r)

def Waits (s : Session) (c : Nat) : Prop := ∃ f, Table.find s.forwards f = some c

theorem not_holds_of_registers_eq_nil (h : s.registers = []) (c : Nat) (name : String) (body : Held) :
    ¬ s.Holds (.definition c name body) := by
  rintro ⟨r, hr⟩
  rw [register, h] at hr
  cases hr

namespace Sound

theorem getElem?_of_holds (hs : Sound s) {name : String} {body : Held} (h : s.Holds (.definition c name body)) :
    s.cells[c]? = some ⟨name, some body⟩ := by
  obtain ⟨r, hp⟩ := h
  exact ((hs.registers r).within hp).1

theorem keeps_iff (hs : Sound s) : s.keeps c = true ↔ ∃ name body, s.Holds (.definition c name body) := by
  rw [keeps, List.any_eq_true]
  constructor
  · rintro ⟨⟨r, h⟩, hmem, hc⟩
    have hr : s.register r = h := register_eq_of_find (hs.registersKeyed.mem_iff.mp hmem)
    subst hr
    obtain ⟨name, body, hp⟩ := (hs.registers r).mem_owns_iff.mp (List.contains_iff_mem.mp hc)
    exact ⟨name, body, r, hp⟩
  · rintro ⟨name, body, r, hp⟩
    have hc : c ∈ (s.register r).owns := (hs.registers r).mem_owns_iff.mpr ⟨name, body, hp⟩
    rcases hr : Table.find s.registers r with _ | h
    · rw [register, hr] at hc
      exact absurd hc List.not_mem_nil
    · rw [register_eq_of_find hr] at hc
      exact ⟨(r, h), hs.registersKeyed.mem_iff.mpr hr, List.contains_iff_mem.mpr hc⟩

theorem waits_iff (hs : Sound s) : (s.forwards.any fun entry => entry.2 == c) = true ↔ s.Waits c := by
  rw [List.any_eq_true]
  constructor
  · rintro ⟨⟨f, d⟩, hmem, hd⟩
    obtain rfl : d = c := beq_iff_eq.mp hd
    exact ⟨f, hs.forwardsKeyed.mem_iff.mp hmem⟩
  · rintro ⟨f, hf⟩
    exact ⟨(f, c), hs.forwardsKeyed.mem_iff.mpr hf, beq_iff_eq.mpr rfl⟩

theorem status_of_holds (hs : Sound s) {name : String} {body : Held} (h : s.Holds (.definition c name body)) :
    s.status c = .alive body := by
  rw [status, hs.getElem?_of_holds h]
  simp only [Option.bind_some, hs.keeps_iff.mpr ⟨name, body, h⟩, if_true]

theorem status_of_defined (hs : Sound s) {name : String} {body : Held} (hc : s.cells[c]? = some ⟨name, some body⟩)
    (h : ¬ s.Holds (.definition c name body)) : s.status c = .dropped := by
  have hkeeps : ¬ s.keeps c = true := by
    rintro hkeeps
    obtain ⟨name', body', hp⟩ := hs.keeps_iff.mp hkeeps
    have hcell := hs.getElem?_of_holds hp
    rw [hc] at hcell
    cases hcell
    exact h hp
  rw [status, hc]
  simp only [Option.bind_some, hkeeps]
  rfl

theorem status_of_undefined (hs : Sound s) (hc : ∀ name body, s.cells[c]? ≠ some ⟨name, some body⟩) :
    (s.Waits c → s.status c = .undefined) ∧ (¬ s.Waits c → s.status c = .dropped) := by
  have hnone : s.cells[c]?.bind (·.content) = none := by
    rcases hcell : s.cells[c]? with _ | ⟨name, _ | body⟩
    · rfl
    · rfl
    · exact absurd hcell (hc name body)
  rw [status, hnone]
  refine ⟨fun h => ?_, fun h => ?_⟩
  · simp only [hs.waits_iff.mpr h, if_true]
  · simp only [mt hs.waits_iff.mp h]
    rfl

end Sound

/-! ### What steps do to held cells -/

theorem holds_drop_iff (s : Session) (r : String) (c : Nat) (name : String) (body : Held) :
    (s.step (.drop r)).Holds (.definition c name body) ↔
      ∃ r', r' ≠ r ∧ (Held.definition c name body).Within (s.register r') := by
  simp only [Holds, (step_drop s r).2.2]
  constructor
  · rintro ⟨r', hp⟩
    by_cases hr : r' = r
    · rw [hr, Function.update_self] at hp
      cases hp
    · rw [Function.update_of_ne hr] at hp
      exact ⟨r', hr, hp⟩
  · rintro ⟨r', hr, hp⟩
    exact ⟨r', by rwa [Function.update_of_ne hr]⟩

namespace Sound

theorem exists_other_handle_iff (hs : Sound s) {f : String} :
    (∃ f', f' ≠ f ∧ Table.find s.forwards f' = some c) ↔ s.Waits c ∧ Table.find s.forwards f ≠ some c := by
  constructor
  · rintro ⟨f', hne, hf'⟩
    exact ⟨⟨f', hf'⟩, fun hf => hne (hs.handles hf' hf)⟩
  · rintro ⟨⟨f', hf'⟩, hf⟩
    refine ⟨f', ?_, hf'⟩
    rintro rfl
    exact hf hf'

theorem waits_dropForward_iff (hs : Sound s) (f : String) (c : Nat) :
    (s.step (.dropForward f)).Waits c ↔ s.Waits c ∧ Table.find s.forwards f ≠ some c := by
  rw [← hs.exists_other_handle_iff, Waits, (step_dropForward s f).2.1]
  refine exists_congr fun f' => ?_
  by_cases hf : f' = f <;> simp [hf]

theorem waits_declare_iff (hs : Sound s) (f name : String) (c : Nat) :
    (s.step (.declare f name)).Waits c ↔
      c = s.cells.length ∨ s.Waits c ∧ Table.find s.forwards f ≠ some c := by
  rw [← hs.exists_other_handle_iff, Waits, (step_declare s f name).2.1]
  constructor
  · rintro ⟨f', hf'⟩
    by_cases hf : f' = f
    · rw [hf, Function.update_self] at hf'
      cases hf'
      exact Or.inl rfl
    · rw [Function.update_of_ne hf] at hf'
      exact Or.inr ⟨f', hf, hf'⟩
  · rintro (rfl | ⟨f', hf, hf'⟩)
    · exact ⟨f, Function.update_self ..⟩
    · exact ⟨f', by rwa [Function.update_of_ne hf]⟩

end Sound

/-! ### Runs of references -/

theorem reference_parse (s : Session) (rules : Grammar.Rules) (depth c : Nat) (name : String) (i : View) :
    ((Held.reference c name).parserWith (s.linksWithin rules (depth + 1))).parse i =
      match s.status c with
      | .alive content => (content.parserWith (s.linksWithin rules depth)).parse i
      | .undefined => .raise (.undefined name)
      | .dropped => .raise (.dropped name) := by
  show ((s.linksWithin rules (depth + 1)).cell c name).parse i = _
  rw [linksWithin]
  rcases hc : s.status c with _ | content | _ <;> simp only [hc] <;> rfl

/-! ### Cells that own cells -/

/-- The content of cell `c` holds the definition of cell `d`. -/
def Owns (s : Session) (c d : Nat) : Prop :=
  ∃ name body name' body', s.cells[c]? = some ⟨name, some body⟩ ∧ (Held.definition d name' body').Within body

/-- A set of cells that counting references would keep: each of them is held by a register, or by the content of one
    of them. -/
def Counted (s : Session) (cells : Nat → Prop) : Prop :=
  ∀ c, cells c → (∃ name body, s.Holds (.definition c name body)) ∨ ∃ d, cells d ∧ s.Owns d c

namespace Sound

theorem acc_owned {h : Held} (hh : h.Fits s.cells) {name : String} {body : Held}
    (hp : (Held.definition c name body).Within h) : Acc (fun d c => s.Owns c d) c := by
  -- the induction is on the tree `h`: what a content owns is a smaller tree inside of it
  induction h generalizing c name body with
  | reference cell name => cases hp
  | empty r => cases hp
  | definition cell name body ih =>
    cases hp with
    | body hp => exact ih hh.2 hp
    | self =>
      refine Acc.intro _ fun d hd => ?_
      obtain ⟨name₀, body₀, name', body', hcell, hd⟩ := hd
      rw [hh.1] at hcell
      cases hcell
      exact ih hh.2 hd
  | built σ g part kept ih =>
    cases hp with
    | part _ hp => exact ih _ (hh.2 _) hp

theorem wellFounded_owned (hs : Sound s) : WellFounded fun d c => s.Owns c d := by
  refine ⟨fun c => Acc.intro c fun d hd => ?_⟩
  obtain ⟨name, body, name', body', hcell, hd⟩ := hd
  exact acc_owned (hs.contents hcell) hd

theorem not_transGen_owns (hs : Sound s) (c : Nat) : ¬ Relation.TransGen s.Owns c c := by
  intro h
  exact hs.wellFounded_owned.transGen.irrefl.irrefl c (Relation.transGen_swap.mpr h)

theorem wellFounded_owns (hs : Sound s) : WellFounded s.Owns := by
  -- trees say nothing about the way from owned to owner, but there are only finitely many cells
  let above : Fin s.cells.length → Fin s.cells.length → Prop := fun c d => Relation.TransGen s.Owns c d
  have : IsTrans _ above := ⟨fun _ _ _ => Relation.TransGen.trans⟩
  have : Std.Irrefl above := ⟨fun c => hs.not_transGen_owns c⟩
  have hbound : ∀ {c d}, s.Owns c d → c < s.cells.length := by
    rintro c d ⟨name, body, -, -, hcell, -⟩
    exact (List.getElem?_eq_some_iff.mp hcell).1
  have hacc : ∀ c : Fin s.cells.length, Acc s.Owns c := by
    intro c
    induction c using (Finite.wellFounded_of_trans_of_irrefl above).induction with
    | _ c ih => exact Acc.intro _ fun d hd => ih ⟨d, hbound hd⟩ (.single hd)
  exact ⟨fun c => Acc.intro c fun d hd => hacc ⟨d, hbound hd⟩⟩

theorem holds_of_owns (hs : Sound s) {name : String} {body : Held} (h : s.Holds (.definition c name body))
    (hcd : s.Owns c d) : ∃ name' body', s.Holds (.definition d name' body') := by
  obtain ⟨name₀, body₀, name', body', hcell, hd⟩ := hcd
  have hc := hs.getElem?_of_holds h
  rw [hcell] at hc
  cases hc
  obtain ⟨r, hr⟩ := h
  exact ⟨name', body', r, (Within.body hd).trans hr⟩

/-- Counting references keeps no cell that no register holds. -/
theorem holds_of_counted (hs : Sound s) {cells : Nat → Prop} (h : s.Counted cells) (hc : cells c) :
    ∃ name body, s.Holds (.definition c name body) := by
  induction c using hs.wellFounded_owns.induction with
  | _ c ih =>
    rcases h c hc with hheld | ⟨d, hd, hdc⟩
    · exact hheld
    · obtain ⟨name, body, hheld⟩ := ih d hdc hd
      exact hs.holds_of_owns hheld hdc

end Sound

/-! ### The life of a cell -/

/-- What has become of the cells after some steps, and what a run of a reference to one of them does. A reference uses
    up one entry more than the parser that it leads to. -/
structure LifeCycle (steps : List Step) : Prop where
  /-- A cell whose definition is held: the reference runs as the parser that the definition returned. -/
  alive : ∀ {before c p}, Defines steps before c p → (after steps).Holds p → ∀ name rules depth i,
    ((Held.reference c name).parserWith ((after steps).linksWithin rules (depth + 1))).parse i =
      (p.parserWith ((after steps).linksWithin rules depth)).parse i
  /-- A cell that was not defined, and still has its handle. -/
  undefined : ∀ c, (∀ before p, ¬ Defines steps before c p) → (after steps).Waits c → ∀ name rules depth i,
    ((Held.reference c name).parserWith ((after steps).linksWithin rules (depth + 1))).parse i =
      .raise (.undefined name)
  /-- Every other cell. -/
  dropped : ∀ c, (∀ before p, Defines steps before c p → ¬ (after steps).Holds p) →
    ((∀ before p, ¬ Defines steps before c p) → ¬ (after steps).Waits c) → ∀ name rules depth i,
    ((Held.reference c name).parserWith ((after steps).linksWithin rules (depth + 1))).parse i =
      .raise (.dropped name)
  once : ∀ {before before' c p p'}, Defines steps before c p → Defines steps before' c p' → before = before' ∧ p = p'
  final : ∀ {before c p}, Defines steps before c p → ∃ name body, p = .definition c name body ∧
    ∀ later, steps <+: later → (after later).cells[c]? = some ⟨name, some body⟩
  /-- Dropping a register gives up what no other register holds. -/
  drops : ∀ r c, (∀ name body, (after (steps ++ [.drop r])).Holds (.definition c name body) ↔
      ∃ r', r' ≠ r ∧ (Held.definition c name body).Within ((after steps).register r')) ∧
    ((after (steps ++ [.drop r])).Waits c ↔ (after steps).Waits c)
  /-- A cell whose handle is dropped no longer waits. -/
  dropsForward : ∀ f c, (∀ p, (after (steps ++ [.dropForward f])).Holds p ↔ (after steps).Holds p) ∧
    ((after (steps ++ [.dropForward f])).Waits c ↔
      (after steps).Waits c ∧ Table.find (after steps).forwards f ≠ some c)
  /-- A declared cell is a new one, and the one that had its handle before no longer waits. -/
  declares : ∀ f name c, (∀ p, (after (steps ++ [.declare f name])).Holds p ↔ (after steps).Holds p) ∧
    ((after (steps ++ [.declare f name])).Waits c ↔
      c = (after steps).cells.length ∨ (after steps).Waits c ∧ Table.find (after steps).forwards f ≠ some c)
  acyclic : ∀ c, ¬ Relation.TransGen (after steps).Owns c c
  /-- A cell that counting references keeps is held by a register. -/
  held : ∀ cells, (after steps).Counted cells → ∀ c, cells c →
    ∃ before p, Defines steps before c p ∧ (after steps).Holds p
  /-- Once every register is dropped, every defined cell is gone, and counting references keeps none. -/
  freed : (after steps).registers = [] → (∀ {before c p}, Defines steps before c p → (after steps).status c = .dropped) ∧
    ∀ cells, (after steps).Counted cells → ∀ c, ¬ cells c

/-- Cells live like this in every session, however its steps declare, define, hold, overwrite and drop. -/
theorem lifeCycle (steps : List Step) : LifeCycle steps where
  alive hdefines hheld name rules depth i := by
    obtain ⟨name', body, rfl, -⟩ := hdefines.getElem?
    rw [reference_parse, (sound_after steps).status_of_holds hheld]
    rfl
  undefined c hnot hwaits name rules depth i := by
    have hcell : ∀ name body, (after steps).cells[c]? ≠ some ⟨name, some body⟩ := by
      intro name body hcell
      obtain ⟨before, hdefines⟩ := exists_defines hcell
      exact hnot _ _ hdefines
    rw [reference_parse, ((sound_after steps).status_of_undefined hcell).1 hwaits]
  dropped c hnot hwaits name rules depth i := by
    have hs := sound_after steps
    have hstatus : (after steps).status c = .dropped := by
      by_cases hdefined : ∃ before p, Defines steps before c p
      · obtain ⟨before, p, hdefines⟩ := hdefined
        obtain ⟨name', body, rfl, hcell⟩ := hdefines.getElem?
        exact hs.status_of_defined hcell (hnot _ _ hdefines)
      · have hnone : ∀ before p, ¬ Defines steps before c p := fun before p h => hdefined ⟨before, p, h⟩
        refine (hs.status_of_undefined fun name body hcell => ?_).2 (hwaits hnone)
        obtain ⟨before, hdefines⟩ := exists_defines hcell
        exact hnone _ _ hdefines
    rw [reference_parse, hstatus]
  once := Defines.unique
  final hdefines := by
    obtain ⟨name, body, rfl, hcell⟩ := hdefines.getElem?
    exact ⟨name, body, rfl, fun later hlater => keeps_after hlater _ _ _ hcell⟩
  drops r c := by
    rw [after_concat]
    exact ⟨holds_drop_iff (after steps) r c, Iff.rfl⟩
  dropsForward f c := by
    rw [after_concat]
    exact ⟨fun _ => Iff.rfl, (sound_after steps).waits_dropForward_iff f c⟩
  declares f name c := by
    rw [after_concat]
    exact ⟨fun _ => Iff.rfl, (sound_after steps).waits_declare_iff f name c⟩
  acyclic := (sound_after steps).not_transGen_owns
  held cells hcells c hc := by
    obtain ⟨name, body, hheld⟩ := (sound_after steps).holds_of_counted hcells hc
    obtain ⟨before, hdefines⟩ := exists_defines ((sound_after steps).getElem?_of_holds hheld)
    exact ⟨before, _, hdefines, hheld⟩
  freed hempty := by
    have hnot := not_holds_of_registers_eq_nil hempty
    refine ⟨fun hdefines => ?_, fun cells hcells c hc => ?_⟩
    · obtain ⟨name, body, rfl, hcell⟩ := hdefines.getElem?
      exact (sound_after steps).status_of_defined hcell (hnot _ name body)
    · obtain ⟨name, body, hheld⟩ := (sound_after steps).holds_of_counted hcells hc
      exact hnot c name body hheld

/-- A session in which a reference leads to a cell that is not defined, then to one that is, and at last to one that
    no register holds. -/
example :
    let declared := after [.declare "f" "Seven", .refer "r" "f"]
    let defined := declared.step (.define "d" "f" (.prim (.literal "7")))
    let given := (defined.step (.build "h" (.register "d"))).step (.drop "d")
    let freed := given.step (.drop "h")
    let run := fun s : Session => ((s.parser (fun _ => none) "r").parse (.ofText "7")).ending
    run declared = .fault (.undefined "Seven") ∧
      run defined = .done (.success (.string "7") ⟨⟨0, "7"⟩, 1, []⟩) ∧
      run given = run defined ∧
      run freed = .fault (.dropped "Seven") := ⟨rfl, rfl, rfl, rfl⟩

end Session
end ParserKit
