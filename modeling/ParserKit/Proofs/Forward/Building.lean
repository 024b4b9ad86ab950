import Mathlib.Data.List.FinRange
import ParserKit.Forward.Stack

/-! The cells of built parsers. A grammar that was built has all of its cells, each defined as what it should be
    (`build_of_mem_cells`), and nothing else in the memory is touched (`build_of_not_under`). So to enter a parser is
    safe for all that were entered before: inside of it their cells are what they were (`extends_enter`), and its own
    are alive (`has_enter`). Outside of it these are gone (`status_of_mem_cells_next`). -/

namespace ParserKit

/-! ### Addresses -/

namespace Address
variable {a x : Address} {n k : Nat}

/-- A cell at `x` can come from a grammar that is built at `a`. -/
def Under (x a : Address) : Prop := x.frame = a.frame ∧ a.place <:+ x.place

theorem Under.refl (a : Address) : a.Under a := ⟨rfl, List.suffix_refl _⟩

theorem Under.of_inside (h : x.Under (a.inside n)) : x.Under a := ⟨h.1, (List.suffix_cons n a.place).trans h.2⟩

theorem not_under_inside (a : Address) (n : Nat) : ¬ a.Under (a.inside n) := by
  intro h
  have hle : a.place.length + 1 ≤ a.place.length := h.2.length_le
  omega

theorem Under.inside_inj (h : x.Under (a.inside n)) (h' : x.Under (a.inside k)) : n = k := by
  have hlen : (n :: a.place).length = (k :: a.place).length := rfl
  have heq := (List.suffix_of_suffix_length_le h.2 h'.2 hlen.le).eq_of_length hlen
  exact (List.cons.inj heq).1

end Address

/-! ### Memory -/

namespace Memory
variable {ι : Type} {f : Memory → ι → Memory} {ns : List ι} {n : ι} {x : Address} {v : Option Built}

theorem foldl_of_forall (h : ∀ k ∈ ns, ∀ m, f m k x = m x) (m : Memory) : ns.foldl f m x = m x := by
  induction ns generalizing m with
  | nil => rfl
  | cons k ns ih =>
    have hns : ∀ k ∈ ns, ∀ m, f m k x = m x := fun k hk => h k (List.mem_cons_of_mem _ hk)
    rw [List.foldl_cons, ih hns, h k List.mem_cons_self]

/-- Only one of some changes is made at an address, so in the end it is the one to be seen there. -/
theorem foldl_of_mem (hset : ∀ m, f m n x = v) (hkeep : ∀ k, k ≠ n → ∀ m, f m k x = m x) (hn : n ∈ ns)
    (m : Memory) : ns.foldl f m x = v := by
  induction ns generalizing m with
  | nil => cases hn
  | cons k ns ih =>
    rw [List.foldl_cons]
    by_cases hmem : n ∈ ns
    · exact ih hmem _
    · obtain rfl : n = k := (List.mem_cons.mp hn).resolve_right hmem
      have hns : ∀ k ∈ ns, ∀ m, f m k x = m x := fun k hk => hkeep k fun heq => hmem (heq ▸ hk)
      exact (foldl_of_forall hns _).trans (hset m)

end Memory

/-! ### Building -/

namespace Grammar
open Address

theorem under_of_mem_cells {g : Grammar} {env : Environment} {a : Address} : ∀ c ∈ g.cells env a, c.1.Under a := by
  induction g generalizing env a with
  | prim | lazy | self | register => exact fun _ hc => nomatch hc
  | fix this name body ih =>
    intro c hc
    rcases List.mem_cons.mp hc with rfl | hc
    · exact .refl a
    · exact (ih c hc).of_inside
  | padded g ih | transform via g f ih | ifSatisfies via g test ih | bind via g captures next ih _
  | lookahead via g ih | optional via g ih | many via g seed reduce ih | many1 via g seed reduce ih
  | exactlyN via g seed reduce n ih | named g name ih | traced g ih | wrapped g ih | fromFn g name ih =>
    exact fun c hc => ih c hc
  | orWith via g h ihg ihh | combine via g h f ihg ihh | ignore via g h ihg ihh | ignorePrevious via g h ihg ihh
  | separatedBy via g h seed reduce ihg ihh =>
    intro c hc
    rcases List.mem_append.mp hc with hc | hc
    · exact (ihg c hc).of_inside
    · exact (ihh c hc).of_inside
  | sequence count parts f ih =>
    intro c hc
    obtain ⟨cs, hcs, hc⟩ := List.mem_flatten.mp hc
    obtain ⟨n, rfl⟩ := List.mem_ofFn.mp hcs
    exact (ih n c hc).of_inside

theorem build_of_not_under {g : Grammar} {env : Environment} {a x : Address} {m : Memory} (hx : ¬ x.Under a) :
    g.build env a m x = m x := by
  induction g generalizing env a m with
  | prim | lazy | self | register => rfl
  | fix this name body ih =>
    have hne : x ≠ a := fun heq => hx (heq ▸ .refl a)
    rw [build, Function.update_of_ne hne, ih fun h => hx h.of_inside, Function.update_of_ne hne]
  | padded g ih | transform via g f ih | ifSatisfies via g test ih | bind via g captures next ih _
  | lookahead via g ih | optional via g ih | many via g seed reduce ih | many1 via g seed reduce ih
  | exactlyN via g seed reduce n ih | named g name ih | traced g ih | wrapped g ih | fromFn g name ih =>
    exact ih hx
  | orWith via g h ihg ihh | combine via g h f ihg ihh | ignore via g h ihg ihh | ignorePrevious via g h ihg ihh
  | separatedBy via g h seed reduce ihg ihh =>
    exact (ihh fun h => hx h.of_inside).trans (ihg fun h => hx h.of_inside)
  | sequence count parts f ih => exact Memory.foldl_of_forall (fun n _ m => ih n fun h => hx h.of_inside) m

theorem build_of_mem_cells {g : Grammar} {env : Environment} {a : Address} {m : Memory} :
    ∀ c ∈ g.cells env a, g.build env a m c.1 = some c.2 := by
  induction g generalizing env a m with
  | prim | lazy | self | register => exact fun _ hc => nomatch hc
  | fix this name body ih =>
    intro c hc
    rw [build]
    rcases List.mem_cons.mp hc with rfl | hc
    · exact Function.update_self ..
    · have hne : c.1 ≠ a := by
        rintro rfl
        exact not_under_inside _ 0 (under_of_mem_cells c hc)
      rw [Function.update_of_ne hne]
      exact ih c hc
  | padded g ih | transform via g f ih | ifSatisfies via g test ih | bind via g captures next ih _
  | lookahead via g ih | optional via g ih | many via g seed reduce ih | many1 via g seed reduce ih
  | exactlyN via g seed reduce n ih | named g name ih | traced g ih | wrapped g ih | fromFn g name ih =>
    exact ih
  | orWith via g h ihg ihh | combine via g h f ihg ihh | ignore via g h ihg ihh | ignorePrevious via g h ihg ihh
  | separatedBy via g h seed reduce ihg ihh =>
    intro c hc
    rcases List.mem_append.mp hc with hc | hc
    · have hout : ¬ c.1.Under (a.inside 1) := fun h => absurd ((under_of_mem_cells c hc).inside_inj h) (by decide)
      exact (build_of_not_under hout).trans (ihg c hc)
    · exact ihh c hc
  | sequence count parts f ih =>
    intro c hc
    obtain ⟨cs, hcs, hc⟩ := List.mem_flatten.mp hc
    obtain ⟨n, rfl⟩ := List.mem_ofFn.mp hcs
    have hkeep : ∀ k, k ≠ n → ∀ m, (parts k).build env (a.inside k) m c.1 = m c.1 := fun k hk _ =>
      build_of_not_under fun h => hk (Fin.ext (h.inside_inj (under_of_mem_cells c hc)))
    exact Memory.foldl_of_mem (f := fun m k => (parts k).build env (a.inside k) m) (fun _ => ih n c hc) hkeep
      (List.mem_finRange n) m

end Grammar

/-! ### Stacks -/

namespace Stack
open Grammar
variable {s t : Stack} {a : Address} {b : Built}

theorem status_eq_alive_iff : s.status a = .alive b ↔ s.Keeps a ∧ s.memory a = some b := by
  unfold status
  by_cases hkept : s.Keeps a
  · rcases s.memory a with _ | content <;> simp [hkept]
  · simp [hkept]

/-- What is alive on one stack is alive on the other, with the same content. -/
def Extends (s t : Stack) : Prop := ∀ {a b}, s.status a = .alive b → t.status a = .alive b

/-- These cells are alive, and each is defined as what it should be. -/
def Has (s : Stack) (cells : List (Address × Built)) : Prop := ∀ c ∈ cells, s.status c.1 = .alive c.2

theorem Has.mono {cells : List (Address × Built)} (h : s.Has cells) (hst : s.Extends t) : t.Has cells :=
  fun c hc => hst (h c hc)

theorem Keeps.frame_lt (h : s.Keeps a) : a.frame < s.active.length := by
  obtain ⟨b, hb, ha⟩ := h
  obtain ⟨c, hc, rfl⟩ := List.mem_map.mp ha
  have hframe : c.1.frame = b.address.frame := (under_of_mem_cells c hc).1
  rw [hframe]
  exact s.frame_lt b hb

theorem Keeps.not_under_next (h : s.Keeps a) : ¬ a.Under s.next := fun hu => h.frame_lt.ne hu.1

theorem extends_enter (s : Stack) (env : Environment) (g : Grammar) : s.Extends (s.enter env g) := by
  intro a b h
  obtain ⟨hkept, hm⟩ := status_eq_alive_iff.mp h
  have hm' : g.build env s.next s.memory a = some b := (build_of_not_under hkept.not_under_next).trans hm
  obtain ⟨p, hp, ha⟩ := hkept
  exact status_eq_alive_iff.mpr ⟨⟨p, List.mem_cons_of_mem _ hp, ha⟩, hm'⟩

theorem has_enter (s : Stack) (env : Environment) (g : Grammar) : (s.enter env g).Has (g.cells env s.next) := by
  intro c hc
  have hkept : (s.enter env g).Keeps c.1 := ⟨⟨g, env, s.next⟩, List.mem_cons_self, List.mem_map_of_mem hc⟩
  exact status_eq_alive_iff.mpr ⟨hkept, build_of_mem_cells c hc⟩

theorem status_of_mem_cells_next {env : Environment} {g : Grammar} :
    ∀ c ∈ g.cells env s.next, s.status c.1 = .dropped := by
  intro c hc
  have hgone : ¬ s.Keeps c.1 := fun hkept => hkept.not_under_next (under_of_mem_cells c hc)
  rw [status, if_neg hgone]

end Stack
end ParserKit
