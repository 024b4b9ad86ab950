import Mathlib.Logic.Function.Basic
import ParserKit.Forward.Session

/-! What the parsers of a session hold. A parser holds the copies that it was built from, and through them
    whatever these hold; a reference holds nothing. In every session, however it came about, the definitions
    inside held parsers are the contents of their cells, and each built parser keeps count of exactly the cells
    that its parts hold (`sound_after`). -/

namespace ParserKit

/-! ### Tables -/

namespace Table
variable {α : Type} {table : List (String × α)} {m n : String} {a : α}

def Keyed (table : List (String × α)) : Prop := (table.map (·.1)).Nodup

theorem Keyed.remove (h : Keyed table) (n : String) : Keyed (remove table n) :=
  h.sublist ((List.filter_sublist (l := table)).map _)

theorem Keyed.put (h : Keyed table) (n : String) (a : α) : Keyed (put table n a) := by
  refine List.nodup_cons.mpr ⟨fun hn => ?_, h.remove n⟩
  obtain ⟨entry, hentry, rfl⟩ := List.mem_map.mp hn
  simp [Table.remove] at hentry

theorem Keyed.mem_iff (h : Keyed table) : (n, a) ∈ table ↔ find table n = some a := by
  induction table with
  | nil => simp [find]
  | cons entry table ih =>
    obtain ⟨k, b⟩ := entry
    obtain ⟨hk, htable⟩ := List.nodup_cons.mp h
    by_cases hkn : k = n
    · subst hkn
      have hout : (k, a) ∉ table := fun hmem => hk (List.mem_map.mpr ⟨_, hmem, rfl⟩)
      simp [find, hout, eq_comm]
    · have hfind : find ((k, b) :: table) n = find table n := by simp [find, hkn]
      rw [hfind, ← ih htable]
      simp [Ne.symm hkn]

theorem find_remove_self : find (remove table n) n = none := by
  simp [find, remove, List.find?_filter]

theorem find_remove_of_ne (h : m ≠ n) : find (remove table n) m = find table m := by
  have hsame : (fun entry : String × α => decide ((entry.1 != n) = true ∧ (entry.1 == m) = true)) =
      fun entry => entry.1 == m := by
    funext entry
    by_cases hm : entry.1 = m <;> simp [hm, h]
  rw [find, remove, List.find?_filter, hsame]
  rfl

theorem find_of_find_remove (h : find (remove table n) m = some a) : m ≠ n ∧ find table m = some a := by
  by_cases hm : m = n
  · subst hm
    rw [find_remove_self] at h
    cases h
  · exact ⟨hm, find_remove_of_ne hm ▸ h⟩

theorem find_put_self : find (put table n a) n = some a := by simp [find, put]

theorem find_put_of_ne (h : m ≠ n) : find (put table n a) m = find table m := by
  have hremove : find (remove table n) m = find table m := find_remove_of_ne h
  simpa [find, put, Ne.symm h] using hremove

theorem find_remove (table : List (String × α)) (n : String) :
    find (remove table n) = Function.update (find table) n none := by
  funext m
  by_cases hm : m = n
  · rw [hm, Function.update_self, find_remove_self]
  · rw [Function.update_of_ne hm, find_remove_of_ne hm]

theorem find_put (table : List (String × α)) (n : String) (a : α) :
    find (put table n a) = Function.update (find table) n (some a) := by
  funext m
  by_cases hm : m = n
  · rw [hm, Function.update_self, find_put_self]
  · rw [Function.update_of_ne hm, find_put_of_ne hm]

end Table

namespace Held

/-! ### Copies -/

/-- The parser is this one, or one that it holds a copy of. -/
inductive Within (p : Held) : Held → Prop
  | self : Within p p
  | body {cell name body} : Within p body → Within p (.definition cell name body)
  | part {σ g part cells r} : r ∈ g.mentions → Within p (part r) → Within p (.built σ g part cells)

/-- A parser of a session fits its cells: what it holds as the definition of a cell is the content of that cell, and
    what it counts as the cells of its parts are these. -/
def Fits (cells : List Cell) : Held → Prop
  | reference .. | empty _ => True
  | definition c name body => cells[c]? = some ⟨name, some body⟩ ∧ body.Fits cells
  | built _ g part kept => (∀ c, c ∈ kept ↔ ∃ r ∈ g.mentions, c ∈ (part r).owns) ∧ ∀ r, (part r).Fits cells

/-- What cells are defined as in `cells`, they are defined as in `cells'`. -/
def Keeps (cells cells' : List Cell) : Prop :=
  ∀ (c : Nat) (name : String) (body : Held), cells[c]? = some ⟨name, some body⟩ → cells'[c]? = some ⟨name, some body⟩

section
variable {cells cells' : List Cell} {p h : Held}

theorem Fits.within (hh : h.Fits cells) (hp : p.Within h) : p.Fits cells := by
  induction hp with
  | self => exact hh
  | body _ ih => exact ih hh.2
  | part _ _ ih => exact ih (hh.2 _)

theorem Fits.mem_owns_iff (hh : h.Fits cells) {c : Nat} :
    c ∈ h.owns ↔ ∃ name body, (Held.definition c name body).Within h := by
  induction h with
  | reference cell name =>
    refine ⟨fun hc => (nomatch hc), ?_⟩
    rintro ⟨name, body, hp⟩
    cases hp
  | empty r =>
    refine ⟨fun hc => (nomatch hc), ?_⟩
    rintro ⟨name, body, hp⟩
    cases hp
  | definition cell name body ih =>
    rw [owns, List.mem_cons, ih hh.2]
    constructor
    · rintro (rfl | ⟨name, body, hp⟩)
      · exact ⟨_, _, .self⟩
      · exact ⟨name, body, .body hp⟩
    · rintro ⟨name, body, hp⟩
      cases hp with
      | self => exact Or.inl rfl
      | body hp => exact Or.inr ⟨name, body, hp⟩
  | built σ g part kept ih =>
    rw [owns, hh.1]
    constructor
    · rintro ⟨r, hr, hc⟩
      obtain ⟨name, body, hp⟩ := (ih r (hh.2 r)).mp hc
      exact ⟨name, body, .part hr hp⟩
    · rintro ⟨name, body, hp⟩
      cases hp with
      | @part _ _ _ _ r hr hp => exact ⟨r, hr, (ih r (hh.2 r)).mpr ⟨name, body, hp⟩⟩

theorem Fits.mono (hcells : Keeps cells cells') (hh : h.Fits cells) : h.Fits cells' := by
  induction h with
  | reference => trivial
  | empty => trivial
  | definition cell name body ih => exact ⟨hcells _ _ _ hh.1, ih hh.2⟩
  | built σ g part kept ih => exact ⟨hh.1, fun r => ih r (hh.2 r)⟩

end

end Held

namespace Session
open Held

variable {s : Session}

/-! ### Registers -/

theorem register_eq_of_find {r : String} {h : Held} (hr : Table.find s.registers r = some h) : s.register r = h := by
  rw [register, hr]
  rfl

theorem register_eq_update {t : Session} {r : String} {o : Option Held} {h : Held}
    (ht : Table.find t.registers = Function.update (Table.find s.registers) r o) (ho : o.getD (.empty r) = h) :
    t.register = Function.update s.register r h := by
  funext r'
  rw [register, ht]
  by_cases hr : r' = r
  · rw [hr, Function.update_self, Function.update_self, ho]
  · rw [Function.update_of_ne hr, Function.update_of_ne hr]
    rfl

theorem register_put (s : Session) (r : String) (h : Held) :
    register { s with registers := Table.put s.registers r h } = Function.update s.register r h :=
  register_eq_update (Table.find_put ..) rfl

theorem register_remove (s : Session) (r : String) :
    register { s with registers := Table.remove s.registers r } = Function.update s.register r (.empty r) :=
  register_eq_update (Table.find_remove ..) rfl

theorem fits_hold {cells : List Cell} (h : ∀ r, (s.register r).Fits cells) (g : Grammar) : (s.hold g).Fits cells := by
  refine ⟨fun c => ?_, fun r => ?_⟩
  · simp only [List.mem_eraseDups, List.mem_flatMap]
  · by_cases hr : g.mentions.eraseDups.contains r = true
    · simp only [hr, if_true]
      exact h r
    · simp only [hr]
      trivial

/-! ### Sound sessions -/

theorem getElem?_of_declared {cells : List Cell} {c : Nat} {n name : String} {body : Held}
    (h : (cells ++ [⟨n, none⟩])[c]? = some (.mk name (some body))) : cells[c]? = some ⟨name, some body⟩ := by
  rcases Nat.lt_or_ge c cells.length with hlt | hge
  · rwa [List.getElem?_append_left hlt] at h
  · rw [List.getElem?_append_right hge, List.getElem?_singleton] at h
    split at h <;> cases h

/-- What holds of every session that comes about by steps. -/
structure Sound (s : Session) : Prop where
  registers : ∀ r, (s.register r).Fits s.cells
  contents : ∀ {c : Nat} {name body}, s.cells[c]? = some (.mk name (some body)) → body.Fits s.cells
  /-- A handle leads to a cell that is not defined. -/
  waiting : ∀ {f c}, Table.find s.forwards f = some c → ∃ name, s.cells[c]? = some (.mk name none)
  /-- A cell has no two handles. -/
  handles : ∀ {f f' c}, Table.find s.forwards f = some c → Table.find s.forwards f' = some c → f = f'
  forwardsKeyed : Table.Keyed s.forwards
  registersKeyed : Table.Keyed s.registers

theorem sound_start : Sound start where
  registers _ := trivial
  contents h := by simp [start] at h
  waiting h := by simp [start, Table.find] at h
  handles h := by simp [start, Table.find] at h
  forwardsKeyed := List.nodup_nil
  registersKeyed := List.nodup_nil

namespace Sound

theorem setRegisters (hs : Sound s) {registers : List (String × Held)} (hkeyed : Table.Keyed registers)
    (hfits : ∀ {r h}, Table.find registers r = some h → h.Fits s.cells) :
    Sound { s with registers := registers } where
  registers r := by
    rcases hr : Table.find registers r with _ | h
    · rw [register, hr]
      trivial
    · rw [register_eq_of_find hr]
      exact hfits hr
  contents := hs.contents
  waiting := hs.waiting
  handles := hs.handles
  forwardsKeyed := hs.forwardsKeyed
  registersKeyed := hkeyed

theorem fits_of_find (hs : Sound s) {r : String} {h : Held} (hr : Table.find s.registers r = some h) :
    h.Fits s.cells := register_eq_of_find hr ▸ hs.registers r

theorem putRegister (hs : Sound s) (r : String) {h : Held} (hh : h.Fits s.cells) :
    Sound { s with registers := Table.put s.registers r h } := by
  refine hs.setRegisters (hs.registersKeyed.put r h) fun {r' h'} hr' => ?_
  by_cases hr : r' = r
  · subst hr
    rw [Table.find_put_self] at hr'
    cases hr'
    exact hh
  · rw [Table.find_put_of_ne hr] at hr'
    exact hs.fits_of_find hr'

theorem removeRegister (hs : Sound s) (r : String) : Sound { s with registers := Table.remove s.registers r } :=
  hs.setRegisters (hs.registersKeyed.remove r) fun hr' => hs.fits_of_find (Table.find_of_find_remove hr').2

theorem removeForward (hs : Sound s) (f : String) : Sound { s with forwards := Table.remove s.forwards f } where
  registers := hs.registers
  contents := hs.contents
  waiting h := hs.waiting (Table.find_of_find_remove h).2
  handles h h' := hs.handles (Table.find_of_find_remove h).2 (Table.find_of_find_remove h').2
  forwardsKeyed := hs.forwardsKeyed.remove f
  registersKeyed := hs.registersKeyed

theorem declare (hs : Sound s) (f name : String) :
    Sound { s with cells := s.cells ++ [⟨name, none⟩], forwards := Table.put s.forwards f s.cells.length } := by
  have hcell : ∀ {c : Nat} {cell : Cell}, s.cells[c]? = some cell → (s.cells ++ [⟨name, none⟩])[c]? = some cell := by
    intro c cell hc
    rw [List.getElem?_append_left (List.getElem?_eq_some_iff.mp hc).1, hc]
  have hnew : ∀ {f' c}, Table.find (Table.put s.forwards f s.cells.length) f' = some c →
      (f' = f ∧ c = s.cells.length) ∨ (f' ≠ f ∧ Table.find s.forwards f' = some c) := by
    intro f' c h
    by_cases hf : f' = f
    · subst hf
      rw [Table.find_put_self] at h
      cases h
      exact Or.inl ⟨rfl, rfl⟩
    · rw [Table.find_put_of_ne hf] at h
      exact Or.inr ⟨hf, h⟩
  have hlt : ∀ {f' c}, Table.find s.forwards f' = some c → c < s.cells.length := by
    intro f' c h
    obtain ⟨n, hc⟩ := hs.waiting h
    exact (List.getElem?_eq_some_iff.mp hc).1
  refine ⟨fun r => (hs.registers r).mono fun _ _ _ => hcell, fun hc => ?_, fun h => ?_, fun h h' => ?_,
    hs.forwardsKeyed.put f _, hs.registersKeyed⟩
  · exact (hs.contents (getElem?_of_declared hc)).mono fun _ _ _ => hcell
  · rcases hnew h with ⟨-, rfl⟩ | ⟨-, h⟩
    · exact ⟨name, by simp⟩
    · obtain ⟨n, hc⟩ := hs.waiting h
      exact ⟨n, hcell hc⟩
  · rcases hnew h with ⟨hf, hc⟩ | ⟨-, hold⟩ <;> rcases hnew h' with ⟨hf', hc'⟩ | ⟨-, hold'⟩
    · exact hf.trans hf'.symm
    · exact absurd (hc ▸ hlt hold') (Nat.lt_irrefl _)
    · exact absurd (hc' ▸ hlt hold) (Nat.lt_irrefl _)
    · exact hs.handles hold hold'

end Sound

/-! ### Definitions -/

def defined (cells : List Cell) (c : Nat) (body : Held) : List Cell :=
  cells.modify c fun cell => { cell with content := some body }

theorem getElem?_defined_of_ne {c d : Nat} (h : d ≠ c) (cells : List Cell) (body : Held) :
    (defined cells c body)[d]? = cells[d]? := by
  rw [defined, List.getElem?_modify]
  simp [Ne.symm h]

theorem getElem?_defined_self {c : Nat} {cell : Cell} {cells : List Cell} (h : cells[c]? = some cell) (body : Held) :
    (defined cells c body)[c]? = some ⟨cell.name, some body⟩ := by
  rw [defined, List.getElem?_modify, h]
  simp

/-- Only a cell that waits is defined, so no content is lost. -/
theorem keeps_defined {c : Nat} {name : String} {cells : List Cell} (h : cells[c]? = some ⟨name, none⟩)
    (body : Held) : Keeps cells (defined cells c body) := by
  intro d n content hd
  by_cases hdc : d = c
  · subst hdc
    rw [h] at hd
    cases hd
  · rw [getElem?_defined_of_ne hdc, hd]

namespace Sound

theorem getElem?_of_find (hs : Sound s) {f : String} {c : Nat} (hf : Table.find s.forwards f = some c) :
    s.cells[c]? = some ⟨s.nameOf c, none⟩ := by
  obtain ⟨name, hc⟩ := hs.waiting hf
  rw [nameOf, hc]
  rfl

/-- A definition takes the handle away, and the content that it sets is final. -/
theorem define (hs : Sound s) {f : String} {c : Nat} (hf : Table.find s.forwards f = some c) {body : Held}
    (hbody : body.Fits s.cells) :
    Sound { s with cells := defined s.cells c body, forwards := Table.remove s.forwards f } := by
  have hwait := hs.getElem?_of_find hf
  have hkeeps := keeps_defined hwait body
  refine ⟨fun r => (hs.registers r).mono hkeeps, fun {d n h} hd => ?_, fun {f' d} hf' => ?_,
    fun h h' => hs.handles (Table.find_of_find_remove h).2 (Table.find_of_find_remove h').2, hs.forwardsKeyed.remove f,
    hs.registersKeyed⟩
  · by_cases hdc : d = c
    · subst hdc
      rw [getElem?_defined_self hwait] at hd
      cases hd
      exact hbody.mono hkeeps
    · rw [getElem?_defined_of_ne hdc] at hd
      exact (hs.contents hd).mono hkeeps
  · obtain ⟨hne, hold⟩ := Table.find_of_find_remove hf'
    have hdc : d ≠ c := fun hdc => hne (hs.handles (hdc ▸ hold) hf)
    obtain ⟨n, hd⟩ := hs.waiting hold
    exact ⟨n, (getElem?_defined_of_ne hdc s.cells body).trans hd⟩

/-- What a step does keeps a session sound, and it keeps the contents that there are. -/
theorem step (hs : Sound s) (x : Step) : Sound (s.step x) ∧ Keeps s.cells (s.step x).cells := by
  cases x with
  | declare f name =>
    refine ⟨hs.declare f name, fun c n body hc => ?_⟩
    exact (List.getElem?_append_left (List.getElem?_eq_some_iff.mp hc).1).trans hc
  | refer r f =>
    rcases hf : Table.find s.forwards f with _ | c
    · simp only [Session.step, hf]
      exact ⟨hs, fun _ _ _ => id⟩
    · simp only [Session.step, hf]
      exact ⟨hs.putRegister r trivial, fun _ _ _ => id⟩
  | build r g => exact ⟨hs.putRegister r (fits_hold hs.registers g), fun _ _ _ => id⟩
  | define r f g =>
    rcases hf : Table.find s.forwards f with _ | c
    · simp only [Session.step, hf]
      exact ⟨hs, fun _ _ _ => id⟩
    · simp only [Session.step, hf]
      have hbody := fits_hold hs.registers g
      have hwait := hs.getElem?_of_find hf
      have hkeeps := keeps_defined hwait (s.hold g)
      refine ⟨(hs.define hf hbody).putRegister r ⟨?_, hbody.mono hkeeps⟩, hkeeps⟩
      exact getElem?_defined_self hwait (s.hold g)
  | drop r => exact ⟨hs.removeRegister r, fun _ _ _ => id⟩
  | dropForward f => exact ⟨hs.removeForward f, fun _ _ _ => id⟩

end Sound

/-! ### Runs of steps -/

theorem after_append (steps more : List Step) : after (steps ++ more) = more.foldl Session.step (after steps) :=
  List.foldl_append

theorem sound_foldl (hs : Sound s) (steps : List Step) :
    Sound (steps.foldl Session.step s) ∧ Keeps s.cells (steps.foldl Session.step s).cells := by
  induction steps generalizing s with
  | nil => exact ⟨hs, fun _ _ _ => id⟩
  | cons x steps ih =>
    obtain ⟨hx, hkeeps⟩ := hs.step x
    obtain ⟨hsteps, hkeeps'⟩ := ih hx
    exact ⟨hsteps, fun c n body hc => hkeeps' c n body (hkeeps c n body hc)⟩

theorem sound_after (steps : List Step) : Sound (after steps) := (sound_foldl sound_start steps).1

theorem keeps_after {steps later : List Step} (h : steps <+: later) : Keeps (after steps).cells (after later).cells := by
  obtain ⟨more, rfl⟩ := h
  rw [after_append]
  exact (sound_foldl (sound_after steps) more).2

end Session
end ParserKit
