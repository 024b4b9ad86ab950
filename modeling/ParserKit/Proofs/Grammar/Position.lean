import ParserKit.Proofs.Grammar.Recursion

/-! Places in a text. A parser sees nothing of a text but what comes after the place where it starts, and it makes
    the same of it as if that were a text of its own: only the offsets, in what it leaves and in what it reports,
    are those of the place (`positionIndependent`). The text before the place has no say in it. -/

namespace ParserKit
variable {α : Type} {n : Nat}

/-! ### The same, some bytes later -/

/-- The same report from `n` bytes later. Lengths stay as they are. -/
def Event.shift (n : Nat) : Event → Event
  | matched parser offset consumed => .matched parser (offset + n) consumed
  | noMatch parser offset => .noMatch parser (offset + n)
  | stopped parser offset => .stopped parser (offset + n)
  | evaluated text value => .evaluated text value

/-- Both fail, or both give the same value and leave the same text, the first `n` bytes later. -/
inductive Outcome.Shifted (n : Nat) : Outcome α → Outcome α → Prop
  | success {v k k'} : k.offset = k'.offset + n → k.restText = k'.restText →
      Shifted n (.success v k) (.success v k')
  | failure : Shifted n .failure .failure

inductive Ending.Shifted (n : Nat) : Ending (Outcome α) → Ending (Outcome α) → Prop
  | done {o o'} : o.Shifted n o' → Shifted n (.done o) (.done o')
  | fault (f) : Shifted n (.fault f) (.fault f)
  | unfinished : Shifted n .unfinished .unfinished

/-- The same run `n` bytes later: it reports the same in the same order, and ends in the same way. -/
structure Run.Shifted (n : Nat) (r s : Run (Outcome α)) : Prop where
  events : r.events = s.events.map (Event.shift n)
  ending : r.ending.Shifted n s.ending

theorem Ending.Shifted.unfinished_iff {x y : Ending (Outcome α)} (h : x.Shifted n y) :
    x = .unfinished ↔ y = .unfinished := by
  cases h <;> simp

namespace Simulation

/-- Places with the same text after them, the first `n` bytes later in its text than the second. -/
structure SameRest (n : Nat) (i j : View) : Prop where
  left : i.Valid
  right : j.Valid
  rest_eq : i.rest = j.rest
  offset_eq : i.offset = j.offset + n

theorem SameRest.len_eq {i j : View} (h : SameRest n i j) : i.len = j.len := by
  rw [h.left.len_eq, h.right.len_eq, h.rest_eq]

/-- Every run stands for itself from `n` bytes later. -/
def shifted (n : Nat) : Simulation where
  view := SameRest n
  events es fs := es = fs.map (Event.shift n)
  fault f g := f = g
  named := True
  cutLeft := False
  cutRight := False
  rest_eq h := h.rest_eq
  isEmpty_eq h := by
    rw [Bool.eq_iff_iff, h.left.isEmpty_iff, h.right.isEmpty_iff, h.rest_eq]
  drop h k := ⟨h.left.drop k, h.right.drop k, by simp [h.rest_eq], by simp [h.rest_eq, h.offset_eq]; omega⟩
  len_lt_iff h h' := by rw [h.len_eq, h'.len_eq]
  nil := rfl
  append h h' := by rw [h, h', List.map_append]
  stopped h hn := by simp [Event.shift, h.offset_eq, hn trivial]

theorem reports_shifted : (shifted n).Reports where
  matched hn hv hv' _ _ := by
    show [Event.matched _ _ _] = [Event.matched _ _ _]
    rw [hn trivial, hv.offset_eq, hv'.offset_eq, Nat.add_sub_add_right]
  noMatch hn hv := by
    show [Event.noMatch _ _] = [Event.noMatch _ _]
    rw [hn trivial, hv.offset_eq]

theorem faults_shifted : (shifted n).Faults := ⟨fun _ => rfl, fun _ => rfl⟩

theorem Runs.shifted {i j : View} {r s : Run (Outcome α)}
    (h : (shifted n).Runs ((shifted n).Outcomes i j) r s) : r.Shifted n s := by
  cases h with
  | cutLeft hS => exact hS.elim
  | cutRight hS => exact hS.elim
  | step hevents hending =>
    refine ⟨hevents, ?_⟩
    cases hending with
    | fault hf =>
      obtain rfl := hf
      exact .fault _
    | unfinished => exact .unfinished
    | done ho =>
      cases ho with
      | failure => exact .done .failure
      | success hv _ _ => exact .done (.success hv.offset_eq (congrArg String.ofList hv.rest_eq))

end Simulation

namespace Grammar
open Simulation

theorem sameRest_ofText {i : View} (hi : i.Valid) : SameRest i.offset i (.ofText i.restText) :=
  ⟨hi, View.valid_ofBuffer _, by simp [View.ofText, View.ofBuffer, View.restText], by simp [View.ofText, View.ofBuffer]⟩

theorem parse_shifted (rules : Rules) (depth : Nat) (g : Grammar) {i j : View} (h : SameRest n i j) :
    ((g.parserWithin rules depth).parse i).Shifted n ((g.parserWithin rules depth).parse j) :=
  ((similar_linksWithin reports_shifted faults_shifted rules (.refl depth) [] g).run i j h).shifted

/-- A run from a place in a text is the same as a run over the text after that place, but for the offsets: at every
    depth, and so also if both go on for ever. Where the same text follows, it is the same run. -/
theorem positionIndependent (rules : Rules) (g : Grammar) {b : Buffer} {offset : Nat} {i : View}
    (hi : View.startingAt b offset = .ok i) :
    (∀ depth, ((g.parserWithin rules depth).parse i).Shifted offset
      ((g.parserWithin rules depth).parse (.ofText i.restText))) ∧
    ((family rules g).Diverges i ↔ (family rules g).Diverges (.ofText i.restText)) ∧
    ∀ {b' : Buffer} {offset' : Nat} {i' : View}, View.startingAt b' offset' = .ok i' → i'.restText = i.restText →
      ∀ depth, ∃ r, ((g.parserWithin rules depth).parse i).Shifted offset r ∧
        ((g.parserWithin rules depth).parse i').Shifted offset' r := by
  obtain ⟨-, rfl, hvalid⟩ := View.startingAt_eq_ok_iff.mp hi
  have hrun : ∀ depth, ((g.parserWithin rules depth).parse i).Shifted i.offset
      ((g.parserWithin rules depth).parse (.ofText i.restText)) :=
    fun depth => parse_shifted rules depth g (sameRest_ofText hvalid)
  refine ⟨hrun, ?_, fun hi' hrest depth => ?_⟩
  · exact forall_congr' fun depth => (hrun depth).ending.unfinished_iff
  · obtain ⟨-, rfl, hvalid'⟩ := View.startingAt_eq_ok_iff.mp hi'
    exact ⟨_, hrun depth, hrest ▸ parse_shifted rules depth g (sameRest_ofText hvalid')⟩

/-- Traced repetitions of a character of two bytes, from inside a text. -/
theorem positionIndependent_accents :
    let g := many .method (traced (prim (.literal "é"))) (.int 0) Value.count
    let i : View := ⟨⟨0, "aéé b"⟩, 1, ['é', 'é', ' ', 'b']⟩
    View.startingAt ⟨0, "aéé b"⟩ 1 = .ok i ∧
      ∀ depth, ((g.parserWithin (fun _ => none) depth).parse i).Shifted 1
        ((g.parserWithin (fun _ => none) depth).parse (.ofText i.restText)) := by
  intro g i
  have hi : View.startingAt ⟨0, "aéé b"⟩ 1 = .ok i := rfl
  exact ⟨hi, (positionIndependent (fun _ => none) g hi).1⟩

end Grammar
end ParserKit
