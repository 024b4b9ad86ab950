import ParserKit.Proofs.Grammar.Similarity
import ParserKit.Proofs.Parser.Complete

/-! What runs may do to a text. Every parser that a grammar describes moves forward from one place between two
    characters to another one of the same text (`staysInText_parserWithin`). So no view inside a run is ever
    made past the end or inside a character, and no length of a match or of a rest is the difference of a
    smaller and a greater offset. -/

namespace ParserKit

/-- The faults of a wrong place: a view inside a character or past the end, or a match that ends before its
    start. -/
def Fault.Misplaced : Fault → Prop
  | boundary _ | backwards .. => True
  | undefined _ | dropped _ | unknown _ => False

/-- A run from `i` leaves a later view of the same text, if it leaves one, and never gets to a wrong place. -/
structure Parser.StaysInText {α : Type} (p : Parser α) (i : View) : Prop where
  valid : ∀ {v rest}, (p.parse i).ending = .done (.success v rest) →
    View.startingAt i.buffer rest.offset = .ok rest
  start_le : ∀ {v rest}, (p.parse i).ending = .done (.success v rest) → i.offset ≤ rest.offset
  le_size : ∀ {v rest}, (p.parse i).ending = .done (.success v rest) → rest.offset ≤ i.text.utf8ByteSize
  isSuffixOf : ∀ {v rest}, (p.parse i).ending = .done (.success v rest) → rest.isSuffixOf i = true
  placed : ∀ {f}, (p.parse i).ending = .fault f → ¬ f.Misplaced

theorem Parser.StaysInText.of_later {α : Type} {p : Parser α} {i : View} (hi : i.Valid)
    (hlater : ∀ {v rest}, (p.parse i).ending = .done (.success v rest) → i.Later rest)
    (hplaced : ∀ {f}, (p.parse i).ending = .fault f → ¬ f.Misplaced) : p.StaysInText i where
  valid hp := View.startingAt_eq_ok_iff.mpr ⟨(hlater hp).buffer_eq, rfl, (hlater hp).valid hi⟩
  start_le hp := (hlater hp).offset_le
  le_size hp := by
    have hle := ((hlater hp).valid hi).offset_le
    rwa [View.text, (hlater hp).buffer_eq] at hle
  isSuffixOf hp := (hlater hp).isSuffixOf
  placed := hplaced

theorem Parser.StaysInText.rest_valid {α : Type} {p : Parser α} {i : View} (h : p.StaysInText i) {v : α} {rest : View}
    (hp : (p.parse i).ending = .done (.success v rest)) : rest.Valid :=
  (View.startingAt_eq_ok_iff.mp (h.valid hp)).2.2

namespace Simulation

/-- Every run stands for itself, as long as it gets to no wrong place. -/
def consumption : Simulation := inPlace (fun f g => f = g ∧ ¬ f.Misplaced) False False

theorem faults_consumption : consumption.Faults := ⟨fun _ => ⟨rfl, id⟩, fun _ => ⟨rfl, id⟩⟩

theorem Similar.later {α : Type} {p : Parser α} (h : consumption.Similar p p) {i rest : View} {v : α}
    (hp : (p.parse i).ending = .done (.success v rest)) : i.Later rest := by
  have hrun := h.run i i rfl
  generalize p.parse i = r at hrun hp
  cases hrun with
  | cutLeft hS => exact hS.elim
  | cutRight hS => exact hS.elim
  | step _ hending =>
    subst hp
    cases hending with
    | done ho =>
      cases ho with
      | success _ hi _ => exact hi

theorem Similar.placed {α : Type} {p : Parser α} (h : consumption.Similar p p) {i : View} {f : Fault}
    (hp : (p.parse i).ending = .fault f) : ¬ f.Misplaced := (Similar.fault_self h hp).2

theorem Similar.staysInText {α : Type} {p : Parser α} (h : consumption.Similar p p) {i : View} (hi : i.Valid) :
    p.StaysInText i := .of_later hi h.later h.placed

end Simulation

namespace Grammar
open Simulation

theorem consumption_parserWithin (rules : Rules) (depth : Nat) (g : Grammar) :
    consumption.Similar (g.parserWithin rules depth) (g.parserWithin rules depth) :=
  similar_linksWithin reports_inPlace faults_consumption rules (.refl depth) [] g

/-- Runs of a grammar from a place of a text stay in the text, however deep they go. To match all of a text is no
    way to a wrong place either: what is left over are the bytes that follow the end of the match. -/
theorem staysInText_parserWithin (rules : Rules) (depth : Nat) (g : Grammar) {b : Buffer} {offset : Nat} {i : View}
    (hi : View.startingAt b offset = .ok i) :
    (g.parserWithin rules depth).StaysInText i ∧
    (∀ {f}, ((g.parserWithin rules depth).parseComplete b.text).ending = .fault f → ¬ f.Misplaced) ∧
    ∀ {bytes}, ((g.parserWithin rules depth).parseComplete b.text).ending = .done (.error (.unconsumed bytes)) →
      ∃ v rest, ((g.parserWithin rules depth).parse (.ofText b.text)).ending = .done (.success v rest) ∧
        rest.offset + bytes = b.text.utf8ByteSize := by
  have h := consumption_parserWithin rules depth g
  have hvalid : ∀ {v rest}, ((g.parserWithin rules depth).parse (.ofText b.text)).ending = .done (.success v rest) →
      rest.Valid := fun hp => (h.later hp).valid (View.valid_ofBuffer _)
  refine ⟨h.staysInText (View.startingAt_eq_ok_iff.mp hi).2.2, fun hf => ?_, fun hbytes => ?_⟩
  · rcases Parser.ending_parseComplete_eq_fault_iff.mp hf with hp | ⟨o, hp, ho⟩
    · exact h.placed hp
    · obtain ⟨v, rest, rfl, hremaining⟩ := Parser.remaining_of_completed_error ho
      rw [(hvalid hp).remaining_eq] at hremaining
      cases hremaining
  · obtain ⟨o, hp, ho⟩ := Parser.ending_parseComplete_eq_done_iff.mp hbytes
    obtain ⟨v, rest, rfl, hremaining⟩ := Parser.remaining_of_completed_unconsumed ho
    rw [(hvalid hp).remaining_eq] at hremaining
    cases hremaining
    refine ⟨v, rest, hp, ?_⟩
    rw [(hvalid hp).offset_add, View.text, (h.later hp).buffer_eq]
    rfl

/-- A repetition of a character of two bytes, from inside a text. -/
theorem staysInText_accents :
    View.startingAt ⟨0, "aéé b"⟩ 1 = .ok ⟨⟨0, "aéé b"⟩, 1, ['é', 'é', ' ', 'b']⟩ ∧
      ((traced (many .method (prim (.literal "é")) (.int 0) fun n _ => n)).parserWithin (fun _ => none) 0).StaysInText
        ⟨⟨0, "aéé b"⟩, 1, ['é', 'é', ' ', 'b']⟩ := by
  have hi : View.startingAt ⟨0, "aéé b"⟩ 1 = .ok ⟨⟨0, "aéé b"⟩, 1, ['é', 'é', ' ', 'b']⟩ := rfl
  exact ⟨hi, (staysInText_parserWithin (fun _ => none) 0 _ hi).1⟩

end Grammar
end ParserKit
