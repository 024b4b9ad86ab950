import ParserKit.Parser.Order

/-! Results of runs one after the other, and of parsers that must match all of a text. -/

namespace ParserKit

namespace Run
variable {α β : Type}

theorem ending_andThen_eq_done_iff {r : Run α} {next : α → Run β} {b : β} :
    (r.andThen next).ending = .done b ↔ ∃ a, r.ending = .done a ∧ (next a).ending = .done b := by
  obtain ⟨events, a | f | -⟩ := r <;> simp [andThen, after]

theorem ending_andThen_eq_fault_iff {r : Run α} {next : α → Run β} {f : Fault} :
    (r.andThen next).ending = .fault f ↔
      r.ending = .fault f ∨ ∃ a, r.ending = .done a ∧ (next a).ending = .fault f := by
  obtain ⟨events, a | g | -⟩ := r <;> simp [andThen, after]

theorem ending_andThen_done_iff {r : Run α} {f : α → β} {b : β} :
    (r.andThen fun a => .done (f a)).ending = .done b ↔ ∃ a, r.ending = .done a ∧ f a = b := by
  rw [ending_andThen_eq_done_iff]
  simp only [done, Ending.done.injEq]

/-- What goes on after a run is of interest only for the result that the run has. -/
theorem andThen_congr {r : Run α} {next next' : α → Run β} (h : ∀ a, r.ending = .done a → next a = next' a) :
    r.andThen next = r.andThen next' := by
  obtain ⟨events, a | f | -⟩ := r
  · exact congrArg (Run.after events) (h a rfl)
  · rfl
  · rfl

theorem onSuccess_congr {r : Run (Outcome α)} {next next' : α → View → Run (Outcome β)}
    (h : ∀ v k, r.ending = .done (.success v k) → next v k = next' v k) : r.onSuccess next = r.onSuccess next' := by
  refine andThen_congr fun o ho => ?_
  obtain ⟨v, k⟩ | - := o
  · exact h v k ho
  · rfl

theorem ending_onSuccess_eq_success_iff {r : Run (Outcome α)} {next : α → View → Run (Outcome β)} {w : β} {k : View} :
    (r.onSuccess next).ending = .done (.success w k) ↔
      ∃ v j, r.ending = .done (.success v j) ∧ (next v j).ending = .done (.success w k) := by
  rw [onSuccess, ending_andThen_eq_done_iff]
  constructor
  · rintro ⟨⟨v, j⟩ | -, hr, hnext⟩
    · exact ⟨v, j, hr, hnext⟩
    · cases hnext
  · rintro ⟨v, j, hr, hnext⟩
    exact ⟨_, hr, hnext⟩

theorem ending_onSuccess_eq_failure_iff {r : Run (Outcome α)} {next : α → View → Run (Outcome β)} :
    (r.onSuccess next).ending = .done .failure ↔ r.ending = .done .failure ∨
      ∃ v j, r.ending = .done (.success v j) ∧ (next v j).ending = .done .failure := by
  rw [onSuccess, ending_andThen_eq_done_iff]
  constructor
  · rintro ⟨⟨v, j⟩ | -, hr, hnext⟩
    · exact Or.inr ⟨v, j, hr, hnext⟩
    · exact Or.inl hr
  · rintro (hr | ⟨v, j, hr, hnext⟩)
    · exact ⟨_, hr, rfl⟩
    · exact ⟨_, hr, hnext⟩

end Run

namespace Parser
variable {α β γ : Type}

theorem ending_combine_eq_success_iff {p : Parser α} {q : Parser β} {f : α → β → γ} {i l : View} {u : γ} :
    ((p.combine q f).parse i).ending = .done (.success u l) ↔ ∃ v k w, (p.parse i).ending = .done (.success v k) ∧
      (q.parse k).ending = .done (.success w l) ∧ f v w = u := by
  have hcombine : (p.combine q f).parse i =
      (p.parse i).onSuccess fun v k => (q.parse k).onSuccess fun w l => .done (.success (f v w) l) := rfl
  rw [hcombine]
  simp only [Run.ending_onSuccess_eq_success_iff]
  constructor
  · rintro ⟨v, k, hv, w, l', hw, hdone⟩
    cases hdone
    exact ⟨v, k, w, hv, hw, rfl⟩
  · rintro ⟨v, k, w, hv, hw, rfl⟩
    exact ⟨v, k, hv, w, l, hw, rfl⟩

/-- What is left over is counted from the end of a success. -/
theorem remaining_of_completed_unconsumed {o : Outcome α} {bytes : Nat}
    (h : completed o = .ok (.error (.unconsumed bytes))) :
    ∃ v rest, o = .success v rest ∧ rest.remaining = .ok bytes := by
  rcases o with ⟨v, rest⟩ | -
  · refine ⟨v, rest, rfl, ?_⟩
    rw [completed] at h
    split at h
    · cases h
    · rcases hr : rest.remaining with f | n <;> rw [hr] at h <;> cases h
      rfl
  · cases h

theorem remaining_of_completed_error {o : Outcome α} {f : Fault} (h : completed o = .error f) :
    ∃ v rest, o = .success v rest ∧ rest.remaining = .error f := by
  rcases o with ⟨v, rest⟩ | -
  · refine ⟨v, rest, rfl, ?_⟩
    rw [completed] at h
    split at h
    · cases h
    · rcases hr : rest.remaining with g | n <;> rw [hr] at h <;> cases h
      rfl
  · cases h

theorem ending_parseComplete_eq_done_iff {p : Parser α} {text : String} {x : Except ParseError α} :
    (p.parseComplete text).ending = .done x ↔
      ∃ o, (p.parse (.ofText text)).ending = .done o ∧ completed o = .ok x := by
  have hresult : ∀ o : Outcome α, (Run.ofExcept (completed o)).ending = .done x ↔ completed o = .ok x := by
    intro o
    rcases completed o with f | y <;> simp [Run.ofExcept, Run.done, Run.raise]
  rw [parseComplete, Run.ending_andThen_eq_done_iff]
  simp only [hresult]

theorem ending_parseComplete_eq_fault_iff {p : Parser α} {text : String} {f : Fault} :
    (p.parseComplete text).ending = .fault f ↔ (p.parse (.ofText text)).ending = .fault f ∨
      ∃ o, (p.parse (.ofText text)).ending = .done o ∧ completed o = .error f := by
  have hresult : ∀ o : Outcome α, (Run.ofExcept (completed o)).ending = .fault f ↔ completed o = .error f := by
    intro o
    rcases completed o with g | y <;> simp [Run.ofExcept, Run.done, Run.raise]
  rw [parseComplete, Run.ending_andThen_eq_fault_iff]
  simp only [hresult]

end Parser
end ParserKit
