import ParserKit.View
import ParserKit.Run

/-! Outcomes. Running a parser either gives a value and the view after what it consumed, or it fails. A
    failure carries nothing: there is no rest to look at and no reason to report. -/

namespace ParserKit

inductive Outcome (α : Type) where
  | success (value : α) (rest : View)
  | failure
deriving DecidableEq

namespace Outcome
variable {α β : Type}

def isSuccess : Outcome α → Bool
  | success .. => true
  | failure => false

def isFailure : Outcome α → Bool
  | success .. => false
  | failure => true

def map (f : α → β) : Outcome α → Outcome β
  | success value rest => success (f value) rest
  | failure => failure

def toOption : Outcome α → Option (α × View)
  | success value rest => some (value, rest)
  | failure => none

def ofOption : Option (α × View) → Outcome α
  | some (value, rest) => success value rest
  | none => failure

def value (o : Outcome α) : Option α := o.toOption.map (·.1)

def remainder (o : Outcome α) : Option View := o.toOption.map (·.2)

/-- The value, with the rest of the text instead of the view. -/
def toPair (o : Outcome α) : Option (α × String) := o.toOption.map fun (value, rest) => (value, rest.restText)

/-- Both fail, or both succeed with the same value at the same place of the same text. -/
def agrees [BEq α] : Outcome α → Outcome α → Bool
  | success v i, success w j => v == w && i.agrees j
  | failure, failure => true
  | _, _ => false

/-- An outcome shown with its value written by `showValue`. -/
def debug (showValue : α → String) : Outcome α → String
  | success value rest => "Success(" ++ showValue value ++ ", " ++ rest.debug ++ ")"
  | failure => "Failure"

/-! ### Laws -/

@[simp] theorem map_id (o : Outcome α) : o.map id = o := by cases o <;> rfl

@[simp] theorem map_map {γ : Type} (f : α → β) (g : β → γ) (o : Outcome α) :
    (o.map f).map g = o.map (g ∘ f) := by cases o <;> rfl

@[simp] theorem ofOption_toOption (o : Outcome α) : ofOption o.toOption = o := by cases o <;> rfl

@[simp] theorem toOption_ofOption (p : Option (α × View)) : (ofOption p).toOption = p := by
  rcases p with _ | ⟨v, i⟩ <;> rfl

end Outcome

/-! ### Runs that end in outcomes -/

namespace Run
variable {α β : Type}

/-- Goes on with the value and the rest of a success; a failure stays a failure. -/
def onSuccess (r : Run (Outcome α)) (next : α → View → Run (Outcome β)) : Run (Outcome β) :=
  r.andThen fun
    | .success value rest => next value rest
    | .failure => done .failure

/-- Goes on after a failure; a success stays as it is, and then `other` never runs. -/
def onFailure (r : Run (Outcome α)) (other : Unit → Run (Outcome α)) : Run (Outcome α) :=
  r.andThen fun
    | .success value rest => done (.success value rest)
    | .failure => other ()

end Run
end ParserKit
