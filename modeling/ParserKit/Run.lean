import ParserKit.Event
import ParserKit.Fault

/-! Runs. A run is what executing a parser amounts to: the events in the order they happened, and how the
    run ended. It is plain data, so two runs can be compared for equality. A run is finished when it has a
    result or a fault; an unfinished run was cut off because its allowance of recursive calls was used up,
    and says nothing about what a longer one would do. -/

namespace ParserKit

inductive Ending (α : Type) where
  | done (result : α)
  | fault (f : Fault)
  | unfinished
deriving DecidableEq

structure Run (α : Type) where
  events : List Event
  ending : Ending α
deriving DecidableEq

namespace Run
variable {α β γ : Type}

/-! ### Building runs -/

def done (result : α) : Run α := ⟨[], .done result⟩

def raise (f : Fault) : Run α := ⟨[], .fault f⟩

/-- The run that may not even start. -/
def cut : Run α := ⟨[], .unfinished⟩

def emit (e : Event) : Run Unit := ⟨[e], .done ()⟩

def ofExcept : Except Fault α → Run α
  | .ok a => done a
  | .error f => raise f

/-- Some events and then others. Most stretches of a run have no events, and then the others stay as they
    are. -/
def join : List Event → List Event → List Event
  | [], fs => fs
  | es, [] => es
  | es, fs => es ++ fs

@[simp] theorem join_eq_append (es fs : List Event) : join es fs = es ++ fs := by
  cases es <;> cases fs <;> simp [join]

/-- The same run with more events before it. -/
def after (before : List Event) (r : Run α) : Run α := ⟨join before r.events, r.ending⟩

/-- One run after the other. A run that does not have a result is the end of both. -/
def andThen (r : Run α) (next : α → Run β) : Run β :=
  match r.ending with
  | .done a => (next a).after r.events
  | .fault f => ⟨r.events, .fault f⟩
  | .unfinished => ⟨r.events, .unfinished⟩

instance : Monad Run where
  pure := done
  bind := andThen

/-! ### Results -/

def result? (r : Run α) : Option α :=
  match r.ending with
  | .done a => some a
  | _ => none

/-! ### Laws -/

@[simp] theorem after_nil (r : Run α) : r.after [] = r := rfl

@[simp] theorem after_after (es fs : List Event) (r : Run α) : (r.after fs).after es = r.after (es ++ fs) := by
  simp [after]

@[simp] theorem done_andThen (a : α) (next : α → Run β) : (done a).andThen next = next a := rfl

@[simp] theorem andThen_done (r : Run α) : r.andThen done = r := by
  rcases r with ⟨es, _ | _ | _⟩ <;> simp [andThen, done, after]

@[simp] theorem after_andThen (es : List Event) (r : Run α) (next : α → Run β) :
    (r.after es).andThen next = (r.andThen next).after es := by
  rcases r with ⟨fs, _ | _ | _⟩ <;> simp [andThen, after]

theorem andThen_assoc (r : Run α) (f : α → Run β) (g : β → Run γ) :
    (r.andThen f).andThen g = r.andThen fun a => (f a).andThen g := by
  rcases r with ⟨es, a | _ | _⟩
  · simp only [andThen]
    exact after_andThen es (f a) g
  · rfl
  · rfl

instance : LawfulMonad Run :=
  LawfulMonad.mk' Run (fun r => andThen_done r) (fun a f => done_andThen a f) andThen_assoc

end Run
end ParserKit
