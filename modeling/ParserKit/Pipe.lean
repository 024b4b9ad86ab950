import ParserKit.Parser.Basic

/-! Left-to-right application. A function whose first argument is its subject can be given the others
    first; it is then a pending call, and piping a subject into it completes it. Chains of combinators can
    so be written in the order in which they apply. The arguments after the subject are a tuple that ends
    with `()`. -/

namespace ParserKit

class Feeds (F : Type) (Args : Type) (Out : outParam Type) where
  feed : F → Args → Out

namespace Feeds

instance {Out : Type} : Feeds Out Unit Out where
  feed out _ := out

instance {A F Args Out : Type} [Feeds F Args Out] : Feeds (A → F) (A × Args) Out where
  feed f args := feed (f args.1) args.2

end Feeds

open Feeds (feed)

/-- A function prepared for being given its subject last. -/
structure Piped (Subject F : Type) where
  func : Subject → F

/-- A call that only misses its subject. -/
structure Pending (Subject F Args : Type) where
  func : Subject → F
  args : Args

namespace Piped
variable {Subject F Args Out : Type}

/-- Calls the function with its subject and all other arguments. -/
def call [Feeds F Args Out] (f : Piped Subject F) (subject : Subject) (args : Args) : Out :=
  feed (f.func subject) args

def supply (f : Piped Subject F) (args : Args) : Pending Subject F Args := ⟨f.func, args⟩

def inner (f : Piped Subject F) : Subject → F := f.func

end Piped

def piped {Subject F : Type} (func : Subject → F) : Piped Subject F := ⟨func⟩

namespace Pending
variable {Subject F Args Out : Type}

def run [Feeds F Args Out] (stage : Pending Subject F Args) (subject : Subject) : Out :=
  feed (stage.func subject) stage.args

end Pending

def pipe {Subject F Args Out : Type} [Feeds F Args Out] (subject : Subject) (stage : Pending Subject F Args) :
    Out :=
  stage.run subject

/-- For parsers, a bar is a pipe. -/
instance {α F Args Out : Type} [Feeds F Args Out] : HOr (Parser α) (Pending (Parser α) F Args) Out where
  hOr p stage := pipe p stage

/-! ### Ways to write an application -/

/-- A combinator as it is offered: a function of the subject and then all other arguments, and a method of the
    subject. -/
structure Combinator (α F : Type) where
  function : Parser α → F
  method : Parser α → F

/-- The method makes the same of all arguments as the function. -/
class Combinator.Uniform {α F : Type} (c : Combinator α F) : Prop where
  method_eq : ∀ p, c.method p = c.function p

/-- The ways in which a combinator can be applied to its subject and its other arguments. -/
inductive Surface where
  | function
  | method
  | pipe
  | bar
  | call
deriving DecidableEq

/-- Applies a combinator to the subject `p` and the arguments `args` in the given way. -/
def Surface.use {α F Args Out : Type} [Feeds F Args Out] (via : Surface) (c : Combinator α F) (p : Parser α)
    (args : Args) : Out :=
  match via with
  | function => feed (c.function p) args
  | method => feed (c.method p) args
  | pipe => ParserKit.pipe p ((piped c.function).supply args)
  | bar => p ||| (piped c.function).supply args
  | call => (piped c.function).call p args

theorem Surface.use_eq {α F Args Out : Type} [Feeds F Args Out] (via : Surface) (c : Combinator α F) [c.Uniform]
    (p : Parser α) (args : Args) : via.use c p args = feed (c.function p) args := by
  cases via with
  | method => exact congrArg (fun f => feed f args) (Combinator.Uniform.method_eq p)
  | function | pipe | bar | call => rfl

end ParserKit
