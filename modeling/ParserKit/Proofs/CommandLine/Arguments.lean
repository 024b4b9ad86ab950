import Mathlib.Logic.Relation
import ParserKit.CommandLine

/-! Reading the arguments. Help flags are taken out wherever they stand after the first argument, and what is left over
    names the command and can be read off it again (`Command.operands`). So the arguments after the first mean the same
    command exactly if they differ in nothing but help flags, and with a help flag among them the program shows how it
    is used, whatever the command is (`arguments_kept`). -/

namespace ParserKit.CommandLine
variable {rest rest' items : List String}

/-! ### Operands -/

def HelpFlag (arg : String) : Prop := arg = "-h" ∨ arg = "--help"

instance : DecidablePred HelpFlag := fun arg => inferInstanceAs (Decidable (arg = "-h" ∨ arg = "--help"))

/-- The arguments after the first one, without the help flags. -/
def operands (args : List String) : List String := (args.drop 1).filter fun arg => ¬ HelpFlag arg

/-- The arguments that a command is read from. -/
def Command.operands : Command → List String
  | stdin => ["-"]
  | repl => ["repl"]
  | file path => [path]
  | error args => args

/-- The command that a single argument names. -/
inductive Names : String → Command → Prop
  | stdin : Names "-" .stdin
  | repl : Names "repl" .repl
  | file {path} : path ≠ "-" → path ≠ "repl" → Names path (.file path)

theorem isHelpFlag_eq (arg : String) : isHelpFlag arg = decide (HelpFlag arg) := by
  rw [Bool.eq_iff_iff, decide_eq_true_iff, isHelpFlag, Bool.or_eq_true, beq_iff_eq, beq_iff_eq, HelpFlag]

theorem command_ofArgs (args : List String) : (Config.ofArgs args).command = .ofArgs (operands args) := by
  simp only [Config.ofArgs, isHelpFlag_eq, operands, decide_not]

theorem helpFlag_ofArgs_iff (args : List String) :
    (Config.ofArgs args).helpFlag = true ↔ operands args ≠ args.drop 1 := by
  simp [Config.ofArgs, operands, isHelpFlag_eq, List.filter_eq_self]

theorem operands_ofArgs (rest : List String) : (Command.ofArgs rest).operands = rest := by
  unfold Command.ofArgs
  split <;> rfl

/-- Different operands mean different commands. -/
theorem ofArgs_injective : Function.Injective Command.ofArgs := Function.LeftInverse.injective operands_ofArgs

theorem names_ofArgs (arg : String) : Names arg (.ofArgs [arg]) := by
  unfold Command.ofArgs
  split
  next h =>
    cases h
    exact .stdin
  next h =>
    cases h
    exact .repl
  next hstdin hrepl h =>
    cases h
    exact .file (by simpa using hstdin) (by simpa using hrepl)
  next h => exact absurd rfl (h arg)

theorem ofArgs_eq_error_iff : Command.ofArgs rest = .error items ↔ items = rest ∧ rest.length ≠ 1 := by
  constructor
  · intro h
    have hitems : items = rest := by rw [← operands_ofArgs rest, h, Command.operands]
    refine ⟨hitems, fun hlength => ?_⟩
    obtain ⟨arg, rfl⟩ := List.length_eq_one_iff.mp hlength
    have hnames := names_ofArgs arg
    rw [h] at hnames
    cases hnames
  · rintro ⟨rfl, hlength⟩
    unfold Command.ofArgs
    split
    case h_4 => rfl
    all_goals exact absurd rfl hlength

/-! ### More flags and fewer -/

/-- There is one more help flag, at any place. -/
inductive OneMoreFlag : List String → List String → Prop
  | intro (before after : List String) {flag : String} : HelpFlag flag →
      OneMoreFlag (before ++ after) (before ++ flag :: after)

theorem OneMoreFlag.cons (arg : String) (h : OneMoreFlag rest rest') : OneMoreFlag (arg :: rest) (arg :: rest') := by
  obtain ⟨before, after, hflag⟩ := h
  exact .intro (arg :: before) after hflag

theorem OneMoreFlag.operands_eq (h : OneMoreFlag rest rest') (first first' : String) :
    operands (first :: rest) = operands (first' :: rest') := by
  obtain ⟨before, after, hflag⟩ := h
  simp [operands, hflag]

/-- The same arguments up to help flags, which may be put in and taken out at any places. -/
abbrev SameUpToFlags : List String → List String → Prop := Relation.EqvGen OneMoreFlag

theorem SameUpToFlags.cons (arg : String) (h : SameUpToFlags rest rest') :
    SameUpToFlags (arg :: rest) (arg :: rest') := by
  induction h with
  | rel _ _ h => exact .rel _ _ (h.cons arg)
  | refl rest => exact .refl (arg :: rest)
  | symm _ _ _ ih => exact .symm _ _ ih
  | trans _ _ _ _ _ ih ih' => exact .trans _ _ _ ih ih'

theorem SameUpToFlags.operands_eq (h : SameUpToFlags rest rest') (first first' : String) :
    operands (first :: rest) = operands (first' :: rest') := by
  induction h generalizing first first' with
  | rel _ _ h => exact h.operands_eq first first'
  | refl _ => rfl
  | symm _ _ _ ih => exact (ih first' first).symm
  | trans _ _ _ _ _ ih ih' => exact (ih first first).trans (ih' first first')

/-- All help flags can be taken out. -/
theorem sameUpToFlags_operands (first : String) (rest : List String) :
    SameUpToFlags (operands (first :: rest)) rest := by
  induction rest with
  | nil => exact .refl []
  | cons arg rest ih =>
    by_cases hflag : HelpFlag arg
    · have hmore : OneMoreFlag rest (arg :: rest) := .intro [] rest hflag
      rw [← hmore.operands_eq first first]
      exact ih.trans _ _ _ (.rel _ _ hmore)
    · have hoperands : operands (first :: arg :: rest) = arg :: operands (first :: rest) := by
        simp [operands, hflag]
      rw [hoperands]
      exact ih.cons arg

theorem operands_eq_iff {first first' : String} :
    operands (first :: rest) = operands (first' :: rest') ↔ SameUpToFlags rest rest' := by
  constructor
  · intro h
    have hrest := sameUpToFlags_operands first rest
    rw [h] at hrest
    exact .trans _ _ _ (.symm _ _ hrest) (sameUpToFlags_operands first' rest')
  · exact fun h => h.operands_eq first first'

/-! ### Configurations -/

/-- What a configuration says of its arguments. -/
structure Keeps (args : List String) (c : Config) : Prop where
  /-- The flag is set if anything was taken out. -/
  helpFlag_iff : c.helpFlag = true ↔ operands args ≠ args.drop 1
  operands_eq : c.command.operands = operands args
  error_iff : ∀ items, c.command = .error items ↔ items = operands args ∧ (operands args).length ≠ 1
  names : ∀ arg, operands args = [arg] → Names arg c.command
  /-- Nothing is read for the plan of a configuration with the flag. -/
  help : c.helpFlag = true → c.plan = .finish ⟨0, usage ++ "\n", ""⟩

theorem keeps_ofArgs (args : List String) : Keeps args (.ofArgs args) where
  helpFlag_iff := helpFlag_ofArgs_iff args
  operands_eq := by rw [command_ofArgs, operands_ofArgs]
  error_iff := fun items => by rw [command_ofArgs, ofArgs_eq_error_iff]
  names := fun arg h => by
    rw [command_ofArgs, h]
    exact names_ofArgs arg
  help := fun h => by rw [Config.plan, if_pos h]

/-- Reading the arguments loses nothing but the number and the places of the help flags. The first argument is only
    the name of the program, and a help flag after it decides what the program does. -/
theorem arguments_kept :
    (∀ args, Keeps args (.ofArgs args)) ∧
    (∀ first first' rest rest', (Config.ofArgs (first :: rest)).command = (Config.ofArgs (first' :: rest')).command ↔
      SameUpToFlags rest rest') ∧
    (∀ first first' rest,
      Config.ofArgs (first :: rest) = { Config.ofArgs (first' :: rest) with executableName := first }) ∧
    (∀ args, (Config.ofArgs args).helpFlag = true → ∀ stdin file, runOn args stdin file = ⟨0, usage ++ "\n", ""⟩) := by
  refine ⟨keeps_ofArgs, fun first first' rest rest' => ?_, fun _ _ _ => rfl, fun args h stdin file => ?_⟩
  · rw [command_ofArgs, command_ofArgs, ofArgs_injective.eq_iff, operands_eq_iff]
  · rw [runOn, (keeps_ofArgs args).help h, Plan.runOn]

example : Config.ofArgs ["-h", "a", "--help", "b", "-h"] = ⟨.error ["a", "b"], "-h", true⟩ := by decide

end ParserKit.CommandLine
