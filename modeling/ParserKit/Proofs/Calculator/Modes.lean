import ParserKit.Proofs.Calculator.Answer

/-! The prompt and the batch on one text. They cut it at the same places, but a line at the prompt has lost all
    carriage returns at its end, and a line of a batch at most the one before its line feed. No expression has a
    carriage return in it, so the two give the same values and report errors for the same lines, up to the first
    wish to leave, unless there is a line that still ends in a carriage return and is an expression without it
    (`modesAgree_iff`). -/

namespace ParserKit.Calculator
open Text CommandLine

/-! ### Lines that end in a carriage return -/

theorem Denotes.return_not_mem {p : Part} {w : List Char} {n : Nat} (h : Denotes p w n) : '\r' ∉ w := by
  have hnone : ¬ InAlphabet '\r' := by
    unfold InAlphabet
    decide
  exact fun hmem => hnone (h.inAlphabet '\r' hmem)

theorem isQuit_withoutReturns (line : String) : isQuit (withoutReturns line) = isQuit line := by
  rw [isQuit, trim_withoutReturns, isQuit]

theorem isBlankLine_withoutReturns (line : String) : isBlankLine (withoutReturns line) = isBlankLine line := by
  rw [isBlankLine, trim_withoutReturns, isBlankLine]

theorem answer_of_endsInReturn {line : String} (h : EndsInReturn line) (hblank : ¬ isBlankLine line = true) :
    ∃ e, answer line = .error e := by
  have herror : ∃ e, evaluate line = .error e := by
    rcases eval_reads line with ⟨n, hdenotes, -⟩ | ⟨w, u, n, -, -, -, heval⟩ | ⟨-, heval⟩
    · exact absurd (List.mem_of_getLast? h) hdenotes.return_not_mem
    · exact ⟨_, by rw [evaluate, heval]; rfl⟩
    · exact ⟨_, by rw [evaluate, heval]; rfl⟩
  obtain ⟨e, he⟩ := herror
  exact ⟨e, answer_of_error hblank he⟩

/-! ### One line -/

/-- Two answers that show the same value, if any, or are both errors. -/
def Alike (a b : Answer) : Prop := a.value? = b.value? ∧ a.isError = b.isError

/-- The carriage returns at the end of a line matter only if there is an expression before them. -/
theorem alike_or_value (line : String) :
    Alike (answer (withoutReturns line)) (answer line) ∨
      EndsInReturn line ∧ (∃ v, answer (withoutReturns line) = .value v) ∧ ∃ e, answer line = .error e := by
  by_cases hreturn : EndsInReturn line
  · by_cases hblank : isBlankLine line = true
    · rw [answer_of_blank hblank, answer_of_blank ((isBlankLine_withoutReturns line).trans hblank)]
      exact Or.inl ⟨rfl, rfl⟩
    · obtain ⟨e, he⟩ := answer_of_endsInReturn hreturn hblank
      rw [he]
      cases hanswer : answer (withoutReturns line) with
      | silent =>
        rw [← isBlankLine_withoutReturns] at hblank
        exact absurd (isBlankLine_of_silent hanswer) hblank
      | value v => exact Or.inr ⟨hreturn, ⟨v, rfl⟩, e, rfl⟩
      | error _ => exact Or.inl ⟨rfl, rfl⟩
  · rw [withoutReturns_eq_self hreturn]
    exact Or.inl ⟨rfl, rfl⟩

/-! ### Whole texts -/

/-- The answers at the prompt. -/
def promptAnswers (text : String) : List Answer :=
  (beforeQuit (lines text)).map fun line => answer (withoutReturns line)

/-- The answers of a batch to the lines that are also answered at the prompt. -/
def batchAnswers (text : String) : List Answer := (beforeQuit (lines text)).map answer

/-- The two modes show the same values, and report errors for the same lines. -/
structure ModesAgree (text : String) : Prop where
  values : (promptAnswers text).filterMap Answer.value? = (batchAnswers text).filterMap Answer.value?
  errors : (promptAnswers text).map Answer.isError = (batchAnswers text).map Answer.isError

def promptExit (text : String) : Exit where
  code := 0
  output := String.join ((promptAnswers text).map fun a => Repl.prompt ++ a.shown) ++ Repl.prompt ++
    if (lines text).any isQuit then "" else "\n"
  reports := String.join ((promptAnswers text).map Answer.complaint)

def batchExit (text : String) : Exit where
  code := if ((lines text).map answer).all fun a => !a.isError then 0 else 1
  output := String.join (((lines text).map answer).map Answer.shown)
  reports := String.join ((((lines text).map answer).zipIdx 1).map fun (a, number) => a.report number)

theorem run_repl (text : String) (file : String → Except StreamError (List Symbol)) :
    CommandLine.run ["prs", "repl"] ⟨symbols text, file⟩ = promptExit text := by
  have hempty : Console.empty.Reliable := ⟨fun _ => rfl, fun _ => rfl⟩
  have htalked := talked text.toList 0 hempty
  have hcontents : contents text.toList = (lines text).map withoutReturns := by
    rw [lines, List.map_map, contents]
    rfl
  have hbefore : beforeQuit (contents text.toList) = (beforeQuit (lines text)).map withoutReturns := by
    rw [hcontents, beforeQuit, List.takeWhile_map]
    simp only [Function.comp_def, isQuit_withoutReturns, beforeQuit]
  show exitOfLoop (repl 0 (.ofChars text.toList) .empty) = promptExit text
  rw [exitOfLoop, htalked.result]
  show Exit.mk _ _ _ = _
  rw [htalked.output, htalked.reports, hbefore, hcontents, List.any_map, List.map_map, List.map_map]
  simp only [Function.comp_def, isQuit_withoutReturns, promptExit, promptAnswers, List.map_map, Console.empty,
    String.empty_append]

theorem run_plan_of_stdin {c : Config} {w : World} {text : String} (hhelp : c.helpFlag = false)
    (hcommand : c.command = .stdin) (htext : textOf w.input = .ok text) : c.plan.run w = exitOfText text := by
  simp only [Config.plan, hhelp, hcommand, Plan.run, Plan.runOn, Reader.readAll, Except.bind, htext,
    Bool.false_eq_true, if_false]

theorem exitOfText_eq (text : String) : exitOfText text = batchExit text := by
  rw [exitOfText, ofText_eq_gathered, output_gathered, reports_gathered, allOk_gathered, batchExit]

theorem run_stdin (text : String) (file : String → Except StreamError (List Symbol)) :
    CommandLine.run ["prs", "-"] ⟨symbols text, file⟩ = batchExit text := by
  have htext : textOf (symbols text) = .ok text := by
    rw [textOf, symbols, spell?_chars, String.ofList_toList]
  rw [CommandLine.run, run_plan_of_stdin rfl rfl htext, exitOfText_eq]

theorem ModesAgree.ne_value {text line : String} (h : ModesAgree text) (hline : line ∈ beforeQuit (lines text))
    (hreturn : EndsInReturn line) (v : Int) : answer (withoutReturns line) ≠ .value v := by
  intro hv
  have herrors := h.errors
  rw [promptAnswers, batchAnswers, List.map_map, List.map_map] at herrors
  have hsame : (answer (withoutReturns line)).isError = (answer line).isError :=
    List.map_inj_left.mp herrors line hline
  have hblank : ¬ isBlankLine line = true := by
    intro hblank
    rw [← isBlankLine_withoutReturns] at hblank
    rw [answer_of_blank hblank] at hv
    cases hv
  -- a batch takes the line for an error, and at the prompt it has a value
  obtain ⟨e, he⟩ := answer_of_endsInReturn hreturn hblank
  rw [hv, he] at hsame
  cases hsame

theorem modesAgree_of_alike {text : String}
    (h : ∀ line ∈ beforeQuit (lines text), Alike (answer (withoutReturns line)) (answer line)) : ModesAgree text := by
  constructor
  · rw [promptAnswers, batchAnswers, List.filterMap_map, List.filterMap_map]
    exact List.filterMap_congr fun line hline => (h line hline).1
  · rw [promptAnswers, batchAnswers, List.map_map, List.map_map]
    exact List.map_congr_left fun line hline => (h line hline).2

/-- The prompt answers the lines before the first wish to leave, a batch answers all lines. Two answers to one line
    are alike, unless the line ends in a carriage return and is an expression without it, which a batch takes for an
    error. So the modes agree unless there is such a line. -/
theorem modesAgree_iff (text : String) (file : String → Except StreamError (List Symbol)) :
    CommandLine.run ["prs", "repl"] ⟨symbols text, file⟩ = promptExit text ∧
    CommandLine.run ["prs", "-"] ⟨symbols text, file⟩ = batchExit text ∧
    (∀ line ∈ beforeQuit (lines text), Alike (answer (withoutReturns line)) (answer line) ∨
      EndsInReturn line ∧ (∃ v, answer (withoutReturns line) = .value v) ∧ ∃ e, answer line = .error e) ∧
    (ModesAgree text ↔ ∀ line ∈ beforeQuit (lines text), EndsInReturn line →
      ∀ v, answer (withoutReturns line) ≠ .value v) := by
  refine ⟨run_repl text file, run_stdin text file, fun line _ => alike_or_value line, ?_, ?_⟩
  · intro h line hline hreturn v
    exact h.ne_value hline hreturn v
  · intro h
    refine modesAgree_of_alike fun line hline => ?_
    rcases alike_or_value line with halike | ⟨hreturn, ⟨v, hv⟩, -⟩
    · exact halike
    · exact absurd hv (h line hline hreturn v)

/-- A last line that ends in a carriage return. -/
theorem modes_disagree_return :
    CommandLine.run ["prs", "repl"] ⟨symbols "1\r", fun _ => .error .notFound⟩ = ⟨0, ">   1\n>   \n", ""⟩ ∧
    CommandLine.run ["prs", "-"] ⟨symbols "1\r", fun _ => .error .notFound⟩ =
      ⟨1, "", "Error on line 1: the input was only partially parsed, 1 bytes are left over\n"⟩ ∧
    ¬ ModesAgree "1\r" := by
  refine ⟨by decide +kernel, by decide +kernel, fun h => ?_⟩
  exact absurd h.values (by decide +kernel)

end ParserKit.Calculator
