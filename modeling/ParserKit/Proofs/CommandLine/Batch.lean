import ParserKit.Proofs.Calculator.Modes

/-! The program over a whole text, which it takes from a file or from the standard input. If the bytes are those of a
    text, the lines that are not blank are evaluated: their values are the output, and each of the others is reported
    with its error and its number (`Evaluates`). If they are not, nothing is evaluated (`batch_evaluates`). -/

namespace ParserKit.CommandLine
open Text Calculator

/-! ### What is read -/

/-- What is around a run of the program, in bytes. -/
structure Surroundings where
  input : List UInt8
  /-- The error that follows the bytes of the standard input, if any. -/
  failure : Option StreamError
  file : String → Except StreamError (List UInt8)

def runIn (args : List String) (s : Surroundings) : Exit :=
  runOn args ⟨decode s.input, s.failure⟩ fun path => (s.file path).map decode

/-- Where a program with these arguments takes its text from, and the bytes or the error that it finds there. -/
inductive Reads (s : Surroundings) : List String → Except StreamError (List UInt8) → Prop
  | input (first : String) : s.failure = none → Reads s [first, "-"] (.ok s.input)
  | failure (first : String) {e} : s.failure = some e → Reads s [first, "-"] (.error e)
  | file (first : String) {path} : path ∉ ["-", "repl", "-h", "--help"] → Reads s [first, path] (s.file path)

/-! ### What is made of the lines -/

/-- The values of the lines and the errors of the lines, which are numbered from some number on. A blank line has
    neither, but it counts. -/
inductive Evaluates : Nat → List String → List Int → List (Nat × ParseError) → Prop
  | nil {number} : Evaluates number [] [] []
  | blank {number line lines values errors} : isBlankLine line = true →
      Evaluates (number + 1) lines values errors → Evaluates number (line :: lines) values errors
  | value {number line lines values errors v} : ¬ isBlankLine line = true → (eval line).ending = .done (.ok v) →
      Evaluates (number + 1) lines values errors → Evaluates number (line :: lines) (v :: values) errors
  | error {number line lines values errors e} : ¬ isBlankLine line = true → (eval line).ending = .done (.error e) →
      Evaluates (number + 1) lines values errors → Evaluates number (line :: lines) values ((number, e) :: errors)

/-- The values, one a line. -/
def outputOf (values : List Int) : String := String.join (values.map fun v => toString v ++ "\n")

/-- The errors, one a line. -/
def reportsOf (errors : List (Nat × ParseError)) : String :=
  String.join (errors.map fun (number, e) => "Error on line " ++ toString number ++ ": " ++ e.message ++ "\n")

/-- How the program ends when it has evaluated the lines of a text. -/
structure Batched (text : String) (exit : Exit) : Prop where
  exists_results : ∃ values errors, Evaluates 1 (lines text) values errors ∧
    exit.output = outputOf values ∧ exit.reports = reportsOf errors
  code_eq_zero_iff : exit.code = 0 ↔
    ∀ line ∈ lines text, ¬ isBlankLine line = true → ∃ v, (eval line).ending = .done (.ok v)
  code : exit.code = 0 ∨ exit.code = 1
  /-- Whatever a line is, the lines before it and after it come to the same. -/
  apart : ∀ before line after, lines text = before ++ line :: after → ∃ values errors values' errors',
    Evaluates 1 before values errors ∧ Evaluates (before.length + 2) after values' errors' ∧
    exit.output = outputOf values ++ (answer line).shown ++ outputOf values' ∧
    exit.reports = reportsOf errors ++ (answer line).report (before.length + 1) ++ reportsOf errors'

section
variable {number : Nat} {ls : List String} {values : List Int} {errors : List (Nat × ParseError)} {text : String}

theorem exists_evaluates (number : Nat) (ls : List String) : ∃ values errors, Evaluates number ls values errors := by
  induction ls generalizing number with
  | nil => exact ⟨[], [], .nil⟩
  | cons line ls ih =>
    obtain ⟨values, errors, hlater⟩ := ih (number + 1)
    by_cases hblank : isBlankLine line = true
    · exact ⟨values, errors, .blank hblank hlater⟩
    · cases heval : evaluate line with
      | ok v => exact ⟨v :: values, errors, .value hblank (evaluate_eq_iff.mp heval) hlater⟩
      | error e => exact ⟨values, (number, e) :: errors, .error hblank (evaluate_eq_iff.mp heval) hlater⟩

theorem outputOf_cons (v : Int) (values : List Int) :
    outputOf (v :: values) = (Answer.value v).shown ++ outputOf values := by
  rw [outputOf, List.map_cons, String.join_cons, outputOf, Answer.shown]

theorem reportsOf_cons (number : Nat) (e : ParseError) (errors : List (Nat × ParseError)) :
    reportsOf ((number, e) :: errors) = (Answer.error e).report number ++ reportsOf errors := by
  rw [reportsOf, List.map_cons, String.join_cons, reportsOf, Answer.report_error]

theorem Evaluates.outputOf_eq (h : Evaluates number ls values errors) :
    outputOf values = String.join (ls.map fun line => (answer line).shown) := by
  induction h with
  | nil => rfl
  | blank hblank _ ih => simp [ih, answer_of_blank hblank, Answer.shown]
  | value _ hv _ ih => rw [outputOf_cons, ih, List.map_cons, String.join_cons, answer_eq_value_iff.mpr hv]
  | error hblank he _ ih => simp [ih, answer_of_ending hblank he, Answer.shown]

theorem Evaluates.reportsOf_eq (h : Evaluates number ls values errors) :
    reportsOf errors = String.join ((ls.zipIdx number).map fun (line, number) => (answer line).report number) := by
  induction h with
  | nil => rfl
  | blank hblank _ ih => simp [ih, answer_of_blank hblank]
  | value _ hv _ ih => simp [ih, answer_eq_value_iff.mpr hv]
  | error hblank he _ ih => simp [reportsOf_cons, ih, answer_of_ending hblank he]

theorem not_isError_iff {line : String} : (answer line).isError = false ↔
    (¬ isBlankLine line = true → ∃ v, (eval line).ending = .done (.ok v)) := by
  constructor
  · intro h hblank
    cases hanswer : answer line with
    | silent => exact absurd (isBlankLine_of_silent hanswer) hblank
    | value v => exact ⟨v, answer_eq_value_iff.mp hanswer⟩
    | error e =>
      rw [hanswer] at h
      cases h
  · intro h
    by_cases hblank : isBlankLine line = true
    · rw [answer_of_blank hblank]
      rfl
    · obtain ⟨v, hv⟩ := h hblank
      rw [answer_eq_value_iff.mpr hv]
      rfl

/-! ### Whole texts -/

theorem code_exitOfText (text : String) :
    (exitOfText text).code = if ((lines text).map answer).all fun a => !a.isError then 0 else 1 := by
  rw [exitOfText_eq, batchExit]

theorem output_exitOfText (text : String) :
    (exitOfText text).output = String.join ((lines text).map fun line => (answer line).shown) := by
  simp only [exitOfText_eq, batchExit, List.map_map, Function.comp_def]

theorem reports_exitOfText (text : String) : (exitOfText text).reports =
    String.join (((lines text).zipIdx 1).map fun (line, number) => (answer line).report number) := by
  simp only [exitOfText_eq, batchExit, List.zipIdx_map, List.map_map, Function.comp_def, Prod.map, id_eq]

theorem batched_exitOfText (text : String) : Batched text (exitOfText text) where
  exists_results := by
    obtain ⟨values, errors, h⟩ := exists_evaluates 1 (lines text)
    exact ⟨values, errors, h, (output_exitOfText text).trans h.outputOf_eq.symm,
      (reports_exitOfText text).trans h.reportsOf_eq.symm⟩
  code_eq_zero_iff := by
    rw [code_exitOfText]
    simp [not_isError_iff]
  code := by
    rw [code_exitOfText]
    split
    · exact Or.inl rfl
    · exact Or.inr rfl
  apart before line after hlines := by
    obtain ⟨values, errors, hbefore⟩ := exists_evaluates 1 before
    obtain ⟨values', errors', hafter⟩ := exists_evaluates (before.length + 2) after
    refine ⟨values, errors, values', errors', hbefore, hafter, ?_, ?_⟩
    · rw [output_exitOfText, hlines, hbefore.outputOf_eq, hafter.outputOf_eq]
      simp [String.append_assoc]
    · rw [reports_exitOfText, hlines, hbefore.reportsOf_eq, hafter.reportsOf_eq]
      simp [List.zipIdx_append, List.zipIdx_cons, String.append_assoc, Nat.add_comm 1 before.length]

end

/-! ### Whole runs -/

section
variable {args : List String} {s : Surroundings} {content : Except StreamError (List UInt8)} {first path : String}

theorem textOf_decode_eq_ok_iff {bytes : List UInt8} {text : String} :
    textOf (decode bytes) = .ok text ↔ bytes = text.toUTF8.data.toList := by
  rw [← decode_eq_symbols_iff, ← spell?_eq_some_iff, textOf]
  cases spell? (decode bytes) <;> simp

theorem runIn_stdin (first : String) (s : Surroundings) : runIn [first, "-"] s =
    match (Reader.mk (decode s.input) s.failure).readAll.bind textOf with
    | .ok text => exitOfText text
    | .error e => exitOfError e := rfl

theorem runIn_file (first : String) (s : Surroundings) (h : path ∉ ["-", "repl", "-h", "--help"]) :
    runIn [first, path] s =
      match ((s.file path).map decode).bind textOf with
      | .ok text => exitOfText text
      | .error e => exitOfFileError path e := by
  obtain ⟨hstdin, hrepl, hflag⟩ : path ≠ "-" ∧ path ≠ "repl" ∧ isHelpFlag path = false := by
    simpa [isHelpFlag] using h
  have hconfig : Config.ofArgs [first, path] = ⟨.file path, first, false⟩ := by
    simp [Config.ofArgs, hflag, Command.ofArgs]
  rw [runIn, runOn, hconfig]
  rfl

/-- The program evaluates what it reads if that is a text, and otherwise leaves without any output. -/
theorem Reads.exists_exit (h : Reads s args content) :
    ∃ failed : StreamError → Exit, (∀ e, (failed e).output = "" ∧ (failed e).code = 1) ∧
      runIn args s =
        match (content.map decode).bind textOf with
        | .ok text => exitOfText text
        | .error e => failed e := by
  cases h with
  | input first hfailure =>
    refine ⟨exitOfError, fun _ => ⟨rfl, rfl⟩, ?_⟩
    rw [runIn_stdin, Reader.readAll, hfailure]
    rfl
  | failure first hfailure =>
    refine ⟨exitOfError, fun _ => ⟨rfl, rfl⟩, ?_⟩
    rw [runIn_stdin, Reader.readAll, hfailure]
    rfl
  | file first hpath => exact ⟨exitOfFileError _, fun _ => ⟨rfl, rfl⟩, runIn_file first s hpath⟩

/-- A text is evaluated line by line, wherever it comes from. What is no text, or cannot be read, is not evaluated. -/
theorem batch_evaluates (h : Reads s args content) :
    (∀ text : String, content = .ok text.toUTF8.data.toList → Batched text (runIn args s)) ∧
    ((∀ text : String, content ≠ .ok text.toUTF8.data.toList) →
      (runIn args s).output = "" ∧ (runIn args s).code = 1) := by
  obtain ⟨failed, hfailed, hrun⟩ := h.exists_exit
  constructor
  · rintro text rfl
    have htext : textOf (decode text.toUTF8.data.toList) = .ok text := textOf_decode_eq_ok_iff.mpr rfl
    rw [hrun]
    simp only [Except.map, Except.bind, htext]
    exact batched_exitOfText text
  · intro hnone
    cases hread : (content.map decode).bind textOf with
    | error e =>
      rw [hrun, hread]
      exact hfailed e
    | ok text =>
      cases content with
      | error e => cases hread
      | ok bytes => exact absurd (congrArg Except.ok (textOf_decode_eq_ok_iff.mp hread)) (hnone text)

/-- A file with lines of every kind, and a standard input that ends inside a character. -/
theorem batch_evaluates_mixed :
    (Reads ⟨[0x31, 0xC3], none, fun _ => .ok "2*3\n\n1 +\r\n 7 ".toUTF8.data.toList⟩ ["prs", "sums"]
        (.ok "2*3\n\n1 +\r\n 7 ".toUTF8.data.toList) ∧
      Batched "2*3\n\n1 +\r\n 7 "
        (runIn ["prs", "sums"] ⟨[0x31, 0xC3], none, fun _ => .ok "2*3\n\n1 +\r\n 7 ".toUTF8.data.toList⟩)) ∧
    Reads ⟨[0x31, 0xC3], none, fun _ => .error .notFound⟩ ["prs", "-"] (.ok [0x31, 0xC3]) ∧
      (∀ text : String, [0x31, 0xC3] ≠ text.toUTF8.data.toList) ∧
      (runIn ["prs", "-"] ⟨[0x31, 0xC3], none, fun _ => .error .notFound⟩).code = 1 := by
  have hfile : Reads ⟨[0x31, 0xC3], none, fun _ => .ok "2*3\n\n1 +\r\n 7 ".toUTF8.data.toList⟩ ["prs", "sums"]
      (.ok "2*3\n\n1 +\r\n 7 ".toUTF8.data.toList) := .file "prs" (by decide)
  have hstdin : Reads ⟨[0x31, 0xC3], none, fun _ => .error .notFound⟩ ["prs", "-"] (.ok [0x31, 0xC3]) :=
    .input "prs" rfl
  have hjunk : textOf (decode [0x31, 0xC3]) = .error .notText := by decide +kernel
  have hnone : ∀ text : String, [0x31, 0xC3] ≠ text.toUTF8.data.toList := by
    intro text htext
    rw [textOf_decode_eq_ok_iff.mpr htext] at hjunk
    cases hjunk
  refine ⟨⟨hfile, (batch_evaluates hfile).1 _ rfl⟩, hstdin, hnone, ?_⟩
  exact ((batch_evaluates hstdin).2 fun text h => hnone text (Except.ok.inj h)).2

end
end ParserKit.CommandLine
