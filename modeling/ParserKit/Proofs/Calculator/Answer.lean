import ParserKit.CommandLine
import ParserKit.Proofs.Calculator.Evaluation
import ParserKit.Proofs.Repl.Loop

/-! What the calculator has to say about a line (`answer`), and where that is shown. At the prompt, the lines before
    the first wish to leave are answered, each without the carriage returns at its end (`talked`). A batch answers
    all lines of its text, and gives the number of a line with an error (`ofText_eq_gathered`). -/

namespace ParserKit.Calculator
open Text

/-! ### Answers -/

inductive Answer where
  /-- Nothing is said about a blank line. -/
  | silent
  | value (v : Int)
  | error (e : ParseError)
deriving DecidableEq

namespace Answer

def value? : Answer → Option Int
  | value v => some v
  | _ => none

def result? : Answer → Option (Except ParseError Int)
  | silent => none
  | value v => some (.ok v)
  | error e => some (.error e)

def isError : Answer → Bool
  | error _ => true
  | _ => false

def shown : Answer → String
  | value v => toString v ++ "\n"
  | _ => ""

/-- What is reported about a line at the prompt. -/
def complaint : Answer → String
  | error e => "Error: " ++ e.message ++ "\n"
  | _ => ""

/-- What is reported about a line of a batch. -/
def report (number : Nat) : Answer → String
  | error e => "Error on line " ++ toString number ++ ": " ++ e.message ++ "\n"
  | _ => ""

@[simp] theorem report_silent (number : Nat) : silent.report number = "" := rfl

@[simp] theorem report_value (number : Nat) (v : Int) : (value v).report number = "" := rfl

theorem report_error (number : Nat) (e : ParseError) :
    (error e).report number = "Error on line " ++ toString number ++ ": " ++ e.message ++ "\n" := rfl

end Answer

def answer (line : String) : Answer :=
  if isBlankLine line then .silent
  else
    match evaluate line with
    | .ok v => .value v
    | .error e => .error e

theorem answer_of_blank {line : String} (h : isBlankLine line = true) : answer line = .silent := if_pos h

theorem isBlankLine_of_silent {line : String} (h : answer line = .silent) : isBlankLine line = true := by
  by_contra hblank
  rw [answer, if_neg hblank] at h
  split at h <;> cases h

theorem answer_of_ok {line : String} {v : Int} (h : ¬ isBlankLine line = true) (hv : evaluate line = .ok v) :
    answer line = .value v := by rw [answer, if_neg h, hv]

theorem answer_of_error {line : String} {e : ParseError} (h : ¬ isBlankLine line = true)
    (he : evaluate line = .error e) : answer line = .error e := by rw [answer, if_neg h, he]

/-! ### Expressions among the lines -/

/-- The characters that an expression can have. -/
def InAlphabet (c : Char) : Prop := c.isDigit = true ∨ c ∈ [' ', '+', '*', '(', ')']

theorem Denotes.inAlphabet {p : Part} {w : List Char} {n : Nat} (h : Denotes p w n) : ∀ c ∈ w, InAlphabet c := by
  have hspaces : ∀ {cs}, Spaces cs → ∀ c ∈ cs, InAlphabet c := fun hcs c hc => Or.inr (by simp [hcs c hc])
  have hdigits : ∀ {cs}, Digits cs → ∀ c ∈ cs, InAlphabet c := fun hcs c hc => Or.inl (hcs c hc)
  have hsign : ∀ op : Operator, InAlphabet op.sign := fun op => Or.inr (by cases op <;> decide)
  have hopen : InAlphabet '(' := Or.inr (by decide)
  have hclose : InAlphabet ')' := Or.inr (by decide)
  induction h with
  | number hbefore hnumber _ hafter =>
    simp only [List.forall_mem_append]
    exact ⟨hspaces hbefore, hdigits hnumber, hspaces hafter⟩
  | group hbefore _ hafter ih =>
    simp only [List.forall_mem_append, List.forall_mem_cons]
    exact ⟨hspaces hbefore, hopen, ih, hclose, hspaces hafter⟩
  | list _ _ ihfirst ihrest => exact List.forall_mem_append.mpr ⟨ihfirst, ihrest⟩
  | nil => simp
  | cons hbefore hafter _ _ ihnext ihrest =>
    simp only [List.forall_mem_append, List.forall_mem_cons]
    exact ⟨hspaces hbefore, hsign _, hspaces hafter, ihnext, ihrest⟩

theorem Denotes.exists_digit {p : Part} {w : List Char} {n : Nat} (h : Denotes p w n) (hp : p.Solid) :
    ∃ c ∈ w, c.isDigit = true := by
  induction h with
  | @number before digits after _ hdigits hne _ =>
    obtain ⟨c, hc⟩ := List.exists_mem_of_ne_nil digits hne
    exact ⟨c, by simp [hc], hdigits c hc⟩
  | group _ _ _ ih =>
    obtain ⟨c, hc, hdigit⟩ := ih trivial
    exact ⟨c, by simp [hc], hdigit⟩
  | @list op _ _ _ _ _ _ ih _ =>
    obtain ⟨c, hc, hdigit⟩ := ih (Part.solid_operand op)
    exact ⟨c, List.mem_append_left _ hc, hdigit⟩
  | nil => exact hp.elim
  | cons _ _ _ _ _ _ => exact hp.elim

theorem evaluate_eq_iff {line : String} {r : Except ParseError Int} :
    evaluate line = r ↔ (eval line).ending = .done r := by
  obtain ⟨r', hr'⟩ : ∃ r', (eval line).ending = .done r' := by
    rcases eval_reads line with ⟨n, -, heval⟩ | ⟨w, u, n, -, -, -, heval⟩ | ⟨-, heval⟩ <;> rw [heval] <;> exact ⟨_, rfl⟩
  rw [evaluate, Run.result?, hr', Ending.done.injEq]

theorem exists_denotes_of_evaluate {line : String} {v : Int} (h : evaluate line = .ok v) :
    ∃ n, Denotes .expr line.toList n := eval_ok_iff.mp ⟨v, evaluate_eq_iff.mp h⟩

theorem not_isBlankLine_of_evaluate {line : String} {v : Int} (h : evaluate line = .ok v) :
    ¬ isBlankLine line = true := by
  intro hblank
  obtain ⟨n, hdenotes⟩ := exists_denotes_of_evaluate h
  obtain ⟨c, hc, hdigit⟩ := hdenotes.exists_digit trivial
  have htrim : trimChars line.toList = [] := by simpa [isBlankLine, trim] using hblank
  have hcode : '0'.toNat ≤ c.toNat ∧ c.toNat ≤ '9'.toNat := by
    simpa [Char.isDigit, UInt32.le_iff_toNat_le] using hdigit
  have hcblank := isBlank_of_trimChars_eq_nil htrim hc
  simp only [isBlank, Bool.or_eq_true, Bool.and_eq_true, decide_eq_true_eq, beq_iff_eq] at hcblank
  have hzero : '0'.toNat = 48 := rfl
  have hnine : '9'.toNat = 57 := rfl
  omega

theorem not_isQuit_of_evaluate {line : String} {v : Int} (h : evaluate line = .ok v) : ¬ isQuit line = true := by
  intro hquit
  obtain ⟨n, hdenotes⟩ := exists_denotes_of_evaluate h
  have htrim : trimChars line.toList = ['q'] := by
    have := beq_iff_eq.mp hquit
    rw [trim] at this
    simpa using congrArg String.toList this
  have hq : 'q' ∈ line.toList := mem_of_mem_trimChars (by rw [htrim]; exact List.mem_singleton_self 'q')
  have hnone : ¬ InAlphabet 'q' := by
    unfold InAlphabet
    decide
  exact hnone (hdenotes.inAlphabet 'q' hq)

theorem answer_eq_value_iff {line : String} {v : Int} : answer line = .value v ↔ (eval line).ending = .done (.ok v) := by
  rw [← evaluate_eq_iff]
  constructor
  · intro h
    by_cases hblank : isBlankLine line = true
    · rw [answer_of_blank hblank] at h
      cases h
    · cases heval : evaluate line with
      | ok v' =>
        rw [answer_of_ok hblank heval] at h
        cases h
        rfl
      | error e =>
        rw [answer_of_error hblank heval] at h
        cases h
  · exact fun h => answer_of_ok (not_isBlankLine_of_evaluate h) h

theorem answer_of_ending {line : String} {e : ParseError} (hblank : ¬ isBlankLine line = true)
    (h : (eval line).ending = .done (.error e)) : answer line = .error e :=
  answer_of_error hblank (evaluate_eq_iff.mpr h)

def beforeQuit (lines : List String) : List String := lines.takeWhile fun line => !isQuit line

/-! ### At the prompt -/

section
variable {line : String} {count : Nat} {console : Console}

theorem writeValue_eq (hc : console.Reliable) (v : Int) :
    writeValue console v = ⟨.ok (), (console.wrote (toString v)).wrote "\n"⟩ := by
  rw [writeValue, Console.write_eq hc]
  exact Console.write_eq (hc.wrote _) "\n"

/-- A line was answered on this console, and the loop goes on. -/
structure Answered (line : String) (count : Nat) (console : Console) (r : Repl.Reply Nat StreamError) : Prop where
  verdict : r.verdict = .ok .goOn
  state : r.state = count + (answer line).value?.toList.length
  output : r.console.output = console.output ++ (answer line).shown
  reports : r.console.reports = console.reports ++ (answer line).complaint
  reliable : r.console.Reliable

theorem step_of_quit (h : isQuit line = true) : step line count console = ⟨count, console, .ok .stop⟩ := if_pos h

theorem step_answered (count : Nat) (hc : console.Reliable) (h : ¬ isQuit line = true) :
    Answered line count console (step line count console) := by
  rw [step, if_neg h]
  by_cases hblank : isBlankLine line = true
  · rw [if_pos hblank]
    constructor <;> simp [answer_of_blank hblank, Answer.value?, Answer.shown, Answer.complaint, hc]
  · rw [if_neg hblank]
    cases heval : evaluate line with
    | ok v =>
      simp only [writeValue_eq hc]
      have hreliable := (hc.wrote (toString v)).wrote "\n"
      constructor <;> simp [answer_of_ok hblank heval, Answer.value?, Answer.shown, Answer.complaint, Console.wrote,
        String.append_assoc]
      exact hreliable
    | error e =>
      have hreliable := hc.report ("Error: " ++ e.message ++ "\n")
      constructor <;> simp [answer_of_error hblank heval, Answer.value?, Answer.shown, Answer.complaint,
        Console.report]
      exact hreliable

/-- How the loop ends on this console when these lines are given to it. -/
structure Talked (lines : List String) (count : Nat) (console : Console) (result : Except StreamError Nat)
    (after : Console) : Prop where
  result : result = .ok (count + ((beforeQuit lines).filterMap fun line => (answer line).value?).length)
  output : after.output = console.output ++
    String.join ((beforeQuit lines).map fun line => Repl.prompt ++ (answer line).shown) ++
    Repl.prompt ++ if lines.any isQuit then "" else "\n"
  reports : after.reports = console.reports ++
    String.join ((beforeQuit lines).map fun line => (answer line).complaint)

theorem Talked.cons {lines : List String} {reply : Repl.Reply Nat StreamError} {result : Except StreamError Nat}
    {after : Console} (hquit : ¬ isQuit line = true) (h : Answered line count (Repl.prompted console) reply)
    (hlater : Talked lines reply.state reply.console result after) :
    Talked (line :: lines) count console result after := by
  have hbefore : beforeQuit (line :: lines) = line :: beforeQuit lines := by simp [beforeQuit, hquit]
  constructor
  · rw [hlater.result, h.state, hbefore, List.filterMap_cons]
    cases (answer line).value? <;> simp [Nat.add_assoc, Nat.add_comm]
  · rw [hlater.output, h.output, hbefore]
    simp [Repl.prompted, Console.wrote, hquit, String.append_assoc]
  · rw [hlater.reports, h.reports, hbefore]
    simp [Repl.prompted, Console.wrote, String.append_assoc]

/-- What the lines of a text are at the prompt. -/
def contents (cs : List Char) : List String := (linesOf cs).map fun line => withoutReturns (String.ofList line)

theorem contents_piece {p rest : List Char} (h : Piece p rest) :
    contents (p ++ rest) = Repl.lineContent (String.ofList p) :: contents rest := by
  obtain ⟨line, hline, hcontent⟩ := Repl.lineContent_piece h
  rw [contents, hline, List.map_cons, hcontent, contents]

theorem talked (cs : List Char) (count : Nat) {console : Console} (hc : console.Reliable) :
    Talked (contents cs) count console (repl count (.ofChars cs) console).result
      (repl count (.ofChars cs) console).console := by
  -- the loop goes on with another count, on another console
  induction cs using pieces_induction generalizing count console with
  | nil =>
    rw [repl, Repl.run_nil hc, contents, linesOf_nil]
    constructor <;> simp [beforeQuit, Repl.prompted, Console.wrote, String.append_assoc]
  | piece p rest hpiece ih =>
    rw [contents_piece hpiece, repl]
    generalize hcontent : Repl.lineContent (String.ofList p) = content
    by_cases hquit : isQuit content = true
    · rw [Repl.run_piece hc hpiece hcontent (step_of_quit hquit)]
      constructor <;> simp [beforeQuit, hquit, Repl.prompted, Console.wrote]
    · have hanswered := step_answered count (Repl.reliable_prompted hc) hquit
      rw [Repl.run_piece hc hpiece hcontent rfl, hanswered.verdict]
      exact .cons hquit hanswered (ih _ hanswered.reliable)

end

/-! ### In a batch -/

/-- The batch of a text whose lines have these answers. -/
def gathered (answers : List Answer) : Batch :=
  ⟨(answers.zipIdx 1).filterMap fun (a, number) => a.result?.map (number, ·)⟩

theorem join_filterMap {α β : Type} (f : α → Option β) (g : β → String) (l : List α) :
    String.join ((l.filterMap f).map g) = String.join (l.map fun a => ((f a).map g).getD "") := by
  induction l with
  | nil => rfl
  | cons a l ih =>
    rw [List.filterMap_cons]
    cases hfa : f a <;> simp [hfa, ih]

section
variable (answers : List Answer)

theorem output_gathered : (gathered answers).output = String.join (answers.map Answer.shown) := by
  conv_rhs => rw [← List.zipIdx_map_fst 1 answers, List.map_map]
  rw [Batch.output, gathered, join_filterMap]
  refine congrArg String.join (List.map_congr_left ?_)
  rintro ⟨a, number⟩ -
  cases a <;> rfl

theorem reports_gathered :
    (gathered answers).reports = String.join ((answers.zipIdx 1).map fun (a, number) => a.report number) := by
  rw [Batch.reports, gathered, join_filterMap]
  refine congrArg String.join (List.map_congr_left ?_)
  rintro ⟨a, number⟩ -
  cases a <;> rfl

theorem allOk_gathered : (gathered answers).allOk = answers.all fun a => !a.isError := by
  conv_rhs => rw [← List.zipIdx_map_fst 1 answers, List.all_map]
  rw [Batch.allOk, gathered, List.all_filterMap]
  refine List.all_congr rfl ?_
  rintro ⟨a, number⟩
  cases a <;> rfl

end

theorem result?_answer (line : String) :
    (answer line).result? = if isBlankLine line then none else some (evaluate line) := by
  by_cases hblank : isBlankLine line = true
  · rw [answer_of_blank hblank, if_pos hblank, Answer.result?]
  · rw [if_neg hblank]
    cases heval : evaluate line with
    | ok v => rw [answer_of_ok hblank heval, Answer.result?]
    | error e => rw [answer_of_error hblank heval, Answer.result?]

/-- Every line of the text is answered, whatever the others are. -/
theorem ofText_eq_gathered (text : String) : Batch.ofText text = gathered ((lines text).map answer) := by
  rw [Batch.ofText, Batch.numberedLines, gathered, List.map_filterMap, List.zipIdx_map, List.filterMap_map]
  refine congrArg Batch.mk (List.filterMap_congr ?_)
  rintro ⟨line, number⟩ -
  simp only [Function.comp_apply, Prod.map, result?_answer]
  split <;> rfl

end ParserKit.Calculator
