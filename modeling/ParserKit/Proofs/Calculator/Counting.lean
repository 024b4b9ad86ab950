import ParserKit.Proofs.Calculator.Answer
import ParserKit.Proofs.Repl.Conversation

/-! What is counted in a session at the prompt. In the output of a session a value stands behind the prompts of its line
    and of the lines before it that show nothing, so the values can be read off the output (`valueLines_dialogue`). There
    are as many of them as the session counts, and they are those of the lines with a value before the first wish to
    leave (`session_counts`). -/

namespace ParserKit.Calculator
open Text

/-! ### Values in an output -/

/-- A line of an output without the prompts at its start. -/
def withoutPrompts : List Char → List Char
  | '>' :: ' ' :: ' ' :: ' ' :: cs => withoutPrompts cs
  | cs => cs

/-- What the lines of an output show behind their prompts, without those that show nothing. -/
def shownIn (output : List Char) : List (List Char) := ((linesOf output).map withoutPrompts).filter (· ≠ [])

def valueLines (output : String) : List String := (shownIn output.toList).map String.ofList

/-- What is written for some answers, and at the end. -/
def dialogue (answers : List Answer) (ending : String) : String :=
  String.join (answers.map fun a => Repl.prompt ++ a.shown) ++ Repl.prompt ++ ending

def prompts (n : Nat) : List Char := (List.replicate n Repl.prompt.toList).flatten

section
variable {n : Nat} {v : Int} {c : Char} {cs rest : List Char}

theorem prompts_append_prompt (n : Nat) (cs : List Char) :
    prompts n ++ (Repl.prompt.toList ++ cs) = prompts (n + 1) ++ cs := by
  rw [prompts, prompts, List.replicate_succ', List.flatten_append, List.flatten_singleton, List.append_assoc]

theorem mem_prompts (h : c ∈ prompts n) : c = '>' ∨ c = ' ' := by
  obtain ⟨p, hp, hc⟩ := List.mem_flatten.mp h
  rw [List.eq_of_mem_replicate hp] at hc
  simpa [Repl.prompt] using hc

theorem withoutPrompts_prompts (n : Nat) (cs : List Char) : withoutPrompts (prompts n ++ cs) = withoutPrompts cs := by
  induction n with
  | zero => rfl
  | succ n ih =>
    rw [prompts, List.replicate_succ, List.flatten_cons, List.append_assoc]
    exact ih

theorem mem_toString (h : c ∈ (toString v).toList) : c.isDigit = true ∨ c = '-' := by
  have hdigits : ∀ m : Nat, c ∈ m.repr.toList → c.isDigit = true := by
    intro m hm
    rw [Nat.repr_eq_ofList_toDigits, String.toList_ofList] at hm
    exact Nat.isDigit_of_mem_toDigits (by decide) (by decide) hm
  cases v with
  | ofNat m => exact Or.inl (hdigits m h)
  | negSucc m =>
    have h : c ∈ ("-" ++ (m + 1).repr).toList := h
    rw [String.toList_append, List.mem_append] at h
    rcases h with h | h
    · exact Or.inr (by simpa using h)
    · exact Or.inl (hdigits _ h)

theorem toString_ne_nil (v : Int) : (toString v).toList ≠ [] := by
  cases v with
  | ofNat m =>
    show m.repr.toList ≠ []
    rw [Nat.repr_eq_ofList_toDigits, String.toList_ofList]
    exact Nat.toDigits_ne_nil
  | negSucc m =>
    show ("-" ++ (m + 1).repr).toList ≠ []
    simp

theorem withoutPrompts_toString (v : Int) : withoutPrompts (toString v).toList = (toString v).toList := by
  unfold withoutPrompts
  split
  next heq =>
    have hmem : '>' ∈ (toString v).toList := by rw [heq]; exact List.mem_cons_self
    rcases mem_toString hmem with h | h <;> cases h
  next => rfl

theorem not_endsLines_prompts (h : c ∈ prompts n) : ¬ EndsLines c := by
  rintro (rfl | rfl) <;> rcases mem_prompts h with h | h <;> cases h

theorem not_endsLines_toString (h : c ∈ (toString v).toList) : ¬ EndsLines c := by
  rintro (rfl | rfl) <;> rcases mem_toString h with h | h <;> cases h

theorem linesOf_cons {line : List Char} (h : ∀ c ∈ line, ¬ EndsLines c) :
    linesOf (line ++ '\n' :: rest) = line :: linesOf rest := by
  rw [linesOf_append fun hmem => h _ hmem (Or.inl rfl), dropReturn_of_not_mem fun hmem => h _ hmem (Or.inr rfl)]

theorem shownIn_value (n : Nat) (v : Int) (rest : List Char) :
    shownIn (prompts n ++ ((toString v).toList ++ '\n' :: rest)) = (toString v).toList :: shownIn rest := by
  have hline : ∀ c ∈ prompts n ++ (toString v).toList, ¬ EndsLines c :=
    List.forall_mem_append.mpr ⟨fun _ => not_endsLines_prompts, fun _ => not_endsLines_toString⟩
  rw [shownIn, ← List.append_assoc, linesOf_cons hline, List.map_cons, withoutPrompts_prompts, withoutPrompts_toString,
    List.filter_cons_of_pos (by simpa using toString_ne_nil v), shownIn]

theorem shownIn_prompts (n : Nat) {ending : String} (h : ending = "" ∨ ending = "\n") :
    shownIn (prompts n ++ ending.toList) = [] := by
  have hnone : withoutPrompts (prompts n) = [] := by
    rw [← List.append_nil (prompts n), withoutPrompts_prompts]
    rfl
  have hline : ∀ c ∈ prompts n, ¬ EndsLines c := fun _ => not_endsLines_prompts
  rcases h with rfl | rfl
  · by_cases hnil : prompts n = []
    · simp [hnil, shownIn, linesOf_nil]
    · have hfeed : '\n' ∉ prompts n := fun hmem => hline _ hmem (Or.inl rfl)
      simp [shownIn, linesOf_of_not_mem hfeed hnil, hnone]
  · have hended : prompts n ++ "\n".toList = prompts n ++ '\n' :: [] := rfl
    rw [shownIn, hended, linesOf_cons hline]
    simp [linesOf_nil, hnone]

/-- What can be read in the output are the values of the answers. -/
theorem shownIn_dialogue (answers : List Answer) (n : Nat) {ending : String} (h : ending = "" ∨ ending = "\n") :
    shownIn (prompts n ++ (dialogue answers ending).toList) =
      (answers.filterMap Answer.value?).map fun v => (toString v).toList := by
  -- the prompts of the answers that show nothing stand before the next value
  induction answers generalizing n with
  | nil =>
    have hdialogue : (dialogue [] ending).toList = Repl.prompt.toList ++ ending.toList := by simp [dialogue]
    rw [hdialogue, prompts_append_prompt, shownIn_prompts _ h]
    rfl
  | cons a answers ih =>
    have hdialogue : (dialogue (a :: answers) ending).toList =
        Repl.prompt.toList ++ (a.shown.toList ++ (dialogue answers ending).toList) := by
      simp [dialogue]
    rw [hdialogue, prompts_append_prompt]
    cases a with
    | silent => exact ih (n + 1)
    | error e => exact ih (n + 1)
    | value v =>
      have hshown : (Answer.value v).shown.toList = (toString v).toList ++ ['\n'] := by
        rw [Answer.shown, String.toList_append]
        rfl
      rw [hshown, List.append_assoc, List.singleton_append, shownIn_value]
      exact congrArg _ (ih 0)

end

theorem valueLines_dialogue (answers : List Answer) {ending : String} (h : ending = "" ∨ ending = "\n") :
    valueLines (dialogue answers ending) = (answers.filterMap Answer.value?).map toString := by
  have hshown : shownIn (dialogue answers ending).toList = _ := shownIn_dialogue answers 0 h
  rw [valueLines, hshown, List.map_map]
  exact List.map_congr_left fun v _ => String.ofList_toList

example : valueLines ">   2\n>   >   6\n>   \n" = ["2", "6"] := by cbv

/-! ### Lines -/

/-- The lines that the loop cuts a text into. -/
def PromptLines (text : String) (ls : List String) : Prop :=
  ∃ ps, Pieces text.toList ps ∧ List.Forall₂ (fun p line => Content p line.toList) ps ls

def hasValue (line : String) : Bool :=
  match (eval line).ending with
  | .done (.ok _) => true
  | _ => false

/-- The lines before the first wish to leave that are not blank and have a value. -/
def counted (ls : List String) : List String := (beforeQuit ls).filter fun line => !isBlankLine line && hasValue line

/-- The text is the value of the line. -/
def Shows (line shown : String) : Prop := ∃ v, (eval line).ending = .done (.ok v) ∧ shown = toString v

section
variable {text line : String} {ls : List String} {cs p : List Char} {ps : List (List Char)}

theorem forall₂_content_iff (h : Pieces cs ps) :
    List.Forall₂ (fun p line => Content p line.toList) ps ls ↔ ls = contents cs := by
  induction h generalizing ls with
  | nil => rw [List.forall₂_nil_left_iff, contents, linesOf_nil, List.map_nil]
  | @cons p rest ps hpiece _ ih =>
    rw [contents_piece hpiece]
    constructor
    · intro h
      cases h with
      | cons hcontent hlater => rw [Repl.content_iff.mp hcontent, ih.mp hlater]
    · rintro rfl
      exact .cons (Repl.content_iff.mpr rfl) (ih.mpr rfl)

theorem promptLines_iff : PromptLines text ls ↔ ls = contents text.toList := by
  constructor
  · rintro ⟨ps, hps, hls⟩
    exact (forall₂_content_iff hps).mp hls
  · intro h
    obtain ⟨ps, hps⟩ := exists_pieces text.toList
    exact ⟨ps, hps, (forall₂_content_iff hps).mpr h⟩

theorem hasValue_eq (line : String) : hasValue line = (answer line).value?.isSome := by
  unfold hasValue
  split
  next v hv => rw [answer_eq_value_iff.mpr hv, Answer.value?, Option.isSome_some]
  next hnone =>
    cases hanswer : answer line with
    | silent => rfl
    | value v => exact absurd (answer_eq_value_iff.mp hanswer) (hnone v)
    | error e => rfl

/-- No blank line has a value. -/
theorem filter_hasValue (ls : List String) :
    (ls.filter fun line => !isBlankLine line && hasValue line) = ls.filter fun line => (answer line).value?.isSome := by
  refine List.filter_congr fun line _ => ?_
  rw [hasValue_eq]
  by_cases hblank : isBlankLine line = true
  · rw [answer_of_blank hblank]
    exact Bool.and_false _
  · rw [Bool.not_eq_true] at hblank
    rw [hblank, Bool.not_false, Bool.true_and]

theorem forall₂_shows (ls : List String) :
    List.Forall₂ Shows (ls.filter fun line => (answer line).value?.isSome)
      (((ls.map answer).filterMap Answer.value?).map toString) := by
  induction ls with
  | nil => exact .nil
  | cons line ls ih =>
    rw [List.filter_cons, List.map_cons, List.filterMap_cons]
    cases hanswer : answer line with
    | silent => exact ih
    | value v => exact .cons ⟨v, answer_eq_value_iff.mp hanswer, rfl⟩ ih
    | error e => exact ih

end

/-! ### Steps -/

/-- A value cannot be written on the console: the value itself, or the line feed behind it. -/
inductive WriteFails (console : Console) (e : StreamError) : Prop
  | value : console.writeFault console.writes = some e → WriteFails console e
  | lineFeed : console.writeFault console.writes = none → console.writeFault (console.writes + 1) = some e →
      WriteFails console e

/-- What a step makes of a line, on any console. -/
structure Steps (line : String) (count : Nat) (console : Console) (reply : Repl.Reply Nat StreamError) : Prop where
  quit : trim line = "q" → reply = ⟨count, console, .ok .stop⟩
  passed : trim line ≠ "q" → trim line = "" ∨ (∃ e, (eval line).ending = .done (.error e)) →
    reply.verdict = .ok .goOn ∧ reply.state = count ∧ reply.console.output = console.output
  counted : ∀ v, (eval line).ending = .done (.ok v) → (∀ e, ¬ WriteFails console e) →
    reply.verdict = .ok .goOn ∧ reply.state = count + 1 ∧ reply.console.output = console.output ++ toString v ++ "\n"
  failed : ∀ v e, (eval line).ending = .done (.ok v) → WriteFails console e →
    reply.verdict = .error e ∧ reply.state = count

section
variable {line : String} {count : Nat} {console : Console} {v : Int} {e : StreamError}

theorem writeValue_of_fails (h : WriteFails console e) : (writeValue console v).result = .error e := by
  cases h with
  | value hfault => simp [writeValue, Console.write, hfault, Attempt.andThen]
  | lineFeed hnone hfault => simp [writeValue, Console.write, hnone, hfault, Attempt.andThen]

theorem writeValue_of_not_fails (h : ∀ e, ¬ WriteFails console e) :
    writeValue console v = ⟨.ok (), (console.wrote (toString v)).wrote "\n"⟩ := by
  have hvalue : console.writeFault console.writes = none :=
    Option.eq_none_iff_forall_ne_some.mpr fun e he => h e (.value he)
  have hfeed : console.writeFault (console.writes + 1) = none :=
    Option.eq_none_iff_forall_ne_some.mpr fun e he => h e (.lineFeed hvalue he)
  simp [writeValue, Console.write, hvalue, hfeed, Attempt.andThen, Console.wrote]

theorem step_of_written {after : Console} (h : evaluate line = .ok v) (hwritten : writeValue console v = ⟨.ok (), after⟩) :
    step line count console = ⟨count + 1, after, .ok .goOn⟩ := by
  rw [step, if_neg (not_isQuit_of_evaluate h), if_neg (not_isBlankLine_of_evaluate h)]
  simp only [h, hwritten]

theorem step_of_unwritten (h : evaluate line = .ok v) (he : (writeValue console v).result = .error e) :
    step line count console = ⟨count, (writeValue console v).console, .error e⟩ := by
  rw [step, if_neg (not_isQuit_of_evaluate h), if_neg (not_isBlankLine_of_evaluate h)]
  simp only [h, he]

theorem steps_step (line : String) (count : Nat) (console : Console) :
    Steps line count console (step line count console) where
  quit h := step_of_quit (beq_iff_eq.mpr h)
  passed hquit h := by
    have hquit : ¬ isQuit line = true := mt beq_iff_eq.mp hquit
    rw [step, if_neg hquit]
    by_cases hblank : isBlankLine line = true
    · rw [if_pos hblank]
      exact ⟨rfl, rfl, rfl⟩
    · rw [if_neg hblank]
      obtain ⟨e, he⟩ := h.resolve_left fun htrim => hblank (by rw [isBlankLine, htrim]; rfl)
      rw [evaluate_eq_iff.mpr he]
      exact ⟨rfl, rfl, rfl⟩
  counted v hv hreliable := by
    rw [step_of_written (evaluate_eq_iff.mpr hv) (writeValue_of_not_fails hreliable)]
    exact ⟨rfl, rfl, rfl⟩
  failed v e hv hfails := by
    rw [step_of_unwritten (evaluate_eq_iff.mpr hv) (writeValue_of_fails hfails)]
    exact ⟨rfl, rfl⟩

end

/-! ### Sessions -/

/-- What is written for the lines of a text. -/
def written (ls : List String) : String :=
  dialogue ((beforeQuit ls).map answer) (if ls.any isQuit then "" else "\n")

/-- The count at the end is the number of the values that stand in the output, and they are those of the counted lines,
    in their order. -/
structure Counts (ls : List String) (console : Console) (report : Repl.Report Nat StreamError) : Prop where
  output : report.console.output = console.output ++ written ls
  count_eq_written : report.result = .ok (valueLines (written ls)).length
  count_eq_counted : report.result = .ok (counted ls).length
  shows : List.Forall₂ Shows (counted ls) (valueLines (written ls))

section
variable {console : Console}

theorem valueLines_written (ls : List String) :
    valueLines (written ls) = (((beforeQuit ls).map answer).filterMap Answer.value?).map toString := by
  refine valueLines_dialogue _ ?_
  split
  · exact Or.inl rfl
  · exact Or.inr rfl

theorem shows_written (ls : List String) : List.Forall₂ Shows (counted ls) (valueLines (written ls)) := by
  rw [counted, filter_hasValue, valueLines_written]
  exact forall₂_shows (beforeQuit ls)

theorem counts_repl (cs : List Char) (hc : console.Reliable) :
    Counts (contents cs) console (repl 0 (.ofChars cs) console) := by
  obtain ⟨hresult, houtput, -⟩ := talked cs 0 hc
  have hcount : (repl 0 (.ofChars cs) console).result = .ok (valueLines (written (contents cs))).length := by
    rw [hresult, valueLines_written, List.length_map, List.filterMap_map, Nat.zero_add]
    rfl
  refine ⟨?_, hcount, ?_, shows_written _⟩
  · rw [houtput, written, dialogue, List.map_map]
    simp only [Function.comp_def, String.append_assoc]
  · rw [hcount, (shows_written _).length_eq]

/-- A session counts the values that it shows. What is counted are the lines with a value before the first wish to
    leave, and neither a blank line nor an error ends the session. A value that cannot be written is not counted. -/
theorem session_counts (text : String) (hc : console.Reliable) :
    ((∃ ls, PromptLines text ls) ∧ ∀ ls, PromptLines text ls → Counts ls console (repl 0 (.ofString text) console)) ∧
    ∀ line count console, Steps line count console (step line count console) := by
  refine ⟨⟨⟨_, promptLines_iff.mpr rfl⟩, fun ls hls => ?_⟩, steps_step⟩
  rw [promptLines_iff.mp hls]
  exact counts_repl text.toList hc

/-- A session with values, a blank line and an error, which is left before the last line. -/
theorem session_counts_mixed : Console.empty.Reliable ∧
    Counts ["1 + 1", " ", "1 +", "2*3", "q", "4"] .empty (repl 0 (.ofString "1 + 1\r\n \n1 +\n2*3\nq\n4") .empty) := by
  have hreliable : Console.empty.Reliable := ⟨fun _ => rfl, fun _ => rfl⟩
  have hlines : PromptLines "1 + 1\r\n \n1 +\n2*3\nq\n4" ["1 + 1", " ", "1 +", "2*3", "q", "4"] :=
    promptLines_iff.mpr (by cbv)
  exact ⟨hreliable, (session_counts _ hreliable).1.2 _ hlines⟩

end
end ParserKit.Calculator
