import Mathlib.Data.List.Chain
import ParserKit.Proofs.Repl.Loop

/-! What the read-eval-print loop does with a whole text on a console where nothing fails, whatever its step is. The
    step is called with the lines of the text in order, each on the state and the console that the call before it left,
    until it stops, fails, or has had all lines (`Conversed`). What is on the console in the end is a prompt for each
    call and what the step wrote there, and only at the end of the text one more prompt on a line of its own
    (`run_conversed`). -/

namespace ParserKit

namespace Text

/-- The pieces of a text, in order. -/
inductive Pieces : List Char → List (List Char) → Prop
  | nil : Pieces [] []
  | cons {p rest ps} : Piece p rest → Pieces rest ps → Pieces (p ++ rest) (p :: ps)

theorem exists_pieces (cs : List Char) : ∃ ps, Pieces cs ps := by
  induction cs using pieces_induction with
  | nil => exact ⟨[], .nil⟩
  | piece p rest hpiece ih =>
    obtain ⟨ps, hps⟩ := ih
    exact ⟨p :: ps, .cons hpiece hps⟩

theorem Pieces.flatten_eq {cs : List Char} {ps : List (List Char)} (h : Pieces cs ps) : ps.flatten = cs := by
  induction h with
  | nil => rfl
  | cons _ _ ih => rw [List.flatten_cons, ih]

def EndsLines (c : Char) : Prop := c = '\n' ∨ c = '\r'

/-- The content is the piece without the longest run of line feeds and carriage returns at its end. -/
structure Content (piece content : List Char) : Prop where
  exists_run : ∃ run, piece = content ++ run ∧ ∀ c ∈ run, EndsLines c
  longest : ∀ c, content.getLast? = some c → ¬ EndsLines c

end Text

namespace Repl
open Text Console

theorem content_lineContent (p : List Char) : Content p (lineContent (String.ofList p)).toList := by
  obtain ⟨content, run, rfl, hrun, hlongest⟩ := exists_trailing (fun c => c == '\n' || c == '\r') p
  rw [lineContent, String.toList_ofList, String.toList_ofList, dropTrailing_append hrun, dropTrailing_eq_self hlongest]
  refine ⟨⟨run, rfl, fun c hc => ?_⟩, fun c hc => ?_⟩
  · simpa [EndsLines] using hrun c hc
  · simpa [EndsLines] using hlongest c hc

/-- A piece has one content only. -/
theorem content_iff {p : List Char} {line : String} : Content p line.toList ↔ line = lineContent (String.ofList p) := by
  constructor
  · rintro ⟨⟨run, rfl, hrun⟩, hlongest⟩
    have hends : ∀ c ∈ run, (c == '\n' || c == '\r') = true := fun c hc => by simpa [EndsLines] using hrun c hc
    have hlast : ∀ c, line.toList.getLast? = some c → (c == '\n' || c == '\r') = false := fun c hc => by
      simpa [EndsLines] using hlongest c hc
    rw [lineContent, String.toList_ofList, dropTrailing_append hends, dropTrailing_eq_self hlast, String.ofList_toList]
  · rintro rfl
    exact content_lineContent p

/-- The step adds to the output and changes nothing that stands there, and leaves a console where nothing fails. -/
structure Writes {σ ε : Type} (step : Step σ ε) : Prop where
  reliable (line : String) (state : σ) {c : Console} : c.Reliable → (step line state c).console.Reliable
  exists_written (line : String) (state : σ) {c : Console} : c.Reliable →
    ∃ written, (step line state c).console.output = c.output ++ written

/-- Writes every line back and counts it, and stops at a line that says so. -/
def echo : Step Nat StreamError := fun line count c =>
  if line = "q" then ⟨count, c, .ok .stop⟩
  else
    let written := c.write (line ++ "\n")
    ⟨count + 1, written.console, written.result.map fun _ => .goOn⟩

theorem writes_echo : Writes echo where
  reliable line count c hc := by
    rw [echo, write_eq hc]
    split
    · exact hc
    · exact hc.wrote _
  exists_written line count c hc := by
    rw [echo, write_eq hc]
    split
    · exact ⟨"", String.append_empty.symm⟩
    · exact ⟨line ++ "\n", rfl⟩

/-! ### Calls -/

/-- A call of the step: what it was given, what it replied, and what it wrote. -/
structure Call (σ ε : Type) where
  line : String
  state : σ
  console : Console
  reply : Reply σ ε
  written : String

section
variable {σ ε : Type}

namespace Call

/-- The reply is that of the step, and what it wrote stands at the end of the output. -/
structure Made (step : Step σ ε) (call : Call σ ε) : Prop where
  reply : call.reply = step call.line call.state call.console
  output : call.reply.console.output = call.console.output ++ call.written

/-- The call was given this state, and this console with a prompt on it. -/
structure From (state : σ) (console : Console) (call : Call σ ε) : Prop where
  state : call.state = state
  console : call.console = prompted console

def GoesOn (call : Call σ ε) : Prop := call.reply.verdict = .ok .goOn

end Call

/-- A prompt for each call, and what the call wrote. -/
def transcript (calls : List (Call σ ε)) : String := String.join (calls.map fun call => prompt ++ call.written)

/-- The state that the last call left. -/
def stateAfter (state : σ) (calls : List (Call σ ε)) : σ := calls.foldl (fun _ call => call.reply.state) state

/-- The three ways in which the loop ends after its calls. -/
inductive Exit (state : σ) (console : Console) (ps : List (List Char)) (report : Report σ ε) : List (Call σ ε) → Prop
  | ended {calls} : calls.length = ps.length → (∀ call ∈ calls, call.GoesOn) →
      report.result = .ok (stateAfter state calls) →
      report.console.output = console.output ++ transcript calls ++ prompt ++ "\n" → Exit state console ps report calls
  | stopped (before) {call} : call.reply.verdict = .ok .stop → report.result = .ok call.reply.state →
      report.console = call.reply.console → report.console.output = console.output ++ transcript (before ++ [call]) →
      Exit state console ps report (before ++ [call])
  | failed (before) {call e} : call.reply.verdict = .error e → report.result = .error e →
      report.console = call.reply.console → report.console.output = console.output ++ transcript (before ++ [call]) →
      Exit state console ps report (before ++ [call])

/-- The loop made these calls of the step for the pieces of a text. -/
structure Conversed (step : Step σ ε) (state : σ) (console : Console) (ps : List (List Char))
    (calls : List (Call σ ε)) (report : Report σ ε) : Prop where
  /-- The lines are those of the first pieces, one call for each. -/
  lines : List.Forall₂ (fun p call => Content p call.line.toList) (ps.take calls.length) calls
  handed : report.handed = calls.map Call.line
  made : ∀ call ∈ calls, call.Made step
  first : ∀ call ∈ calls.head?, call.From state console
  /-- Only the last call may stop or fail, and the others leave the state and the console to the next one. -/
  next : calls.IsChain fun a b => a.GoesOn ∧ b.From a.reply.state a.reply.console
  /-- The later pieces are not read. -/
  unread : report.reader = .ofChars (ps.drop calls.length).flatten
  exit : Exit state console ps report calls

/-! ### The whole loop -/

variable {ofStream : StreamError → ε} {step : Step σ ε} {state : σ} {console : Console}
  {cs p rest : List Char} {ps : List (List Char)} {call : Call σ ε} {calls : List (Call σ ε)} {report : Report σ ε}

@[simp]
theorem prompted_output (c : Console) : (prompted c).output = c.output ++ prompt := rfl

@[simp]
theorem transcript_cons (call : Call σ ε) (calls : List (Call σ ε)) :
    transcript (call :: calls) = prompt ++ call.written ++ transcript calls := by
  simp [transcript, String.append_assoc]

/-- What the call adds to the output. -/
theorem Call.Made.output_eq (h : call.Made step) (hfrom : call.From state console) :
    call.reply.console.output = console.output ++ (prompt ++ call.written) := by
  rw [h.output, hfrom.console, prompted_output, String.append_assoc]

/-- The way to end stays the same when a call that goes on is made before all others. -/
theorem Exit.cons (hgoesOn : call.GoesOn)
    (houtput : call.reply.console.output = console.output ++ (prompt ++ call.written))
    (h : Exit call.reply.state call.reply.console ps report calls) :
    Exit state console (p :: ps) { report with handed := call.line :: report.handed } (call :: calls) := by
  have htranscript : ∀ later, console.output ++ transcript (call :: later) =
      call.reply.console.output ++ transcript later := by
    intro later
    simp only [transcript_cons, houtput, String.append_assoc]
  cases h with
  | ended hlength hall hresult hfinal =>
    refine .ended (congrArg (· + 1) hlength) (List.forall_mem_cons.mpr ⟨hgoesOn, hall⟩) hresult ?_
    rw [htranscript]
    exact hfinal
  | stopped before hverdict hresult hconsole hfinal =>
    exact .stopped (call :: before) hverdict hresult hconsole (hfinal.trans (htranscript _).symm)
  | failed before hverdict hresult hconsole hfinal =>
    exact .failed (call :: before) hverdict hresult hconsole (hfinal.trans (htranscript _).symm)

/-- What is said of the later calls is said of all calls. -/
theorem Conversed.cons (hcontent : Content p call.line.toList) (hmade : call.Made step)
    (hfrom : call.From state console) (hgoesOn : call.GoesOn)
    (h : Conversed step call.reply.state call.reply.console ps calls report) :
    Conversed step state console (p :: ps) (call :: calls) { report with handed := call.line :: report.handed } where
  lines := .cons hcontent h.lines
  handed := congrArg (call.line :: ·) h.handed
  made := List.forall_mem_cons.mpr ⟨hmade, h.made⟩
  first := by simpa using hfrom
  next := List.isChain_cons.mpr ⟨fun later hlater => ⟨hgoesOn, h.first later hlater⟩, h.next⟩
  unread := h.unread
  exit := h.exit.cons hgoesOn (hmade.output_eq hfrom)

/-- A call that ends the loop is the only one. -/
theorem Conversed.last (hcontent : Content p call.line.toList) (hmade : call.Made step)
    (hfrom : call.From state console) (hexit : Exit state console (p :: ps) report [call])
    (hhanded : report.handed = [call.line]) (hunread : report.reader = .ofChars ps.flatten) :
    Conversed step state console (p :: ps) [call] report where
  lines := .cons hcontent .nil
  handed := hhanded
  made := by simpa using hmade
  first := by simpa using hfrom
  next := List.isChain_singleton call
  unread := hunread
  exit := hexit

theorem exists_conversed (h : Writes step) (hps : Pieces cs ps) (state : σ) (hc : console.Reliable) :
    ∃ calls, Conversed step state console ps calls (run ofStream step state (.ofChars cs) console) := by
  -- the loop goes on in another state, on another console
  induction hps generalizing state console with
  | nil =>
    rw [run_nil hc]
    refine ⟨[], .nil, rfl, by simp, by simp, .nil, rfl, .ended rfl (by simp) rfl ?_⟩
    simp [transcript, Console.wrote]
  | @cons p rest ps hp hps ih =>
    have hprompted := reliable_prompted hc
    obtain ⟨line, hline⟩ : ∃ line, lineContent (String.ofList p) = line := ⟨_, rfl⟩
    obtain ⟨reply, hreply⟩ : ∃ reply, step line state (prompted console) = reply := ⟨_, rfl⟩
    obtain ⟨written, hwritten⟩ := h.exists_written line state hprompted
    have hreliable := h.reliable line state hprompted
    rw [hreply] at hwritten hreliable
    let call : Call σ ε := ⟨line, state, prompted console, reply, written⟩
    have hcontent : Content p line.toList := hline ▸ content_lineContent p
    have hmade : call.Made step := ⟨hreply.symm, hwritten⟩
    have hfrom : call.From state console := ⟨rfl, rfl⟩
    have hunread : Reader.ofChars rest = .ofChars ps.flatten := by rw [hps.flatten_eq]
    have houtput : reply.console.output = console.output ++ transcript [call] :=
      (hmade.output_eq hfrom).trans (by simp [transcript])
    rw [run_piece hc hp hline hreply]
    match hverdict : reply.verdict with
    | .error e =>
      exact ⟨[call], .last hcontent hmade hfrom (.failed [] hverdict rfl rfl houtput) rfl hunread⟩
    | .ok .stop =>
      exact ⟨[call], .last hcontent hmade hfrom (.stopped [] hverdict rfl rfl houtput) rfl hunread⟩
    | .ok .goOn =>
      obtain ⟨calls, hcalls⟩ := ih reply.state hreliable
      exact ⟨call :: calls, .cons hcontent hmade hfrom hverdict hcalls⟩

/-- On a console where nothing fails, the loop hands the lines of a text to the step one by one and ends in one of three
    ways. -/
theorem run_conversed (ofStream : StreamError → ε) (h : Writes step) (text : String) (state : σ)
    (hc : console.Reliable) :
    (∃ ps, Pieces text.toList ps) ∧ ∀ ps, Pieces text.toList ps →
      ∃ calls, Conversed step state console ps calls (run ofStream step state (.ofString text) console) :=
  ⟨exists_pieces text.toList, fun _ hps => exists_conversed h hps state hc⟩

theorem run_conversed_echo : ∃ calls, Conversed echo 0 .empty [['a', '\r', '\n'], ['\n'], ['q', '\n'], ['b']] calls
    (run id echo 0 (.ofString "a\r\n\nq\nb") .empty) := by
  have hreliable : Console.empty.Reliable := ⟨fun _ => rfl, fun _ => rfl⟩
  obtain ⟨-, hall⟩ := run_conversed id writes_echo "a\r\n\nq\nb" 0 hreliable
  have hq : Pieces ['q', '\n', 'b'] [['q', '\n'], ['b']] :=
    .cons (@Piece.ended ['q'] ['b'] (by decide)) (.cons (@Piece.last ['b'] (by decide) (by decide)) .nil)
  exact hall _ (.cons (@Piece.ended ['a', '\r'] _ (by decide)) (.cons (@Piece.ended [] _ (by decide)) hq))

end
end Repl
end ParserKit
