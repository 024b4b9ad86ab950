import ParserKit.Proofs.Text.Lines
import ParserKit.Proofs.Text.Utf8
import ParserKit.Repl.Loop

/-! One round of the read-eval-print loop on a console where nothing fails. The loop reads a text piece by piece. A
    round writes the prompt, takes the next piece off the text and hands it to the step without the line feeds and
    carriage returns at its end (`run_piece`); at the end of the text a line feed ends the output (`run_nil`). -/

namespace ParserKit

/-! ### Reading -/

namespace Reader
open Text

/-- The reader of a text that can be read to its end. -/
def ofChars (cs : List Char) : Reader := ⟨cs.map .char, none⟩

theorem nextLine_nil : (ofChars []).nextLine = .ended := rfl

theorem takeLine_append {line : List Char} (h : '\n' ∉ line) (stream : List Symbol) :
    takeLine (line.map .char ++ stream) = (line.map .char ++ (takeLine stream).1, (takeLine stream).2) := by
  induction line with
  | nil => rfl
  | cons c line ih =>
    obtain ⟨hc, hline⟩ := not_or.mp (mt List.mem_cons.mpr h)
    simp [takeLine, Ne.symm hc, ih hline]

theorem takeLine_piece {p rest : List Char} (h : Piece p rest) :
    takeLine ((p ++ rest).map .char) = (p.map .char, rest.map .char) := by
  cases h with
  | ended hline =>
    rw [List.append_assoc, List.map_append, takeLine_append hline]
    simp [takeLine]
  | last hline =>
    rw [List.map_append, takeLine_append hline]
    simp [takeLine]

theorem nextLine_piece {p rest : List Char} (h : Piece p rest) :
    (ofChars (p ++ rest)).nextLine = .line (String.ofList p) := by
  have hne : (p ++ rest).map Symbol.char ≠ [] := by simp [h.ne_nil]
  simp only [nextLine, ofChars, takeLine_piece h, spell?_chars, List.isEmpty_iff, hne, if_false]
  cases hasLineFeed ((p ++ rest).map Symbol.char) <;> rfl

theorem skipLine_piece {p rest : List Char} (h : Piece p rest) : (ofChars (p ++ rest)).skipLine = ofChars rest := by
  rw [skipLine, ofChars, takeLine_piece h]
  rfl

end Reader

/-! ### Writing -/

namespace Console

def wrote (c : Console) (text : String) : Console := { c with writes := c.writes + 1, output := c.output ++ text }

theorem write_eq {c : Console} (hc : c.Reliable) (text : String) : c.write text = ⟨.ok (), c.wrote text⟩ := by
  rw [write, hc.1]
  rfl

theorem Reliable.wrote {c : Console} (hc : c.Reliable) (text : String) : (c.wrote text).Reliable := hc

theorem Reliable.report {c : Console} (hc : c.Reliable) (text : String) : (c.report text).Reliable := hc

end Console

namespace Repl
open Text Console

/-- The console once the prompt can be seen on it. -/
def prompted (c : Console) : Console := { c.wrote prompt with flushes := c.flushes + 1 }

theorem reliable_prompted {c : Console} (hc : c.Reliable) : (prompted c).Reliable := hc

theorem ask_eq {c : Console} (hc : c.Reliable) : ask c = ⟨.ok (), prompted c⟩ := by
  rw [ask, write_eq hc]
  show flush (c.wrote prompt) = _
  rw [flush, (hc.wrote prompt).2]
  rfl

theorem lineContent_piece {p rest : List Char} (h : Piece p rest) :
    ∃ line, linesOf (p ++ rest) = line :: linesOf rest ∧
      lineContent (String.ofList p) = withoutReturns (String.ofList line) := by
  obtain ⟨line, hline, hcontent⟩ := h.exists_line
  refine ⟨line, hline, ?_⟩
  rw [lineContent, withoutReturns, String.toList_ofList, String.toList_ofList, hcontent]

/-! ### Rounds -/

section
variable {σ ε : Type} {ofStream : StreamError → ε} {step : Step σ ε} {state : σ} {console : Console}
  {p rest : List Char}

theorem run_nil (hc : console.Reliable) :
    run ofStream step state (.ofChars []) console =
      ⟨.ok state, .ofChars [], (prompted console).wrote "\n", []⟩ := by
  rw [run]
  simp only [ask_eq hc]
  split
  next h => cases Reader.nextLine_nil.symm.trans h
  next =>
    rw [write_eq (reliable_prompted hc)]
    rfl
  next h => cases Reader.nextLine_nil.symm.trans h

/-- What the loop makes of the step's reply to a piece. -/
theorem run_piece {line : String} {reply : Reply σ ε} (hc : console.Reliable) (h : Piece p rest)
    (hline : lineContent (String.ofList p) = line) (hreply : step line state (prompted console) = reply) :
    run ofStream step state (.ofChars (p ++ rest)) console =
      match reply.verdict with
      | .error e => ⟨.error e, .ofChars rest, reply.console, [line]⟩
      | .ok .stop => ⟨.ok reply.state, .ofChars rest, reply.console, [line]⟩
      | .ok .goOn =>
        let later := run ofStream step reply.state (.ofChars rest) reply.console
        { later with handed := line :: later.handed } := by
  subst hline hreply
  rw [run]
  simp only [ask_eq hc, Reader.skipLine_piece h]
  -- the reader gives the piece, and neither ends nor fails
  split
  next hline => cases (Reader.nextLine_piece h).symm.trans hline
  next hline => cases (Reader.nextLine_piece h).symm.trans hline
  next hline =>
    cases (Reader.nextLine_piece h).symm.trans hline
    rfl

end
end Repl
end ParserKit
