import Mathlib.Data.List.DropRight
import ParserKit.Text.Blank

/-! Two ways to cut a text into lines. A text is a sequence of pieces, each of them a line with its line feed
    (`Piece`). One way drops the line feed and one carriage return before it, and leaves a last line without a line
    feed as it is; the other drops all line feeds and carriage returns at the end of a piece. They cut at the same
    places, and what they find differs in the carriage returns at the end of a line (`Piece.exists_line`). -/

namespace ParserKit.Text

/-! ### The end of a text -/

section
variable {p : Char → Bool} {u v : List Char}

theorem dropTrailing_append (hv : ∀ c ∈ v, p c = true) : dropTrailing p (u ++ v) = dropTrailing p u := by
  have hreverse : ∀ c ∈ v.reverse, p c = true := fun c hc => hv c (List.mem_reverse.mp hc)
  rw [dropTrailing, List.reverse_append, List.dropWhile_append_of_pos hreverse, dropTrailing]

theorem dropTrailing_eq_self (hu : ∀ c, u.getLast? = some c → p c = false) : dropTrailing p u = u := by
  refine List.rdropWhile_eq_self_iff.mpr fun hne => ?_
  simp [hu _ (List.getLast?_eq_some_getLast hne)]

/-- Every text ends in a longest run of characters that pass the test. -/
theorem exists_trailing (p : Char → Bool) (cs : List Char) :
    ∃ u v, cs = u ++ v ∧ (∀ c ∈ v, p c = true) ∧ ∀ c, u.getLast? = some c → p c = false := by
  refine ⟨cs.rdropWhile p, cs.rtakeWhile p, List.rdropWhile_append_rtakeWhile.symm,
    fun c => List.mem_rtakeWhile_imp, ?_⟩
  intro c hc
  have hne : cs.rdropWhile p ≠ [] := by
    intro hnil
    rw [hnil] at hc
    cases hc
  obtain rfl : (cs.rdropWhile p).getLast hne = c := by simpa [List.getLast?_eq_some_getLast hne] using hc
  simpa using List.rdropWhile_last_not p cs hne

theorem trimChars_append (hv : ∀ c ∈ v, isBlank c = true) : trimChars (u ++ v) = trimChars u := by
  unfold trimChars
  rw [List.dropWhile_append]
  split
  next hnil => rw [List.isEmpty_iff.mp hnil, List.dropWhile_eq_nil_iff.mpr hv]
  next => exact dropTrailing_append hv

theorem mem_of_mem_trimChars {c : Char} (h : c ∈ trimChars u) : c ∈ u :=
  (List.dropWhile_sublist _).subset ((List.rdropWhile_prefix isBlank _).subset h)

theorem isBlank_of_trimChars_eq_nil {c : Char} (h : trimChars u = []) (hc : c ∈ u) : isBlank c = true := by
  have hall : ∀ c ∈ u.dropWhile isBlank, isBlank c = true := List.rdropWhile_eq_nil_iff.mp h
  have hfirst := List.head?_dropWhile_not isBlank u
  cases hrest : u.dropWhile isBlank with
  | nil => exact List.dropWhile_eq_nil_iff.mp hrest c hc
  | cons d rest =>
    rw [hrest] at hall hfirst
    have hd : isBlank d = false := hfirst
    rw [hall d List.mem_cons_self] at hd
    cases hd

end

/-! ### Carriage returns -/

/-- A line without the carriage returns at its end. -/
def withoutReturns (line : String) : String := String.ofList (dropTrailing (· == '\r') line.toList)

def EndsInReturn (line : String) : Prop := line.toList.getLast? = some '\r'

theorem trim_withoutReturns (line : String) : trim (withoutReturns line) = trim line := by
  obtain ⟨u, v, hline, hv, hu⟩ := exists_trailing (· == '\r') line.toList
  have hblank : ∀ c ∈ v, isBlank c = true := fun c hc => beq_iff_eq.mp (hv c hc) ▸ rfl
  rw [trim, trim, withoutReturns, String.toList_ofList, hline, dropTrailing_append hv, dropTrailing_eq_self hu,
    trimChars_append hblank]

theorem withoutReturns_eq_self {line : String} (h : ¬ EndsInReturn line) : withoutReturns line = line := by
  have hlast : ∀ c, line.toList.getLast? = some c → (c == '\r') = false := by
    intro c hc
    refine beq_eq_false_iff_ne.mpr ?_
    rintro rfl
    exact h hc
  rw [withoutReturns, dropTrailing_eq_self hlast, String.ofList_toList]

theorem dropReturn_of_not_mem {line : List Char} (h : '\r' ∉ line) : dropReturn line = line := by
  unfold dropReturn
  split
  next hlast => exact absurd (List.mem_of_getLast? hlast) h
  next => rfl

theorem dropTrailing_dropReturn (line : List Char) :
    dropTrailing (· == '\r') (dropReturn line) = dropTrailing (· == '\r') line := by
  unfold dropReturn
  split
  next hlast =>
    conv_rhs => rw [← List.dropLast_append_getLast? '\r' hlast]
    exact (dropTrailing_append (by simp)).symm
  next => rfl

/-- Without a line feed inside, only carriage returns go from the end of a line. -/
theorem dropTrailing_of_not_mem {line : List Char} (h : '\n' ∉ line) :
    dropTrailing (fun c => c == '\n' || c == '\r') line = dropTrailing (· == '\r') line := by
  obtain ⟨u, v, rfl, hv, hu⟩ := exists_trailing (· == '\r') line
  have hboth : ∀ c, u.getLast? = some c → (c == '\n' || c == '\r') = false := by
    intro c hc
    have hmem : c ∈ u ++ v := List.mem_append_left v (List.mem_of_getLast? hc)
    have hfeed : c ≠ '\n' := fun heq => h (heq ▸ hmem)
    simp [hfeed, hu c hc]
  rw [dropTrailing_append (fun c hc => by simp [hv c hc]), dropTrailing_append hv, dropTrailing_eq_self hboth,
    dropTrailing_eq_self hu]

/-! ### Pieces -/

/-- What a text begins with when `rest` comes after it: a line and its line feed, or a last line. -/
inductive Piece : List Char → List Char → Prop
  | ended {line rest} : '\n' ∉ line → Piece (line ++ ['\n']) rest
  | last {line} : '\n' ∉ line → line ≠ [] → Piece line []

theorem splitLine?_of_not_mem {line : List Char} (h : '\n' ∉ line) : splitLine? line = none := by
  induction line with
  | nil => rfl
  | cons c line ih =>
    obtain ⟨hc, hline⟩ := not_or.mp (mt List.mem_cons.mpr h)
    simp [splitLine?, Ne.symm hc, ih hline]

theorem splitLine?_append {line rest : List Char} (h : '\n' ∉ line) :
    splitLine? (line ++ '\n' :: rest) = some (line, rest) := by
  induction line with
  | nil => rfl
  | cons c line ih =>
    obtain ⟨hc, hline⟩ := not_or.mp (mt List.mem_cons.mpr h)
    simp [splitLine?, Ne.symm hc, ih hline]

theorem linesOf_nil : linesOf [] = [] := by
  rw [linesOf]
  rfl

theorem linesOf_append {line rest : List Char} (h : '\n' ∉ line) :
    linesOf (line ++ '\n' :: rest) = dropReturn line :: linesOf rest := by
  rw [linesOf]
  split
  next hsplit =>
    cases (splitLine?_append h).symm.trans hsplit
    rfl
  next hsplit => cases (splitLine?_append h).symm.trans hsplit

theorem linesOf_of_not_mem {line : List Char} (h : '\n' ∉ line) (hne : line ≠ []) : linesOf line = [line] := by
  rw [linesOf]
  split
  next hsplit => cases (splitLine?_of_not_mem h).symm.trans hsplit
  next => rw [if_neg (mt List.isEmpty_iff.mp hne)]

namespace Piece
variable {p rest : List Char}

theorem ne_nil (h : Piece p rest) : p ≠ [] := by
  cases h with
  | ended => simp
  | last _ hne => exact hne

/-- The one way drops at most one carriage return, and the other way drops the rest of them. -/
theorem exists_line (h : Piece p rest) :
    ∃ line, linesOf (p ++ rest) = line :: linesOf rest ∧
      dropTrailing (fun c => c == '\n' || c == '\r') p = dropTrailing (· == '\r') line := by
  cases h with
  | @ended line rest hline =>
    refine ⟨dropReturn line, ?_, ?_⟩
    · rw [List.append_assoc, List.singleton_append, linesOf_append hline]
    · rw [dropTrailing_append (by simp), dropTrailing_of_not_mem hline, dropTrailing_dropReturn]
  | last hline hne =>
    refine ⟨p, ?_, dropTrailing_of_not_mem hline⟩
    rw [List.append_nil, linesOf_of_not_mem hline hne, linesOf_nil]

end Piece

theorem exists_piece {cs : List Char} (h : cs ≠ []) : ∃ p rest, cs = p ++ rest ∧ Piece p rest := by
  by_cases hfeed : '\n' ∈ cs
  · obtain ⟨line, rest, rfl, hline⟩ := List.eq_append_cons_of_mem hfeed
    exact ⟨line ++ ['\n'], rest, by simp, .ended hline⟩
  · exact ⟨cs, [], by simp, .last hfeed h⟩

/-- Induction over the pieces of a text. -/
@[elab_as_elim]
theorem pieces_induction {motive : List Char → Prop} (nil : motive [])
    (piece : ∀ p rest, Piece p rest → motive rest → motive (p ++ rest)) (cs : List Char) : motive cs := by
  induction hlength : cs.length using Nat.strong_induction_on generalizing cs with
  | _ n ih =>
    by_cases hnil : cs = []
    · exact hnil ▸ nil
    · obtain ⟨p, rest, rfl, hpiece⟩ := exists_piece hnil
      -- a piece is never empty, so the rest of the text is shorter
      have hpos : 0 < p.length := List.length_pos_iff.mpr hpiece.ne_nil
      rw [List.length_append] at hlength
      exact piece p rest hpiece (ih rest.length (by omega) rest rfl)

end ParserKit.Text
