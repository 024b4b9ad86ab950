import ParserKit.Proofs.Parser.Collection
import ParserKit.Proofs.Parser.Integer
import ParserKit.Proofs.Parser.Padding
import ParserKit.Proofs.Parser.Separation

/-! Lists of numbers. Numbers with commas between them are all of a text exactly if the text is made of runs of decimal
    digits with one comma between any two, and spaces only next to the commas (`Enumerates`). Spaces belong to the
    comma, so none may stand before the first number or after the last one, and a comma without a number after it is
    left over. What is written of a list of words is read back, however many spaces there are around each comma
    (`integers_listed`). -/

namespace ParserKit

namespace Text

/-- Decimal digits, at least one. -/
def Numeral (w : List Char) : Prop := w ≠ [] ∧ ∀ c ∈ w, '0' ≤ c ∧ c ≤ '9'

/-- The text is these numerals, with one comma between any two of them that may have spaces around it. -/
inductive Enumerates : List Char → List (List Char) → Prop
  | last {w} : Numeral w → Enumerates w [w]
  | next {w cs ws} (before after : Nat) : Numeral w → Enumerates cs ws →
      Enumerates (w ++ (List.replicate before ' ' ++ ',' :: (List.replicate after ' ' ++ cs))) (w :: ws)

theorem Numeral.digitRun {w z : List Char} (h : Numeral w) (hz : Past Char.isDigit z) : DigitRun (w ++ z) w z :=
  ⟨rfl, h.1, h.2, past_isDigit_iff.mp hz⟩

theorem Numeral.exists_cons {w : List Char} (h : Numeral w) : ∃ c u, w = c :: u ∧ ('0' ≤ c ∧ c ≤ '9') := by
  obtain ⟨hne, hdigits⟩ := h
  rcases w with _ | ⟨c, u⟩
  · exact absurd rfl hne
  · exact ⟨c, u, rfl, hdigits c List.mem_cons_self⟩

/-- No space stands before the first numeral. -/
theorem Enumerates.past_space {cs : List Char} {ws : List (List Char)} (h : Enumerates cs ws) :
    Past (· == ' ') cs := by
  have hhead : ∀ {w z}, Numeral w → Past (· == ' ') (w ++ z) := by
    intro w z hw
    obtain ⟨c, u, rfl, hc⟩ := hw.exists_cons
    rw [List.cons_append, past_cons, beq_eq_false_iff_ne]
    rintro rfl
    exact absurd hc (by decide)
  cases h with
  | last hw => simpa using hhead (z := []) hw
  | next before after hw _ => exact hhead hw

theorem past_isDigit_separator (before : Nat) (cs : List Char) :
    Past Char.isDigit (List.replicate before ' ' ++ ',' :: cs) := by
  rcases before with _ | before
  · exact past_cons.mpr rfl
  · exact past_cons.mpr rfl

end Text

namespace View
open Text

theorem exists_replicate_eq (i : View) : ∃ n, i.rest = List.replicate n ' ' ++ i.pastSpaces.rest := by
  refine ⟨(i.rest.takeWhile (· == ' ')).length, ?_⟩
  have hspaces : i.rest.takeWhile (· == ' ') = List.replicate (i.rest.takeWhile (· == ' ')).length ' ' := by
    refine List.eq_replicate_of_mem fun c hc => ?_
    have htest := of_mem_takeWhile hc
    exact beq_iff_eq.mp htest
  rw [pastSpaces_rest, ← hspaces, List.takeWhile_append_dropWhile]

end View

namespace Parser
open ParserKit.Text
variable {i k : View} {v : Int} {links : List (Link String Int)} {cs : List Char} {ws : List (List Char)}

theorem Total.staysInText {α : Type} {p : Parser α} (h : p.Total) (hi : i.Valid) : p.StaysInText i := by
  obtain ⟨o, ho, honward⟩ := h i hi
  refine .of_later hi (fun hp => ?_) (fun hp => ?_)
  · rw [ho] at hp
    cases hp
    exact honward
  · rw [ho] at hp
    cases hp

theorem Total.repeatable {α : Type} {p : Parser α} (h : p.Total) (i : View) : Repeatable p i where
  halts j hj _ := by
    obtain ⟨o, ho, -⟩ := h j hj
    exact ⟨o, ho⟩
  stays j hj _ := h.staysInText hj

/-- The values of the numerals. -/
def wordsOf (ws : List (List Char)) : List Int := ws.map fun w => (wordOf w : Int)

/-! ### Commas -/

theorem comma_parse_iff {mark : String} (hi : i.Valid) : ((token ",").parse i).ending = .done (.success mark k) ↔
    mark = "," ∧ ∃ z, i.pastSpaces.rest = ',' :: z ∧ k = (i.pastSpaces.drop 1).pastSpaces := by
  rw [(matchesToken "," hi).succeeds_iff]
  constructor
  · intro h
    obtain ⟨⟨z, hz⟩, rfl, rfl⟩ := h
    exact ⟨rfl, z, hz.symm, rfl⟩
  · intro h
    obtain ⟨rfl, z, hz, rfl⟩ := h
    exact ⟨⟨z, hz.symm⟩, rfl, rfl⟩

/-- What stands before the number after a comma. -/
theorem exists_separator {mark : String} (hi : i.Valid) (h : ((token ",").parse i).ending = .done (.success mark k)) :
    k.Valid ∧ ∃ before after, i.rest = List.replicate before ' ' ++ ',' :: (List.replicate after ' ' ++ k.rest) := by
  obtain ⟨-, z, hz, rfl⟩ := (comma_parse_iff hi).mp h
  obtain ⟨before, hbefore⟩ := i.exists_replicate_eq
  obtain ⟨after, hafter⟩ := (i.pastSpaces.drop 1).exists_replicate_eq
  refine ⟨(hi.pastSpaces.drop 1).pastSpaces, before, after, ?_⟩
  rw [← hafter, View.drop_rest, hz]
  rw [hz] at hbefore
  exact hbefore

theorem comma_fails_at_end (hi : i.Valid) (hend : i.rest = []) : ((token ",").parse i).ending = .done .failure := by
  rw [(matchesToken "," hi).fails_iff, View.pastSpaces_rest, hend]
  decide

/-! ### Lists -/

/-- Numbers with a comma between any two of them. -/
def integerList : Parser (List Int) := integer.separatedBy (token ",") [] collect

theorem foldl_collect_nil {α : Type} (vs : List α) : vs.foldl collect [] = vs := by
  have hall : ∀ taken : List α, vs.foldl collect taken = taken ++ vs := by
    induction vs with
    | nil => exact fun taken => (List.append_nil taken).symm
    | cons v vs ih =>
      intro taken
      rw [List.foldl_cons, ih, collect, List.append_assoc, List.singleton_append]
  exact hall []

/-- A list that ends with the text is made of numerals. -/
theorem Tail.exists_enumerates (hi : i.Valid) (hfirst : (integer.parse i).ending = .done (.success v k))
    (htail : Tail (token ",") integer k links) (hend : (tailEnd k links).rest = []) :
    ∃ ws, Enumerates i.rest ws ∧ v :: links.map (·.item) = wordsOf ws := by
  induction links generalizing i v k with
  | nil =>
    obtain ⟨w, z, hrun, rfl, rfl⟩ := ((readsInteger hi).succeeds_iff v k).mp hfirst
    have hz : z = [] := (View.drop_length_rest hrun.eq).symm.trans hend
    rw [hrun.eq, hz, List.append_nil]
    exact ⟨[w], .last ⟨hrun.ne_nil, hrun.digits⟩, rfl⟩
  | cons l links ih =>
    obtain ⟨w, z, hrun, rfl, rfl⟩ := ((readsInteger hi).succeeds_iff v k).mp hfirst
    obtain ⟨hmark, hitem, -, hlater⟩ := htail
    obtain ⟨hmiddle, before, after, hseparator⟩ := exists_separator (hi.drop _) hmark
    obtain ⟨ws, hws, hitems⟩ := ih hmiddle hitem hlater hend
    rw [View.drop_length_rest hrun.eq] at hseparator
    refine ⟨w :: ws, ?_, ?_⟩
    · rw [hrun.eq, hseparator]
      exact .next before after ⟨hrun.ne_nil, hrun.digits⟩ hws
    · rw [List.map_cons, hitems, wordsOf, wordsOf, List.map_cons]

/-- Numerals are a list that ends with the text. -/
theorem exists_listed (h : Enumerates cs ws) (hi : i.Valid) (hrest : i.rest = cs) :
    ∃ v k links, k.Valid ∧ Listed (token ",") integer i v k links ∧ (tailEnd k links).rest = [] ∧
      v :: links.map (·.item) = wordsOf ws := by
  induction h generalizing i with
  | @last w hw =>
    have hrun : DigitRun i.rest w [] := by
      rw [hrest]
      simpa using hw.digitRun past_nil
    have hfirst := congrArg Run.ending (integer_parse_of_digitRun hi hrun)
    have hend : (i.drop w.length).rest = [] := View.drop_length_rest hrun.eq
    exact ⟨_, _, [], hi.drop _, ⟨hfirst, trivial, Or.inl (comma_fails_at_end (hi.drop _) hend)⟩, hend, rfl⟩
  | @next w cs ws before after hw hcs ih =>
    have hrun : DigitRun i.rest w (List.replicate before ' ' ++ ',' :: (List.replicate after ' ' ++ cs)) := by
      rw [hrest]
      exact hw.digitRun (past_isDigit_separator before _)
    have hfirst := congrArg Run.ending (integer_parse_of_digitRun hi hrun)
    have hk : (i.drop w.length).Valid := hi.drop _
    have hkrest := View.drop_length_rest hrun.eq
    obtain ⟨middle, hmark, hmiddle, hmiddlerest⟩ :=
      (matchesToken "," hk).between (past_cons.mpr rfl) before after cs hcs.past_space hkrest
    have hlater : (i.drop w.length).Later middle := ⟨_, hmiddle⟩
    obtain ⟨v, k, links, hvalid, hlisted, hend, hitems⟩ := ih (hlater.valid hk) hmiddlerest
    have honward := (Total.integer.staysInText (hlater.valid hk)).later (hlater.valid hk) hlisted.first
    -- the comma has been taken, so the number ends later than the one before it
    have hshorter : k.rest.length < (i.drop w.length).rest.length := by
      obtain ⟨taken, htaken⟩ := honward.exists_rest_eq
      have hlength := congrArg List.length htaken
      rw [hmiddlerest, List.length_append] at hlength
      rw [hkrest, List.length_append, List.length_cons, List.length_append]
      omega
    refine ⟨_, _, ⟨",", middle, v, k⟩ :: links, hk, ⟨hfirst, ?_, hlisted.ends⟩, hend, ?_⟩
    · exact ⟨congrArg Run.ending hmark, hlisted.first, (hlater.trans honward).offset_lt hshorter, hlisted.tail⟩
    · rw [List.map_cons, hitems, wordsOf, wordsOf, List.map_cons]

/-! ### Whole texts -/

theorem total_integerList : integerList.Total := Total.integer.separatedBy (Total.token ",") [] collect

theorem Listed.integerList_parse (h : Listed (token ",") integer i v k links) (hk : k.Valid) :
    (integerList.parse i).ending = .done (.success (v :: links.map (·.item)) (tailEnd k links)) := by
  have hunit := (Total.token ",").ignorePrevious Total.integer
  have hparse := (h.takesList hk (hunit.repeatable k)).separatedBy [] collect
  rwa [foldl_collect_nil] at hparse

theorem exists_listed_of_success {l : List Int} {j : View} (hi : i.Valid)
    (hparse : (integerList.parse i).ending = .done (.success l j)) :
    ∃ v k links, Listed (token ",") integer i v k links ∧ l = v :: links.map (·.item) ∧ j = tailEnd k links := by
  obtain ⟨v, k, hfirst, -⟩ := Run.ending_onSuccess_eq_success_iff.mp hparse
  have hk := (Total.integer.staysInText hi).rest_valid hfirst
  have hunit := (Total.token ",").ignorePrevious Total.integer
  obtain ⟨steps, hchain, hstops⟩ := (hunit.repeatable k).exists_exhausts hk
  obtain ⟨links, htail, rfl⟩ := hchain.exists_tail
  have hlisted : Listed (token ",") integer i v k links := ⟨hfirst, htail, stops_ignorePrevious_iff.mp hstops⟩
  rw [hlisted.integerList_parse hk] at hparse
  cases hparse
  exact ⟨v, k, links, hlisted, rfl, rfl⟩

theorem integerList_parseComplete_eq_ok_iff {text : String} {l : List Int} :
    (integerList.parseComplete text).ending = .done (.ok l) ↔ ∃ ws, Enumerates text.toList ws ∧ l = wordsOf ws := by
  have hi : (View.ofText text).Valid := View.valid_ofBuffer _
  rw [ending_parseComplete_eq_ok_iff (total_integerList.staysInText hi), ending_parseStr_eq_some_iff]
  simp only [View.restText_eq_empty_iff]
  constructor
  · intro h
    obtain ⟨j, hparse, hend⟩ := h
    obtain ⟨v, k, links, hlisted, rfl, rfl⟩ := exists_listed_of_success hi hparse
    exact hlisted.tail.exists_enumerates hi hlisted.first hend
  · intro h
    obtain ⟨ws, hws, rfl⟩ := h
    obtain ⟨v, k, links, hk, hlisted, hend, hitems⟩ := exists_listed hws hi rfl
    rw [← hitems]
    exact ⟨_, hlisted.integerList_parse hk, hend⟩

theorem integerList_parseComplete_halts (text : String) : ∃ x, (integerList.parseComplete text).ending = .done x := by
  have hi : (View.ofText text).Valid := View.valid_ofBuffer _
  obtain ⟨o, ho, -⟩ := total_integerList _ hi
  exact ((waysAgree_of_matchesEnd matchesEnd_eof (total_integerList.staysInText hi)).halts o ho).2.1

/-! ### Written lists -/

/-- A number of a list after the first, with the spaces around the comma before it. -/
structure Entry where
  before : Nat
  after : Nat
  value : Nat

def Entry.toChars (e : Entry) : List Char :=
  List.replicate e.before ' ' ++ ',' :: (List.replicate e.after ' ' ++ Nat.toDigits 10 e.value)

/-- What is written of a list with this first number. -/
def writtenList (first : Nat) (more : List Entry) : String :=
  String.ofList (Nat.toDigits 10 first ++ more.flatMap Entry.toChars)

theorem numeral_toDigits (n : Nat) : Numeral (Nat.toDigits 10 n) :=
  ⟨Nat.toDigits_ne_nil, fun _ hc => isDigit_iff.mp (Nat.isDigit_of_mem_toDigits (by omega) (by omega) hc)⟩

theorem wordOf_toDigits {n : Nat} (hn : n < Nat.pow 2 64) : wordOf (Nat.toDigits 10 n) = n := by
  rw [wordOf, Nat.ofDigitChars_ten_toDigits]
  exact Nat.min_eq_left (Nat.le_pred_of_lt hn)

theorem enumerates_written (first : Nat) (more : List Entry) :
    Enumerates (Nat.toDigits 10 first ++ more.flatMap Entry.toChars)
      (Nat.toDigits 10 first :: more.map fun e => Nat.toDigits 10 e.value) := by
  induction more generalizing first with
  | nil => simpa using Enumerates.last (numeral_toDigits first)
  | cons e more ih =>
    have hnext := Enumerates.next e.before e.after (numeral_toDigits first) (ih e.value)
    simpa [Entry.toChars] using hnext

theorem integerList_parseComplete_written {first : Nat} {more : List Entry} (hfirst : first < Nat.pow 2 64)
    (hmore : ∀ e ∈ more, e.value < Nat.pow 2 64) : (integerList.parseComplete (writtenList first more)).ending =
      .done (.ok (first :: more.map fun e => (e.value : Int))) := by
  refine integerList_parseComplete_eq_ok_iff.mpr
    ⟨Nat.toDigits 10 first :: more.map fun e => Nat.toDigits 10 e.value, ?_, ?_⟩
  · rw [writtenList, String.toList_ofList]
    exact enumerates_written first more
  · rw [wordsOf, List.map_cons, wordOf_toDigits hfirst, List.map_map]
    refine congrArg _ (List.map_congr_left fun e he => ?_)
    rw [Function.comp_apply, wordOf_toDigits (hmore e he)]

/-- Lists of numbers are read exactly from the texts that enumerate them, and what is written of a list of words is such
    a text for it. Every other text has an error. -/
theorem integers_listed :
    (∀ (text : String) (l : List Int), (integerList.parseComplete text).ending = .done (.ok l) ↔
      ∃ ws, Enumerates text.toList ws ∧ l = wordsOf ws) ∧
    (∀ text, ∃ x, (integerList.parseComplete text).ending = .done x) ∧
    ∀ (first : Nat) (more : List Entry), first < Nat.pow 2 64 → (∀ e ∈ more, e.value < Nat.pow 2 64) →
      (integerList.parseComplete (writtenList first more)).ending =
        .done (.ok (first :: more.map fun e => (e.value : Int))) :=
  ⟨fun _ _ => integerList_parseComplete_eq_ok_iff, integerList_parseComplete_halts,
    fun _ _ hfirst hmore => integerList_parseComplete_written hfirst hmore⟩

theorem integers_listed_spaces :
    (integerList.parseComplete "1, 20  ,18446744073709551615").ending =
      .done (.ok [1, 20, 18446744073709551615]) ∧
    (integerList.parseComplete "007 ,2").ending = .done (.ok [7, 2]) := by
  obtain ⟨hiff, -, hwritten⟩ := integers_listed
  refine ⟨hwritten 1 [⟨0, 1, 20⟩, ⟨2, 0, 18446744073709551615⟩] (by decide) (by decide), ?_⟩
  have hseven : Numeral ['0', '0', '7'] := ⟨by decide, by simp⟩
  have htwo : Numeral ['2'] := ⟨by decide, by simp⟩
  exact (hiff "007 ,2" [7, 2]).mpr ⟨[['0', '0', '7'], ['2']], .next 1 0 hseven (.last htwo), rfl⟩

end Parser
end ParserKit
