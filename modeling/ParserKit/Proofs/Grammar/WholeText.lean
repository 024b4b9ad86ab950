import ParserKit.Proofs.Grammar.Consumption
import ParserKit.Proofs.Parser.Repetition

/-! Ways to run a parser on a text. It can be asked what follows the match at the start of the text, it can be asked to
    match all of the text, and it can be run with the end of the text after it. All of these are one and the same run,
    and sort its outcomes in the same way: nothing matches, all of the text is matched, or some bytes are left over,
    which are counted from the end of the match to the end of the text (`ways_agree`). -/

namespace ParserKit

namespace View
variable {i j : View}

/-- What is left after a later view is left after the text in between as well. -/
theorem Later.exists_restText_eq (h : i.Later j) : ∃ taken, i.restText = taken ++ j.restText := by
  obtain ⟨skipped, hrest⟩ := h.exists_rest_eq
  exact ⟨String.ofList skipped, by rw [restText, hrest, String.ofList_append, restText]⟩

theorem restText_ofText (text : String) : (ofText text).restText = text := String.ofList_toList

end View

namespace Parser
variable {α β : Type} {p : Parser α} {e : Parser β} {text r : String} {i : View} {o : Outcome α} {v : α}

/-! ### What an outcome says -/

/-- The view after the match is one between two characters, if anything matches. -/
def EndsValid (o : Outcome α) : Prop := ∀ v k, o = .success v k → k.Valid

/-- What the match at the start of a text, with what follows it, means for the one who wanted all of the text. -/
def verdict : Option (α × String) → Except ParseError α
  | some (v, r) => if r = "" then .ok v else .error (.unconsumed r.utf8ByteSize)
  | none => .error .noMatch

theorem verdict_eq_ok_iff {x : Option (α × String)} : verdict x = .ok v ↔ x = some (v, "") := by
  obtain - | ⟨w, r⟩ := x
  · simp [verdict]
  · by_cases hr : r = ""
    · simp [verdict, hr]
    · simp [verdict, hr]

theorem verdict_eq_unconsumed_iff {x : Option (α × String)} {n : Nat} :
    verdict x = .error (.unconsumed n) ↔ ∃ v r, x = some (v, r) ∧ r ≠ "" ∧ n = r.utf8ByteSize := by
  constructor
  · intro h
    obtain - | ⟨w, r⟩ := x
    · cases h
    · by_cases hr : r = ""
      · rw [verdict, if_pos hr] at h
        cases h
      · rw [verdict, if_neg hr] at h
        cases h
        exact ⟨w, r, rfl, hr, rfl⟩
  · intro h
    obtain ⟨v, r, rfl, hr, rfl⟩ := h
    exact if_neg hr

theorem verdict_eq_noMatch_iff {x : Option (α × String)} : verdict x = .error .noMatch ↔ x = none := by
  obtain - | ⟨w, r⟩ := x
  · simp [verdict]
  · by_cases hr : r = ""
    · simp [verdict, hr]
    · simp [verdict, hr]

theorem completed_eq_verdict (ho : EndsValid o) : completed o = .ok (verdict o.toPair) := by
  obtain ⟨v, k⟩ | - := o
  · have hk := ho v k rfl
    have hpair : (Outcome.success v k).toPair = some (v, k.restText) := rfl
    rw [completed, hpair, verdict]
    by_cases hend : k.restText = ""
    · rw [if_pos (hk.isEmpty_iff_restText.mpr hend), if_pos hend]
    · rw [if_neg (mt hk.isEmpty_iff_restText.mp hend), if_neg hend, hk.remaining_eq, k.utf8ByteSize_restText]
      rfl
  · rfl

/-- The outcome if it ends at the end of the text, and a failure otherwise. -/
def atEnd : Outcome α → Outcome α
  | .success v k => if k.isEmpty then .success v k else .failure
  | .failure => .failure

theorem toPair_atEnd (ho : EndsValid o) : (atEnd o).toPair = o.toPair.filter fun x => x.2 = "" := by
  obtain ⟨v, k⟩ | - := o
  · have hk := ho v k rfl
    have hpair : (Outcome.success v k).toPair = some (v, k.restText) := rfl
    rw [atEnd, hpair]
    by_cases hend : k.restText = ""
    · rw [if_pos (hk.isEmpty_iff_restText.mpr hend), hpair, Option.filter, if_pos (decide_eq_true hend)]
    · rw [if_neg (mt hk.isEmpty_iff_restText.mp hend), Option.filter, if_neg (by simpa using hend)]
      rfl
  · rfl

/-! ### One run -/

theorem ending_parseStr_eq_some_iff : (p.parseStr text).ending = .done (some (v, r)) ↔
    ∃ k, (p.parse (.ofText text)).ending = .done (.success v k) ∧ k.restText = r := by
  rw [parseStr, Run.ending_andThen_done_iff]
  constructor
  · intro h
    obtain ⟨⟨w, k⟩ | -, hp, hpair⟩ := h
    · cases hpair
      exact ⟨k, hp, rfl⟩
    · cases hpair
  · intro h
    obtain ⟨k, hp, rfl⟩ := h
    exact ⟨_, hp, rfl⟩

theorem ending_parseStr_eq_none_iff :
    (p.parseStr text).ending = .done none ↔ (p.parse (.ofText text)).ending = .done .failure := by
  rw [parseStr, Run.ending_andThen_done_iff]
  constructor
  · intro h
    obtain ⟨⟨w, k⟩ | -, hp, hpair⟩ := h
    · cases hpair
    · exact hp
  · exact fun hp => ⟨_, hp, rfl⟩

theorem StaysInText.endsValid (h : p.StaysInText i) (ho : (p.parse i).ending = .done o) : EndsValid o := by
  intro v k hk
  subst hk
  exact h.rest_valid ho

theorem parseComplete_eq_parseStr (h : p.StaysInText (.ofText text)) :
    p.parseComplete text = (p.parseStr text).andThen fun x => .done (verdict x) := by
  rw [parseComplete, parseStr, Run.andThen_assoc]
  refine Run.andThen_congr fun o ho => ?_
  rw [completed_eq_verdict (h.endsValid ho)]
  rfl

theorem ending_parseComplete_eq_ok_iff (h : p.StaysInText (.ofText text)) :
    (p.parseComplete text).ending = .done (.ok v) ↔ (p.parseStr text).ending = .done (some (v, "")) := by
  simp only [parseComplete_eq_parseStr h, Run.ending_andThen_done_iff, verdict_eq_ok_iff, exists_eq_right]

theorem ending_parseComplete_eq_noMatch_iff (h : p.StaysInText (.ofText text)) :
    (p.parseComplete text).ending = .done (.error .noMatch) ↔ (p.parseStr text).ending = .done none := by
  simp only [parseComplete_eq_parseStr h, Run.ending_andThen_done_iff, verdict_eq_noMatch_iff, exists_eq_right]

theorem ending_parseComplete_eq_unconsumed_iff (h : p.StaysInText (.ofText text)) {n : Nat} :
    (p.parseComplete text).ending = .done (.error (.unconsumed n)) ↔
      ∃ v r, (p.parseStr text).ending = .done (some (v, r)) ∧ r ≠ "" ∧ n = r.utf8ByteSize := by
  simp only [parseComplete_eq_parseStr h, Run.ending_andThen_done_iff, verdict_eq_unconsumed_iff]
  constructor
  · intro hx
    obtain ⟨-, hx, v, r, rfl, hr, hn⟩ := hx
    exact ⟨v, r, hx, hr, hn⟩
  · intro hx
    obtain ⟨v, r, hx, hr, hn⟩ := hx
    exact ⟨_, hx, v, r, rfl, hr, hn⟩

/-- What follows the match is the end of the text. -/
theorem exists_taken (h : p.StaysInText (.ofText text)) (hr : (p.parseStr text).ending = .done (some (v, r))) :
    ∃ taken, text = taken ++ r := by
  obtain ⟨k, hp, rfl⟩ := ending_parseStr_eq_some_iff.mp hr
  obtain ⟨taken, htext⟩ := (h.later (View.valid_ofBuffer _) hp).exists_restText_eq
  rw [View.restText_ofText] at htext
  exact ⟨taken, htext⟩

/-! ### The end of the text -/

/-- The parser matches the end of the text and nothing else. -/
def MatchesEnd (e : Parser β) : Prop :=
  ∃ u, ∀ k, e.parse k = if k.isEmpty then .done (.success u k) else .done .failure

theorem matchesEnd_eof : MatchesEnd eof := ⟨(), fun _ => rfl⟩

theorem MatchesEnd.map {γ : Type} (he : MatchesEnd e) (f : β → γ) : MatchesEnd (f <$> e) := by
  obtain ⟨u, he⟩ := he
  refine ⟨f u, fun k => ?_⟩
  have hmap : (f <$> e).parse k = (e.parse k).andThen fun o => .done (o.map f) := rfl
  rw [hmap, he]
  by_cases hk : k.isEmpty = true
  · rw [if_pos hk, if_pos hk]
    rfl
  · rw [if_neg hk, if_neg hk]
    rfl

theorem MatchesEnd.ignore_parse (he : MatchesEnd e) (p : Parser α) (i : View) :
    (p.ignore e).parse i = (p.parse i).andThen fun o => .done (atEnd o) := by
  obtain ⟨u, he⟩ := he
  rw [Parser.ignore_parse]
  refine congrArg (p.parse i).andThen (funext fun o => ?_)
  obtain ⟨v, k⟩ | - := o
  · by_cases hk : k.isEmpty = true
    · simp [he, atEnd, hk]
    · simp [he, atEnd, hk]
  · rfl

theorem MatchesEnd.ignore_parseStr (he : MatchesEnd e) (h : p.StaysInText (.ofText text)) :
    (p.ignore e).parseStr text = (p.parseStr text).andThen fun x => .done (x.filter fun x => x.2 = "") := by
  rw [parseStr, he.ignore_parse, parseStr, Run.andThen_assoc, Run.andThen_assoc]
  refine Run.andThen_congr fun o ho => ?_
  rw [Run.done_andThen, Run.done_andThen, toPair_atEnd (h.endsValid ho)]

theorem MatchesEnd.ending_ignore_eq_success_iff (he : MatchesEnd e) (h : p.StaysInText (.ofText text)) :
    (∃ k, ((p.ignore e).parse (.ofText text)).ending = .done (.success v k)) ↔
      (p.parseStr text).ending = .done (some (v, "")) := by
  have hended : (∃ k, ((p.ignore e).parse (.ofText text)).ending = .done (.success v k)) ↔
      ∃ r, ((p.ignore e).parseStr text).ending = .done (some (v, r)) := by
    simp only [ending_parseStr_eq_some_iff, exists_comm, exists_and_left, exists_eq', and_true]
  simp only [hended, he.ignore_parseStr h, Run.ending_andThen_done_iff, Option.filter_eq_some_iff]
  constructor
  · intro hx
    obtain ⟨r, -, hx, rfl, hr⟩ := hx
    rw [← of_decide_eq_true hr]
    exact hx
  · exact fun hx => ⟨"", _, hx, rfl, rfl⟩

theorem MatchesEnd.ending_ignore_of_unconsumed (he : MatchesEnd e) (h : p.StaysInText (.ofText text))
    (hr : (p.parseStr text).ending = .done (some (v, r))) (hne : r ≠ "") :
    ((p.ignore e).parse (.ofText text)).ending = .done .failure := by
  rw [← ending_parseStr_eq_none_iff, he.ignore_parseStr h, Run.ending_andThen_done_iff]
  exact ⟨_, hr, by simp [hne]⟩

/-! ### All ways -/

/-- What is known when `p` has been run on `text` in one of the ways is known for the others. `ended` is `p` with the
    end of the text after it. -/
structure WaysAgree (p ended : Parser α) (text : String) : Prop where
  matches_iff : ∀ v r, (p.parseStr text).ending = .done (some (v, r)) ↔
    ∃ k, (p.parse (.ofText text)).ending = .done (.success v k) ∧ k.restText = r
  suffix : ∀ v r, (p.parseStr text).ending = .done (some (v, r)) → ∃ taken, text = taken ++ r
  ok_iff : ∀ v, (p.parseComplete text).ending = .done (.ok v) ↔ (p.parseStr text).ending = .done (some (v, ""))
  ended_iff : ∀ v, (∃ k, (ended.parse (.ofText text)).ending = .done (.success v k)) ↔
    (p.parseStr text).ending = .done (some (v, ""))
  unconsumed_iff : ∀ n, (p.parseComplete text).ending = .done (.error (.unconsumed n)) ↔
    ∃ v r, (p.parseStr text).ending = .done (some (v, r)) ∧ r ≠ "" ∧ n = r.utf8ByteSize
  unconsumed_bounds : ∀ n, (p.parseComplete text).ending = .done (.error (.unconsumed n)) →
    1 ≤ n ∧ n ≤ text.utf8ByteSize ∧ (ended.parse (.ofText text)).ending = .done .failure
  noMatch_iff : (p.parseComplete text).ending = .done (.error .noMatch) ↔ (p.parseStr text).ending = .done none
  failure_iff : (p.parseStr text).ending = .done none ↔ (p.parse (.ofText text)).ending = .done .failure
  /-- Where `p` comes to an outcome, all of them do. -/
  halts : ∀ o, (p.parse (.ofText text)).ending = .done o → (∃ x, (p.parseStr text).ending = .done x) ∧
    (∃ x, (p.parseComplete text).ending = .done x) ∧ ∃ o', (ended.parse (.ofText text)).ending = .done o'

theorem waysAgree_of_matchesEnd (he : MatchesEnd e) (h : p.StaysInText (.ofText text)) :
    WaysAgree p (p.ignore e) text where
  matches_iff _ _ := ending_parseStr_eq_some_iff
  suffix _ _ := exists_taken h
  ok_iff _ := ending_parseComplete_eq_ok_iff h
  ended_iff _ := he.ending_ignore_eq_success_iff h
  unconsumed_iff _ := ending_parseComplete_eq_unconsumed_iff h
  unconsumed_bounds n hn := by
    obtain ⟨v, r, hr, hne, rfl⟩ := (ending_parseComplete_eq_unconsumed_iff h).mp hn
    obtain ⟨taken, rfl⟩ := exists_taken h hr
    refine ⟨Nat.pos_of_ne_zero (mt String.utf8ByteSize_eq_zero_iff.mp hne), ?_, he.ending_ignore_of_unconsumed h hr hne⟩
    rw [String.utf8ByteSize_append]
    exact Nat.le_add_left _ _
  noMatch_iff := ending_parseComplete_eq_noMatch_iff h
  failure_iff := ending_parseStr_eq_none_iff
  halts o ho := by
    have hstr : (p.parseStr text).ending = .done o.toPair := Run.ending_andThen_done_iff.mpr ⟨o, ho, rfl⟩
    rw [parseComplete_eq_parseStr h, he.ignore_parse]
    exact ⟨⟨_, hstr⟩, ⟨_, Run.ending_andThen_done_iff.mpr ⟨_, hstr, rfl⟩⟩,
      ⟨_, Run.ending_andThen_done_iff.mpr ⟨o, ho, rfl⟩⟩⟩

end Parser

namespace Grammar
open ParserKit.Parser

/-- To ask for the match at the start of a text, to ask for a match of all of the text, and to end a parser with the end
    of the text are three views of one run: for every parser that stays in the text, and so for every grammar. -/
theorem ways_agree :
    (∀ {α : Type} (p : Parser α) (text : String), p.StaysInText (.ofText text) → WaysAgree p (p.ignore eof) text) ∧
    ∀ (rules : Rules) (depth : Nat) (via : Surface) (g : Grammar) (text : String),
      WaysAgree (g.parserWithin rules depth) ((Grammar.ignore via g (prim .eof)).parserWithin rules depth) text := by
  refine ⟨fun p text h => waysAgree_of_matchesEnd matchesEnd_eof h, fun rules depth via g text => ?_⟩
  have hstays := (consumption_parserWithin rules depth g).staysInText (View.valid_ofBuffer ⟨0, text⟩)
  have hended : (Grammar.ignore via g (prim .eof)).parserWithin rules depth =
      (g.parserWithin rules depth).ignore ((fun _ => Value.unit) <$> eof) := by
    simp only [parserWithin, parserWith, Surface.use_eq]
    rfl
  rw [hended]
  exact waysAgree_of_matchesEnd (matchesEnd_eof.map _) hstays

/-- A digit is followed by a character of two bytes. -/
theorem ways_agree_digit : (Parser.satisfy Char.isDigit).StaysInText (.ofText "1é") ∧
    ((Parser.satisfy Char.isDigit).parseComplete "1é").ending = .done (.error (.unconsumed 2)) ∧
    (((Parser.satisfy Char.isDigit).ignore eof).parse (.ofText "1é")).ending = .done .failure := by
  have hstays := (Simulation.Similar.satisfy (S := Simulation.consumption) Char.isDigit).staysInText
    (View.valid_ofBuffer ⟨0, "1é"⟩)
  have h := ways_agree.1 (Parser.satisfy Char.isDigit) "1é" hstays
  have hrest : ((Parser.satisfy Char.isDigit).parseComplete "1é").ending = .done (.error (.unconsumed 2)) := rfl
  exact ⟨hstays, hrest, (h.unconsumed_bounds 2 hrest).2.2⟩

end Grammar
end ParserKit
