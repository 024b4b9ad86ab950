import ParserKit.Proofs.Grammar.Consumption
import ParserKit.Proofs.Parser.Sequencing

/-! Spaces around a parser. A padded parser skips the longest run of spaces, runs the parser there, and skips the
    longest run of spaces after it (`padded_parse_eq`). Both runs are skipped for good: nothing is left of them for the
    parser or for a second padding, so to pad twice is to pad once, and a token that starts with a space never matches
    anything (`padding_skips`). -/

namespace ParserKit
open ParserKit.Text

namespace View
variable {i : View} {u v : List Char}

/-- The view after the longest run of spaces. -/
def pastSpaces (i : View) : View := i.drop (i.rest.takeWhile (· == ' ')).length

theorem pastSpaces_rest (i : View) : i.pastSpaces.rest = i.rest.dropWhile (· == ' ') :=
  drop_length_rest List.takeWhile_append_dropWhile.symm

theorem past_pastSpaces (i : View) : Past (· == ' ') i.pastSpaces.rest := by
  rw [pastSpaces_rest]
  exact past_dropWhile _ _

theorem Valid.pastSpaces (h : i.Valid) : i.pastSpaces.Valid := h.drop _

/-- Spaces with no space after them are the longest run. -/
theorem pastSpaces_eq_drop (hrest : i.rest = u ++ v) (hu : Spaces u) (hv : Past (· == ' ') v) :
    i.pastSpaces = i.drop u.length := by
  rw [pastSpaces, hrest, takeWhile_append_of_past (fun c hc => beq_iff_eq.mpr (hu c hc)) hv]

theorem pastSpaces_of_past (h : Past (· == ' ') i.rest) : i.pastSpaces = i :=
  pastSpaces_eq_drop (List.nil_append _).symm spaces_nil h

@[simp] theorem pastSpaces_pastSpaces (i : View) : i.pastSpaces.pastSpaces = i.pastSpaces :=
  pastSpaces_of_past i.past_pastSpaces

end View

namespace Parser
variable {α : Type} {p : Parser α} {i : View}

/-! ### Padding -/

/-- Every match of `p` from `i` ends between two characters. -/
def LeavesValid (p : Parser α) (i : View) : Prop :=
  ∀ v k, (p.parse i).ending = .done (.success v k) → k.Valid

theorem exists_whitespace_parse (hi : i.Valid) : ∃ s, whitespace.parse i = .done (.success s i.pastSpaces) := by
  obtain ⟨u, v, hrest, hu, hv⟩ := exists_spaces i.rest
  rw [View.pastSpaces_eq_drop hrest hu hv]
  exact ⟨_, whitespace_parse hi hrest hu hv⟩

theorem padded_parse_eq (hi : i.Valid) (hp : p.LeavesValid i.pastSpaces) : (padded p).parse i =
    (p.parse i.pastSpaces).onSuccess fun v k => .done (.success v k.pastSpaces) := by
  obtain ⟨before, hbefore⟩ := exists_whitespace_parse hi
  rw [padded_parse, hbefore, Run.done_success_onSuccess, Run.onSuccess_done]
  refine Run.onSuccess_congr fun v k hk => ?_
  obtain ⟨after, hafter⟩ := exists_whitespace_parse (hp v k hk)
  rw [hafter, Run.done_success_onSuccess]

/-- A padded parser has nothing more to skip where its spaces are skipped already. -/
theorem padded_parse_pastSpaces (hi : i.Valid) (hp : p.LeavesValid i.pastSpaces) :
    (padded p).parse i.pastSpaces = (padded p).parse i := by
  have hp' : p.LeavesValid i.pastSpaces.pastSpaces := by rwa [i.pastSpaces_pastSpaces]
  rw [padded_parse_eq hi hp, padded_parse_eq hi.pastSpaces hp', i.pastSpaces_pastSpaces]

theorem ending_padded_eq_success_iff (hi : i.Valid) (hp : p.LeavesValid i.pastSpaces) {v : α} {l : View} :
    ((padded p).parse i).ending = .done (.success v l) ↔
      ∃ k, (p.parse i.pastSpaces).ending = .done (.success v k) ∧ l = k.pastSpaces := by
  rw [padded_parse_eq hi hp, Run.ending_onSuccess_eq_success_iff]
  constructor
  · intro h
    obtain ⟨w, k, hk, hl⟩ := h
    cases hl
    exact ⟨k, hk, rfl⟩
  · intro h
    obtain ⟨k, hk, rfl⟩ := h
    exact ⟨v, k, hk, rfl⟩

theorem LeavesValid.padded (hi : i.Valid) (hp : p.LeavesValid i.pastSpaces) : (padded p).LeavesValid i := by
  intro v l hl
  obtain ⟨k, hk, rfl⟩ := (ending_padded_eq_success_iff hi hp).mp hl
  exact (hp v k hk).pastSpaces

theorem padded_padded_parse (hi : i.Valid) (hp : p.LeavesValid i.pastSpaces) :
    (padded (padded p)).parse i = (padded p).parse i := by
  have hagain : (padded p).LeavesValid i.pastSpaces := by
    rw [LeavesValid, padded_parse_pastSpaces hi hp]
    exact hp.padded hi
  rw [padded_parse_eq hi hagain, padded_parse_pastSpaces hi hp, padded_parse_eq hi hp, Run.onSuccess_assoc]
  simp only [Run.done_success_onSuccess, View.pastSpaces_pastSpaces]

/-- What `p` comes to from `i` with one padding, `once`, and with two, `twice`. -/
structure PadsAt (p once twice : Parser α) (i : View) : Prop where
  parse_eq :
    once.parse i = (p.parse i.pastSpaces).onSuccess fun v k => .done (.success v k.pastSpaces)
  succeeds_iff : ∀ v l, (once.parse i).ending = .done (.success v l) ↔
    ∃ k, (p.parse i.pastSpaces).ending = .done (.success v k) ∧ l = k.pastSpaces
  fails_iff : (once.parse i).ending = .done .failure ↔ (p.parse i.pastSpaces).ending = .done .failure
  /-- No space is left at the start of what follows. -/
  past : ∀ v l, (once.parse i).ending = .done (.success v l) → Past (· == ' ') l.rest
  twice_eq : twice.parse i = once.parse i

theorem padsAt (hi : i.Valid) (hp : p.LeavesValid i.pastSpaces) : PadsAt p (padded p) (padded (padded p)) i where
  parse_eq := padded_parse_eq hi hp
  succeeds_iff _ _ := ending_padded_eq_success_iff hi hp
  fails_iff := by
    rw [padded_parse_eq hi hp, Run.ending_onSuccess_eq_failure_iff, or_iff_left]
    intro h
    obtain ⟨v, k, -, hk⟩ := h
    cases hk
  past v l hl := by
    obtain ⟨k, -, rfl⟩ := (ending_padded_eq_success_iff hi hp).mp hl
    exact k.past_pastSpaces
  twice_eq := padded_padded_parse hi hp

/-! ### Tokens -/

theorem leavesValid_literal (s : String) (hi : i.Valid) : (literal s).LeavesValid i := by
  intro v k hk
  rw [literal_parse] at hk
  by_cases hs : s.toList <+: i.rest
  · rw [if_pos hs] at hk
    cases hk
    exact hi.drop _
  · rw [if_neg hs] at hk
    cases hk

theorem token_parse (s : String) (hi : i.Valid) : (token s).parse i =
    .done (if s.toList <+: i.pastSpaces.rest then .success s (i.pastSpaces.drop s.toList.length).pastSpaces
      else .failure) := by
  have htoken : (token s).parse i = (padded (literal s)).parse i := rfl
  rw [htoken, padded_parse_eq hi (leavesValid_literal s hi.pastSpaces), literal_parse]
  by_cases hs : s.toList <+: i.pastSpaces.rest
  · rw [if_pos hs, if_pos hs, Run.done_success_onSuccess]
  · rw [if_neg hs, if_neg hs, Run.done_failure_onSuccess]

/-- From `a` spaces, `s` and `b` spaces on, a token ends after all of them. -/
theorem token_parse_between {s : String} (hi : i.Valid) (hs : Past (· == ' ') s.toList) {a b : Nat} {tail : List Char}
    (htail : Past (· == ' ') tail)
    (hrest : i.rest = List.replicate a ' ' ++ (s.toList ++ (List.replicate b ' ' ++ tail))) :
    (token s).parse i = .done (.success s (i.drop (a + s.toList.length + b))) := by
  rw [token_parse s hi]
  rcases hchars : s.toList with _ | ⟨c, cs⟩
  · -- nothing parts the spaces, and all of them are skipped at once
    have hspaces : i.rest = (List.replicate a ' ' ++ List.replicate b ' ') ++ tail := by
      rw [hrest, hchars, List.nil_append, List.append_assoc]
    have hskip := View.pastSpaces_eq_drop hspaces ((spaces_replicate a).append (spaces_replicate b)) htail
    rw [if_pos List.nil_prefix, List.length_nil, View.drop_zero, View.pastSpaces_pastSpaces, hskip]
    simp
  · have hword : Past (· == ' ') (s.toList ++ (List.replicate b ' ' ++ tail)) := by
      rw [hchars, List.cons_append, past_cons]
      rwa [hchars, past_cons] at hs
    have hskip := View.pastSpaces_eq_drop hrest (spaces_replicate a) hword
    have hstart : i.pastSpaces.rest = s.toList ++ (List.replicate b ' ' ++ tail) := by
      rw [hskip, View.drop_length_rest hrest]
    have hend := View.pastSpaces_eq_drop (View.drop_length_rest hstart) (spaces_replicate b) htail
    rw [← hchars, if_pos ⟨_, hstart.symm⟩, hend, hskip]
    simp

/-- What the token `s` comes to from `i`. -/
structure MatchesToken (s : String) (i : View) : Prop where
  succeeds_iff : ∀ v l, ((token s).parse i).ending = .done (.success v l) ↔
    s.toList <+: i.pastSpaces.rest ∧ v = s ∧ l = (i.pastSpaces.drop s.toList.length).pastSpaces
  fails_iff : ((token s).parse i).ending = .done .failure ↔ ¬ s.toList <+: i.pastSpaces.rest
  between : Past (· == ' ') s.toList → ∀ a b tail, Past (· == ' ') tail →
    i.rest = List.replicate a ' ' ++ (s.toList ++ (List.replicate b ' ' ++ tail)) →
    ∃ l, (token s).parse i = .done (.success s l) ∧ l = i.drop (a + s.toList.length + b) ∧ l.rest = tail
  never : ¬ Past (· == ' ') s.toList → (token s).parse i = .done .failure

theorem matchesToken (s : String) (hi : i.Valid) : MatchesToken s i where
  succeeds_iff v l := by
    rw [token_parse s hi]
    by_cases hs : s.toList <+: i.pastSpaces.rest
    · simp [hs, Run.done, eq_comm]
    · simp [hs, Run.done]
  fails_iff := by
    rw [token_parse s hi]
    by_cases hs : s.toList <+: i.pastSpaces.rest
    · simp [hs, Run.done]
    · simp [hs, Run.done]
  between hs a b tail htail hrest := by
    refine ⟨_, token_parse_between hi hs htail hrest, rfl, ?_⟩
    have hall : i.rest = (List.replicate a ' ' ++ s.toList ++ List.replicate b ' ') ++ tail := by simp [hrest]
    have hdrop := View.drop_length_rest hall
    simpa only [List.length_append, List.length_replicate] using hdrop
  never hs := by
    obtain ⟨cs, hcs⟩ := exists_cons_of_not_past hs
    rw [token_parse s hi, if_neg]
    intro hprefix
    obtain ⟨w, hw⟩ := hprefix
    have hpast := i.past_pastSpaces
    rw [← hw, hcs, List.cons_append, past_cons] at hpast
    cases hpast

end Parser

namespace Grammar
open ParserKit.Parser

/-- From every place in a text, a padded parser is the parser after the longest run of spaces there, without the spaces
    that follow its match, and more padding makes no difference. A token is what starts there, so one that starts with
    a space is found nowhere. -/
theorem padding_skips {b : Buffer} {offset : Nat} {i : View} (hi : View.startingAt b offset = .ok i) :
    (∀ {α : Type} (p : Parser α), p.LeavesValid i.pastSpaces → PadsAt p (Parser.padded p) (Parser.padded (.padded p)) i) ∧
    (∀ (rules : Rules) (depth : Nat) (g : Grammar), PadsAt (g.parserWithin rules depth)
      ((padded g).parserWithin rules depth) ((padded (padded g)).parserWithin rules depth) i) ∧
    ∀ s : String, MatchesToken s i := by
  have hvalid := (View.startingAt_eq_ok_iff.mp hi).2.2
  refine ⟨fun p hp => padsAt hvalid hp, fun rules depth g => ?_, fun s => matchesToken s hvalid⟩
  have hstays := (consumption_parserWithin rules depth g).staysInText hvalid.pastSpaces
  exact padsAt hvalid fun _ _ hk => hstays.rest_valid hk

/-- Two spaces on both sides of a sign, after a character of two bytes. The longer sign takes a space that padding would
    skip as well. -/
theorem padding_skips_sign :
    View.startingAt ⟨0, "é  +  b"⟩ 2 = .ok ⟨⟨0, "é  +  b"⟩, 2, [' ', ' ', '+', ' ', ' ', 'b']⟩ ∧
    PadsAt (.literal "+ ") (Parser.padded (.literal "+ ")) (Parser.padded (.padded (.literal "+ ")))
      ⟨⟨0, "é  +  b"⟩, 2, [' ', ' ', '+', ' ', ' ', 'b']⟩ ∧
    (token "+").parse ⟨⟨0, "é  +  b"⟩, 2, [' ', ' ', '+', ' ', ' ', 'b']⟩ =
      .done (.success "+" ⟨⟨0, "é  +  b"⟩, 7, ['b']⟩) ∧
    (token " +").parse ⟨⟨0, "é  +  b"⟩, 2, [' ', ' ', '+', ' ', ' ', 'b']⟩ = .done .failure := by
  have hi : View.startingAt ⟨0, "é  +  b"⟩ 2 = .ok ⟨⟨0, "é  +  b"⟩, 2, [' ', ' ', '+', ' ', ' ', 'b']⟩ := rfl
  have hvalid := (View.startingAt_eq_ok_iff.mp hi).2.2
  obtain ⟨hpads, -, htoken⟩ := padding_skips hi
  obtain ⟨l, hparse, rfl, -⟩ := (htoken "+").between (past_cons.mpr rfl) 2 2 ['b'] (past_cons.mpr rfl) rfl
  exact ⟨hi, hpads _ (leavesValid_literal "+ " hvalid.pastSpaces), hparse, (htoken " +").never (by simp [past_cons])⟩

end Grammar
end ParserKit
