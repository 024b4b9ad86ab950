import ParserKit.Proofs.Parser.Simulation
import ParserKit.Proofs.Parser.Totality

/-! Expressions inside expressions. A rule of the calculator goes back to expressions only directly after an opening
    parenthesis, however it repeats, skips spaces and gives up on the way there (`looksInside_exprOver`). So a run of
    expressions that is started by another one starts later in the text, with one parenthesis less ahead, and there
    are never more of them inside each other than the text has opening parentheses, and one for the outermost. That is
    why the rules come to an end, although nothing but the text bounds how often they go round (`rules_terminate`). -/

namespace ParserKit

namespace Simulation
variable {α : Type} {start : View}

/-- Runs over the text from `start` on stand for themselves alone. -/
def sameRun (start : View) : Simulation where
  view i j := i = j ∧ start.Later i
  events es fs := es = fs
  fault f g := f = g
  named := True
  cutLeft := False
  cutRight := False
  rest_eq h := h.1 ▸ rfl
  isEmpty_eq h := h.1 ▸ rfl
  drop h n := ⟨h.1 ▸ rfl, h.2.trans (View.later_drop _ n)⟩
  len_lt_iff h h' := h.1 ▸ h'.1 ▸ Iff.rfl
  nil := List.append_nil []
  append h h' := by rw [h, h']
  stopped h hn := by rw [h.1, hn trivial]

theorem Runs.eq_of_sameRun {i j : View} {r s : Run (Outcome α)}
    (h : (sameRun start).Runs ((sameRun start).Outcomes i j) r s) : r = s := by
  cases h with
  | cutLeft hS => exact hS.elim
  | cutRight hS => exact hS.elim
  | step hevents hending =>
    obtain rfl := hevents
    cases hending with
    | fault hf =>
      obtain rfl := hf
      rfl
    | unfinished => rfl
    | done ho =>
      cases ho with
      | failure => rfl
      | success hv _ _ =>
        obtain ⟨rfl, -⟩ := hv
        rfl

end Simulation

namespace Calculator
open Text ParserKit.Parser Simulation

variable {inner inner' : Parser Int} {rule : Parser Int → Parser Int} {start i j k : View} {u : List Char}

/-! ### After an opening parenthesis -/

/-- A place in the text from `i` on, directly after an opening parenthesis. -/
def Opened (i j : View) : Prop := ∃ k u, i.Later k ∧ k.rest = '(' :: u ∧ j = k.drop 1

theorem Opened.later (h : Opened i j) : i.Later j := by
  obtain ⟨k, u, hk, -, rfl⟩ := h
  exact hk.trans (k.later_drop 1)

theorem Opened.offset_lt (h : Opened i j) : i.offset < j.offset := by
  obtain ⟨k, u, hk, hu, rfl⟩ := h
  have hle := hk.offset_le
  have hsize := Char.utf8Size_pos '('
  simp only [View.drop_offset, hu, List.take_succ_cons, List.take_zero, byteLength]
  omega

theorem Opened.nesting_lt (h : Opened i j) : nesting j < nesting i := by
  obtain ⟨k, u, hk, hu, rfl⟩ := h
  have hle := count_rest_le hk
  simp only [nesting, View.drop_rest, hu, List.drop_succ_cons, List.drop_zero, List.count_cons_self] at hle ⊢
  omega

theorem Opened.exists_before (h : Opened i j) (hi : i.Valid) :
    ∃ before, j.text.toList = before ++ '(' :: j.rest ∧ j.offset = byteLength (before ++ ['(']) := by
  obtain ⟨k, u, hk, hu, rfl⟩ := h
  obtain ⟨before, htext, hoffset⟩ := hk.valid hi
  refine ⟨before, ?_, ?_⟩
  · rw [View.text, View.drop_buffer, View.drop_rest, htext, hu, List.drop_succ_cons, List.drop_zero]
  · rw [View.drop_offset, hoffset, hu, byteLength_append]
    rfl

/-! ### What a rule needs of the expressions -/

/-- Runs of the two from the places directly after opening parentheses are the same. -/
def AgreeInside (start : View) (inner inner' : Parser Int) : Prop :=
  ∀ j, Opened start j → (sameRun start).Runs ((sameRun start).Outcomes j j) (inner.parse j) (inner'.parse j)

theorem AgreeInside.of_parse_eq (hinner : (sameRun start).Similar inner' inner')
    (h : ∀ j, Opened start j → inner.parse j = inner'.parse j) : AgreeInside start inner inner' := by
  intro j hj
  rw [h j hj]
  exact hinner.run j j ⟨rfl, hj.later⟩

theorem alike_bracketed (h : AgreeInside start inner inner') :
    (sameRun start).Alike (bracketed inner) (bracketed inner') := by
  rintro i _ ⟨rfl, hi⟩
  by_cases hopen : Past (· == '(') i.rest
  · rw [bracketed_parse_of_past hopen, bracketed_parse_of_past hopen]
    exact .done .failure
  · obtain ⟨u, hu⟩ := exists_cons_of_not_past hopen
    rw [bracketed_parse_of_open hu, bracketed_parse_of_open hu]
    have hinner := (h _ ⟨i, u, hi, hu, rfl⟩).mono fun _ _ ho => ho.of_later (i.later_drop 1) (i.later_drop 1)
    refine Runs.onSuccess ?_ fun v _ _ hv hi hj => ?_
    · exact hinner.onSuccess fun v _ _ hv hi hj => .done (.success hv hi hj)
    · exact ((Similar.element ')').run_later hv hi hj).onSuccess fun _ _ _ hv hi hj => .done (.success hv hi hj)

theorem similar_bracketed (hname : inner.name = inner'.name) (h : AgreeInside start inner inner') :
    (sameRun start).Similar (bracketed inner) (bracketed inner') := by
  have hopened : ((element '(').ignorePrevious inner).name = ((element '(').ignorePrevious inner').name :=
    congrArg₂ (fun n m => s!"IgnorePrevious({n}, {m})") rfl hname
  exact ⟨fun _ => congrArg₂ (fun n m => s!"Ignore({n}, {m})") hopened rfl, alike_bracketed h⟩

/-- A rule that needs nothing of the expressions inside but what they make of the places directly after opening
    parentheses. -/
def LooksInside (rule : Parser Int → Parser Int) : Prop := ∀ {start : View} {inner inner' : Parser Int},
  inner.name = inner'.name → AgreeInside start inner inner' → (sameRun start).Similar (rule inner) (rule inner')

theorem looksInside_factorOver : LooksInside factorOver := fun hname h =>
  ((similar_bracketed hname h).orWith (Similar.integer.transform _)).padded.named _

theorem looksInside_termOver : LooksInside termOver := fun hname h =>
  ((looksInside_factorOver hname h).separatedBy (Similar.token "*") _ _).named _

theorem looksInside_exprOver : LooksInside exprOver := fun hname h =>
  ((looksInside_termOver hname h).separatedBy (Similar.token "+") _ _).named _

theorem LooksInside.parse_eq (hrule : LooksInside rule) (hname : inner.name = inner'.name)
    (hinner : (sameRun i).Similar inner' inner') (h : ∀ j, Opened i j → inner.parse j = inner'.parse j) :
    (rule inner).parse i = (rule inner').parse i :=
  ((hrule hname (.of_parse_eq hinner h)).run i i ⟨rfl, .refl i⟩).eq_of_sameRun

/-! ### Rounds -/

theorem exprWithin_parse_eq {d e : Nat} (hd : nesting i < d) (he : nesting i < e) :
    (exprWithin d).parse i = (exprWithin e).parse i := by
  induction d generalizing e i with
  | zero => omega
  | succ d ih =>
    obtain ⟨e, rfl⟩ : ∃ e', e = e' + 1 := ⟨e - 1, by omega⟩
    have hinner : (sameRun i).Similar (innerWithin e) (innerWithin e) := .lazy (Similar.exprWithin e).run
    show (exprOver (innerWithin d)).parse i = (exprOver (innerWithin e)).parse i
    refine looksInside_exprOver.parse_eq rfl hinner fun j hj => ?_
    have hlt := hj.nesting_lt
    exact ih (by omega) (by omega)

theorem innerWithin_parse_eq {d : Nat} (hd : nesting i < d) : (innerWithin d).parse i = expr.parse i :=
  exprWithin_parse_eq hd (Nat.lt_succ_self _)

theorem similar_lazy_expr : (sameRun start).Similar (lazy fun _ => expr) (lazy fun _ => expr) :=
  .lazy Similar.expr.run

/-- With at least as many rounds as there are parentheses to open, a rule makes the same of a text as with no bound. -/
theorem LooksInside.parse_innerWithin (hrule : LooksInside rule) {depth : Nat} (hdepth : nesting i ≤ depth) :
    (rule (innerWithin depth)).parse i = (rule (lazy fun _ => expr)).parse i :=
  hrule.parse_eq rfl similar_lazy_expr fun _ hj => innerWithin_parse_eq (Nat.lt_of_lt_of_le hj.nesting_lt hdepth)

/-! ### Runs inside each other -/

/-- The same parser, but a run from `j` breaks with this fault. -/
def brokenAt (p : Parser Int) (j : View) (f : Fault) : Parser Int :=
  fromFn p.naming fun k => if k = j then .raise f else p.parse k

/-- The run of the rule from `i` starts a run of the expressions between parentheses at `j`: whatever fault waits for
    it there, it is the end of the whole run. -/
def Enters (rule : Parser Int → Parser Int) (i j : View) : Prop :=
  ∀ f, ((rule (brokenAt (lazy fun _ => expr) j f)).parse i).ending = .fault f

/-- Runs of expressions inside each other, from the outermost to the innermost. The first is started by the run of the
    rule from `i`, and each of the others by the one before it. -/
def Nested : (Parser Int → Parser Int) → View → List View → Prop
  | _, _, [] => True
  | rule, i, j :: inside => Enters rule i j ∧ Nested exprOver j inside

theorem LooksInside.opened (hrule : LooksInside rule) (h : Enters rule i j) : Opened i j := by
  refine Classical.byContradiction fun hj => ?_
  -- a fault at a place that is not looked at changes nothing, so the run cannot end with one and with another
  have hsame : ∀ f, (rule (brokenAt (lazy fun _ => expr) j f)).parse i = (rule (lazy fun _ => expr)).parse i := by
    refine fun f => hrule.parse_eq rfl similar_lazy_expr fun k hk => ?_
    have hkj : k ≠ j := fun hkj => hj (hkj ▸ hk)
    simp [brokenAt, fromFn, hkj]
  have hzero := h (.boundary 0)
  have hone := h (.boundary 1)
  rw [hsame] at hzero hone
  rw [hzero] at hone
  cases hone

theorem LooksInside.length_le (hrule : LooksInside rule) {inside : List View} (h : Nested rule i inside) :
    inside.length ≤ nesting i := by
  induction inside generalizing rule i with
  | nil => exact Nat.zero_le _
  | cons j inside ih =>
    have hlt := (hrule.opened h.1).nesting_lt
    have hle := ih looksInside_exprOver h.2
    rw [List.length_cons]
    omega

/-! ### As deep as there are parentheses -/

theorem raise_onSuccess {α β : Type} (f : Fault) (next : α → View → Run (Outcome β)) :
    (Run.raise f).onSuccess next = .raise f := rfl

theorem padded_parse_of_raise {p : Parser Int} {f : Fault} (hi : i.Valid) (hspaces : Past (· == ' ') i.rest)
    (hp : p.parse i = .raise f) : (padded p).parse i = .raise f := by
  rw [padded_parse, whitespace_parse hi rfl spaces_nil hspaces, Run.done_success_onSuccess]
  show ((p.parse i).onSuccess _).onSuccess _ = _
  rw [hp, raise_onSuccess, raise_onSuccess]

theorem enters_of_open (hi : i.Valid) (hrest : i.rest = '(' :: u) : Enters exprOver i (i.drop 1) := by
  intro f
  have hspaces : Past (· == ' ') i.rest := by
    rw [hrest]
    exact past_cons.mpr (by decide)
  have hbroken : (brokenAt (lazy fun _ => expr) (i.drop 1) f).parse (i.drop 1) = .raise f := by
    simp [brokenAt, fromFn]
  have hfactor : (factorOver (brokenAt (lazy fun _ => expr) (i.drop 1) f)).parse i = .raise f := by
    rw [factorOver_parse]
    refine padded_parse_of_raise hi hspaces ?_
    rw [orWith_parse, bracketed_parse_of_open hrest, hbroken, raise_onSuccess, raise_onSuccess]
    rfl
  have hterm : (termOver (brokenAt (lazy fun _ => expr) (i.drop 1) f)).parse i = .raise f := by
    show ((factorOver _).parse i).onSuccess _ = _
    rw [hfactor, raise_onSuccess]
  show (((termOver _).parse i).onSuccess _).ending = _
  rw [hterm, raise_onSuccess]
  rfl

/-- Parentheses that are opened one after the other start one run inside the other. -/
theorem exists_nested (hi : i.Valid) {n : Nat} (hrest : i.rest = List.replicate n '(' ++ u) :
    ∃ inside, Nested exprOver i inside ∧ inside.length = n := by
  induction n generalizing i with
  | zero => exact ⟨[], trivial, rfl⟩
  | succ n ih =>
    obtain ⟨inside, hinside, hlength⟩ := ih (hi.drop 1) (by simp [hrest, List.replicate_succ])
    exact ⟨i.drop 1 :: inside, ⟨enters_of_open hi hrest, hinside⟩, by rw [List.length_cons, hlength]⟩

/-! ### The rules -/

/-- What is known of the runs of a rule from `i`. -/
structure Terminates (whole : Parser Int) (rule : Parser Int → Parser Int) (i : View) : Prop where
  halts : ∃ o, (whole.parse i).ending = .done o
  /-- It is the run of the rule that goes back to expressions without any bound. -/
  unbounded : whole.parse i = (rule (lazy fun _ => expr)).parse i
  /-- A run of expressions inside starts later, directly after an opening parenthesis. -/
  inside : ∀ j, Enters rule i j → j.buffer = i.buffer ∧ i.offset < j.offset ∧
    ∃ before, j.text.toList = before ++ '(' :: j.rest ∧ j.offset = byteLength (before ++ ['('])
  /-- Together with the run itself there is at most one more of them inside each other than there are opening
      parentheses in the rest of the text. -/
  depth : ∀ inside, Nested rule i inside → (i :: inside).length ≤ 1 + i.rest.count '('
  /-- So with that many rounds the run comes to the same. -/
  rounds : ∀ d, i.rest.count '(' ≤ d → (rule (innerWithin d)).parse i = whole.parse i

theorem LooksInside.terminates (hrule : LooksInside rule) (hi : i.Valid)
    (hhalts : ∃ o, ((unbounded rule).parse i).ending = .done o) : Terminates (unbounded rule) rule i where
  halts := hhalts
  unbounded := hrule.parse_innerWithin (Nat.le_refl _)
  inside j hj := ⟨(hrule.opened hj).later.buffer_eq, (hrule.opened hj).offset_lt, (hrule.opened hj).exists_before hi⟩
  depth inside h := by
    have hle : inside.length ≤ i.rest.count '(' := hrule.length_le h
    rw [List.length_cons]
    omega
  rounds d hd := by rw [unbounded_parse, hrule.parse_innerWithin hd, hrule.parse_innerWithin (Nat.le_refl _)]

/-- What the rules repeat: a `+` with the term after it, a `*` with the factor after it, a digit, and a space. -/
structure LoopsEnd (i : View) : Prop where
  sums : LoopEnds ((token "+").ignorePrevious (termOver (lazy fun _ => expr))) i
  products : LoopEnds ((token "*").ignorePrevious (factorOver (lazy fun _ => expr))) i
  digits : LoopEnds digitValue i
  spaces : LoopEnds (element ' ') i

theorem loopsEnd (hi : i.Valid) : LoopsEnd i where
  sums := ((Total.token "+").ignorePrevious Total.expr.lazy.termOver).loopEnds hi
  products := ((Total.token "*").ignorePrevious Total.expr.lazy.factorOver).loopEnds hi
  digits := Total.digitValue.loopEnds hi
  spaces := (Total.element ' ').loopEnds hi

/-- From every place in every text the rules come to an end, and so do all loops and all runs of expressions inside of
    them. -/
theorem rules_terminate {b : Buffer} {offset : Nat} (hi : View.startingAt b offset = .ok i) :
    Terminates expr exprOver i ∧ Terminates term termOver i ∧ Terminates factor factorOver i ∧ LoopsEnd i := by
  obtain ⟨-, -, hvalid⟩ := View.startingAt_eq_ok_iff.mp hi
  exact ⟨looksInside_exprOver.terminates hvalid (Total.expr.exists_ending hvalid),
    looksInside_termOver.terminates hvalid (Total.term.exists_ending hvalid),
    looksInside_factorOver.terminates hvalid (Total.factor.exists_ending hvalid), loopsEnd hvalid⟩

/-- Parentheses that are opened and never closed, after a character of two bytes. -/
theorem rules_terminate_unclosed :
    let i : View := ⟨⟨0, "é(((1 + "⟩, 2, ['(', '(', '(', '1', ' ', '+', ' ']⟩
    View.startingAt ⟨0, "é(((1 + "⟩ 2 = .ok i ∧
      (Terminates expr exprOver i ∧ Terminates term termOver i ∧ Terminates factor factorOver i ∧ LoopsEnd i) ∧
      ∃ inside, Nested exprOver i inside ∧ inside.length = nesting i := by
  intro i
  have hi : View.startingAt ⟨0, "é(((1 + "⟩ 2 = .ok i := rfl
  obtain ⟨-, -, hvalid⟩ := View.startingAt_eq_ok_iff.mp hi
  exact ⟨hi, rules_terminate hi, exists_nested hvalid (n := 3) (u := ['1', ' ', '+', ' ']) rfl⟩

end Calculator
end ParserKit
