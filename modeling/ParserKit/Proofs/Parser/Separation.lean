import ParserKit.Proofs.Parser.Repetition

/-! Separated lists. A list is an item, and then separators with an item after each. A separator counts only together
    with its item, and both only if they consume something. There is one way to go on like this until nothing of the
    kind follows (`Listed.unique`). A list takes all of it, folds the values of the items in their order and ends
    with an item, whatever follows (`separatedBy_greedy`). -/

namespace ParserKit.Parser
variable {α σ : Type} {p : Parser α} {separator : Parser σ} {i j k : View}

/-! ### A separator with an item -/

theorem ending_ignorePrevious_eq_success_iff {v : α} :
    ((separator.ignorePrevious p).parse i).ending = .done (.success v k) ↔
      ∃ w j, (separator.parse i).ending = .done (.success w j) ∧ (p.parse j).ending = .done (.success v k) := by
  have hcombine : (separator.ignorePrevious p).parse i = (separator.combine p fun _ v => v).parse i := rfl
  rw [hcombine, ending_combine_eq_success_iff]
  constructor
  · rintro ⟨w, j, u, hw, hu, rfl⟩
    exact ⟨w, j, hw, hu⟩
  · rintro ⟨w, j, hw, hv⟩
    exact ⟨w, j, v, hw, hv, rfl⟩

theorem ending_ignorePrevious_eq_failure_iff :
    ((separator.ignorePrevious p).parse i).ending = .done .failure ↔ (separator.parse i).ending = .done .failure ∨
      ∃ w j, (separator.parse i).ending = .done (.success w j) ∧ (p.parse j).ending = .done .failure := by
  rw [ignorePrevious_parse]
  simp only [Run.ending_onSuccess_eq_failure_iff]
  constructor
  · rintro (hw | ⟨w, j, hw, hu | ⟨u, k', hu, hdone⟩⟩)
    · exact Or.inl hw
    · exact Or.inr ⟨w, j, hw, hu⟩
    · cases hdone
  · rintro (hw | ⟨w, j, hw, hu⟩)
    · exact Or.inl hw
    · exact Or.inr ⟨w, j, hw, Or.inl hu⟩

theorem Repeatable.ignorePrevious (hs : Repeatable separator i) (hp : Repeatable p i) :
    Repeatable (separator.ignorePrevious p) i := by
  have hhalts : ∀ j : View, j.Valid → j.isSuffixOf i = true →
      ∃ o, ((separator.ignorePrevious p).parse j).ending = .done o := by
    intro j hj hji
    -- the item is looked for where the separator ended, which is later in the same text
    obtain ⟨⟨w, k⟩ | -, hw⟩ := hs.halts j hj hji
    · have hk := (hs.stays j hj hji).later hj hw
      obtain ⟨⟨v, l⟩ | -, hv⟩ := hp.halts k (hk.valid hj) (View.isSuffixOf_trans hk.isSuffixOf hji)
      · exact ⟨_, ending_ignorePrevious_eq_success_iff.mpr ⟨w, k, hw, hv⟩⟩
      · exact ⟨_, ending_ignorePrevious_eq_failure_iff.mpr (Or.inr ⟨w, k, hw, hv⟩)⟩
    · exact ⟨_, ending_ignorePrevious_eq_failure_iff.mpr (Or.inl hw)⟩
  refine ⟨hhalts, fun j hj hji => .of_later hj ?_ ?_⟩
  · intro v l hv
    obtain ⟨w, k, hw, hv⟩ := ending_ignorePrevious_eq_success_iff.mp hv
    have hk := (hs.stays j hj hji).later hj hw
    have hki := View.isSuffixOf_trans hk.isSuffixOf hji
    exact hk.trans ((hp.stays k (hk.valid hj) hki).later (hk.valid hj) hv)
  · intro f hf
    obtain ⟨o, ho⟩ := hhalts j hj hji
    rw [hf] at ho
    cases ho

/-! ### Lists -/

/-- A separator and the item after it, with the view that each of them ends at. -/
structure Link (σ α : Type) where
  mark : σ
  middle : View
  item : α
  stop : View

def Link.step (l : Link σ α) : α × View := (l.item, l.stop)

/-- Separators from `i` on with an item after each. Every separator starts where the item before it ended, and
    together with its item it consumes something. -/
def Tail (separator : Parser σ) (p : Parser α) : View → List (Link σ α) → Prop
  | _, [] => True
  | i, l :: links => (separator.parse i).ending = .done (.success l.mark l.middle) ∧
    (p.parse l.middle).ending = .done (.success l.item l.stop) ∧ i.offset < l.stop.offset ∧
    Tail separator p l.stop links

def tailEnd (i : View) (links : List (Link σ α)) : View := chainEnd i (links.map Link.step)

/-- No separator is there, or none with an item after it, or only such that consume nothing together. -/
def EndsList (separator : Parser σ) (p : Parser α) (k : View) : Prop :=
  (separator.parse k).ending = .done .failure ∨
  (∃ w j, (separator.parse k).ending = .done (.success w j) ∧ (p.parse j).ending = .done .failure) ∨
  ∃ w j v, (separator.parse k).ending = .done (.success w j) ∧ (p.parse j).ending = .done (.success v k)

theorem stops_ignorePrevious_iff : Stops (separator.ignorePrevious p) k ↔ EndsList separator p k := by
  simp only [Stops, EndsList, ending_ignorePrevious_eq_success_iff, ending_ignorePrevious_eq_failure_iff, or_assoc]
  constructor
  · rintro (hw | hv | ⟨v, w, j, hw, hv⟩)
    · exact Or.inl hw
    · exact Or.inr (Or.inl hv)
    · exact Or.inr (Or.inr ⟨w, j, v, hw, hv⟩)
  · rintro (hw | hv | ⟨w, j, v, hw, hv⟩)
    · exact Or.inl hw
    · exact Or.inr (Or.inl hv)
    · exact Or.inr (Or.inr ⟨v, w, j, hw, hv⟩)

theorem Tail.chain {links : List (Link σ α)} (h : Tail separator p i links) :
    Chain (separator.ignorePrevious p) i (links.map Link.step) := by
  induction links generalizing i with
  | nil => trivial
  | cons l links ih =>
    obtain ⟨hw, hv, hlt, htail⟩ := h
    exact ⟨ending_ignorePrevious_eq_success_iff.mpr ⟨l.mark, l.middle, hw, hv⟩, hlt, ih htail⟩

theorem Chain.exists_tail {steps : List (α × View)} (h : Chain (separator.ignorePrevious p) i steps) :
    ∃ links, Tail separator p i links ∧ links.map Link.step = steps := by
  induction steps generalizing i with
  | nil => exact ⟨[], trivial, rfl⟩
  | cons step steps ih =>
    obtain ⟨v, k⟩ := step
    obtain ⟨hunit, hlt, hchain⟩ := h
    obtain ⟨w, j, hw, hv⟩ := ending_ignorePrevious_eq_success_iff.mp hunit
    obtain ⟨links, htail, hsteps⟩ := ih hchain
    exact ⟨⟨w, j, v, k⟩ :: links, ⟨hw, hv, hlt, htail⟩, congrArg ((v, k) :: ·) hsteps⟩

theorem Tail.eq_of_map_step {links links' : List (Link σ α)} (h : Tail separator p i links)
    (h' : Tail separator p i links') (hsteps : links'.map Link.step = links.map Link.step) : links' = links := by
  induction links generalizing i links' with
  | nil => exact List.map_eq_nil_iff.mp hsteps
  | cons l links ih =>
    rcases links' with _ | ⟨l', links'⟩
    · cases hsteps
    · obtain ⟨w, j, v, k⟩ := l
      obtain ⟨w', j', v', k'⟩ := l'
      obtain ⟨hstep, hrest⟩ := List.cons.inj hsteps
      cases hstep
      obtain ⟨hw, -, -, htail⟩ := h
      obtain ⟨hw', -, -, htail'⟩ := h'
      -- both separators start where the item before them ended, so they are one match
      rw [hw] at hw'
      cases hw'
      rw [ih htail htail' hrest]

/-- A list that cannot go on: its first item, which ends at `k`, and what follows it. -/
structure Listed (separator : Parser σ) (p : Parser α) (i : View) (v : α) (k : View) (links : List (Link σ α)) :
    Prop where
  first : (p.parse i).ending = .done (.success v k)
  tail : Tail separator p k links
  ends : EndsList separator p (tailEnd k links)

theorem Listed.exhausts {v : α} {links : List (Link σ α)} (h : Listed separator p i v k links) :
    Exhausts (separator.ignorePrevious p) k (links.map Link.step) :=
  ⟨h.tail.chain, stops_ignorePrevious_iff.mpr h.ends⟩

theorem Listed.unique {v v' : α} {k' : View} {links links' : List (Link σ α)} (h : Listed separator p i v k links)
    (h' : Listed separator p i v' k' links') : v' = v ∧ k' = k ∧ links' = links := by
  have hfirst := h'.first
  rw [h.first] at hfirst
  cases hfirst
  exact ⟨rfl, rfl, h.tail.eq_of_map_step h'.tail (h.exhausts.unique h'.exhausts)⟩

/-! ### What a list takes -/

/-- A list fails only where its first item does: what follows is never an obligation. -/
theorem ending_separatedBy_eq_failure_iff {β : Type} (seed : β) (reduce : β → α → β) :
    ((p.separatedBy separator seed reduce).parse i).ending = .done .failure ↔ (p.parse i).ending = .done .failure := by
  have hparse : (p.separatedBy separator seed reduce).parse i = (p.parse i).onSuccess fun v k =>
      folded ((separator.ignorePrevious p).fold reduce (reduce seed v) k) := rfl
  rw [hparse, Run.ending_onSuccess_eq_failure_iff]
  refine ⟨?_, Or.inl⟩
  rintro (hp | ⟨v, k, -, hfolded⟩)
  · exact hp
  · exact absurd hfolded (ending_folded_ne_failure _)

/-- What the lists of `p` with this separator from `i` on do. There is exactly one list that cannot go on, and every
    list comes to the fold of its items, from the first on, at the end of the last of them. -/
structure TakesList (separator : Parser σ) (p : Parser α) (i : View) (v : α) (k : View) (links : List (Link σ α)) :
    Prop where
  listed : Listed separator p i v k links
  unique : ∀ v' k' links', Listed separator p i v' k' links' → v' = v ∧ k' = k ∧ links' = links
  separatedBy : ∀ {β : Type} (seed : β) (reduce : β → α → β),
    ((p.separatedBy separator seed reduce).parse i).ending =
      .done (.success ((v :: links.map (·.item)).foldl reduce seed) (tailEnd k links))

theorem Listed.takesList {v : α} {links : List (Link σ α)} (h : Listed separator p i v k links) (hk : k.Valid)
    (hunit : Repeatable (separator.ignorePrevious p) k) : TakesList separator p i v k links := by
  refine ⟨h, fun _ _ _ h' => h.unique h', fun seed reduce => ?_⟩
  have hitems : (links.map Link.step).map (·.1) = links.map (·.item) := by
    rw [List.map_map]
    rfl
  have hfold := fold_of_exhausts hunit hk h.exhausts reduce (reduce seed v)
  rw [hitems] at hfold
  have hfolded : (folded ((separator.ignorePrevious p).fold reduce (reduce seed v) k)).ending =
      .done (.success ((links.map (·.item)).foldl reduce (reduce seed v)) (tailEnd k links)) :=
    ending_folded_eq_success_iff.mpr hfold
  exact Run.ending_onSuccess_eq_success_iff.mpr ⟨v, k, h.first, hfolded⟩

/-- A list fails where its first item does, and else takes all that it can, up to the end of an item. -/
theorem separatedBy_greedy {b : Buffer} {offset : Nat} (hi : View.startingAt b offset = .ok i) (hp : Repeatable p i)
    (hs : Repeatable separator i) :
    (∀ {β : Type} (seed : β) (reduce : β → α → β),
      ((p.separatedBy separator seed reduce).parse i).ending = .done .failure ↔
        (p.parse i).ending = .done .failure) ∧
    ((p.parse i).ending ≠ .done .failure → ∃ v k links, TakesList separator p i v k links) := by
  refine ⟨ending_separatedBy_eq_failure_iff, fun hfail => ?_⟩
  obtain ⟨-, -, hvalid⟩ := View.startingAt_eq_ok_iff.mp hi
  obtain ⟨⟨v, k⟩ | -, hv⟩ := hp.halts i hvalid (View.Later.refl i).isSuffixOf
  · have hk := (hp.stays i hvalid (View.Later.refl i).isSuffixOf).later hvalid hv
    -- what is repeated is a separator with its item, from the end of the first item on
    have hunit : Repeatable (separator.ignorePrevious p) k := (hs.ignorePrevious hp).of_later hk
    obtain ⟨steps, hchain, hstops⟩ := hunit.exists_exhausts (hk.valid hvalid)
    obtain ⟨links, htail, rfl⟩ := hchain.exists_tail
    have hlisted : Listed separator p i v k links := ⟨hv, htail, stops_ignorePrevious_iff.mp hstops⟩
    exact ⟨v, k, links, hlisted.takesList (hk.valid hvalid) hunit⟩
  · exact absurd hv hfail

/-- Digits and commas that may each be missing. The first item is empty, and two separators have only one of the two
    after them; the list ends before a letter, where both are missing. -/
theorem separatedBy_greedy_missing :
    let i : View := .ofText ",1,,a"
    let digit := (satisfy Char.isDigit).optional
    let comma := (satisfy (· == ',')).optional
    View.startingAt ⟨0, ",1,,a"⟩ 0 = .ok i ∧ Repeatable digit i ∧ Repeatable comma i ∧
      (digit.parse i).ending ≠ .done .failure ∧
      TakesList comma digit i none i [⟨some ',', i.drop 1, some '1', i.drop 2⟩, ⟨some ',', i.drop 3, none, i.drop 3⟩,
        ⟨some ',', i.drop 4, none, i.drop 4⟩] := by
  intro i digit comma
  have hi : View.startingAt ⟨0, ",1,,a"⟩ 0 = .ok i := rfl
  have hdigit : Repeatable digit i := repeatable_optional_satisfy Char.isDigit i
  have hcomma : Repeatable comma i := repeatable_optional_satisfy (· == ',') i
  have hlisted : Listed comma digit i none i [⟨some ',', i.drop 1, some '1', i.drop 2⟩,
      ⟨some ',', i.drop 3, none, i.drop 3⟩, ⟨some ',', i.drop 4, none, i.drop 4⟩] :=
    ⟨rfl, ⟨rfl, rfl, by decide, rfl, rfl, by decide, rfl, rfl, by decide, trivial⟩,
      Or.inr (Or.inr ⟨none, i.drop 4, none, rfl, rfl⟩)⟩
  have hfirst : (digit.parse i).ending ≠ .done .failure := by
    rw [hlisted.first]
    exact fun h => nomatch h
  obtain ⟨v, k, links, h⟩ := (separatedBy_greedy hi hdigit hcomma).2 hfirst
  obtain ⟨rfl, rfl, rfl⟩ := h.unique _ _ _ hlisted
  exact ⟨hi, hdigit, hcomma, hfirst, h⟩

end ParserKit.Parser
