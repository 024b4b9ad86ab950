import ParserKit.Proofs.Grammar.WholeText

/-! Stretches of characters. A parser of single characters that is repeated, with its characters put together, takes the
    longest stretch of characters that pass its test, and leaves the text from the first character on that does not
    (`TakesOne.takesStretch`). So two such parsers that pass opposite characters, run in turn until the text ends, cut
    the text where it changes from the ones to the others, and nothing of it is lost (`stretches_split`). -/

namespace ParserKit.Parser
open Text

/-- The characters that `p` takes one after the other, put together. -/
def stretch (p : Parser Char) : Parser String := p.many "" String.push

section
variable {p q : Parser Char} {test opposite : Char → Bool} {passes : Char → Prop} {i k : View} {s : String}

/-! ### One stretch -/

/-- `s` is the longest stretch of such characters from `i` on, and `k` is the view after it. -/
structure Stretches (passes : Char → Prop) (i : View) (s : String) (k : View) : Prop where
  all : ∀ c ∈ s.toList, passes c
  longest : ∀ w, w <+: i.rest → (∀ c ∈ w, passes c) → w <+: s.toList
  append_rest : s ++ k.restText = i.restText
  ends : k.restText = "" ∨ ∃ c, k.first = some c ∧ ¬ passes c
  placed : View.startingAt i.buffer (i.offset + s.utf8ByteSize) = .ok k

/-- Repeated from `i` on, `p` takes the longest stretch of such characters. -/
def TakesStretch (p : Parser Char) (passes : Char → Prop) (i : View) : Prop :=
  ∃ s k, p.stretch.parse i = .done (.success s k) ∧ Stretches passes i s k

theorem foldl_push (s : String) (cs : List Char) : cs.foldl String.push s = s ++ String.ofList cs := by
  induction cs generalizing s with
  | nil => exact String.append_empty.symm
  | cons c cs ih =>
    rw [List.foldl_cons, ih, String.push_eq_append, String.singleton_eq_ofList, String.append_assoc,
      ← String.ofList_append, List.singleton_append]

theorem TakesOne.stretch_parse (h : TakesOne p test id) (hi : i.Valid) : p.stretch.parse i =
    .done (.success (.ofList (i.rest.takeWhile test)) (i.drop (i.rest.takeWhile test).length)) := by
  have hfold := h.fold String.push "" hi List.takeWhile_append_dropWhile.symm (fun _ => of_mem_takeWhile)
    (past_dropWhile test i.rest)
  simp only [id, foldl_push, String.empty_append] at hfold
  show folded (p.fold String.push "" i) = _
  rw [hfold]
  rfl

theorem drop_takeWhile_rest (test : Char → Bool) (i : View) :
    (i.drop (i.rest.takeWhile test).length).rest = i.rest.dropWhile test :=
  View.drop_length_rest List.takeWhile_append_dropWhile.symm

theorem stretches_takeWhile (hi : i.Valid) (htest : ∀ c, test c = true ↔ passes c) :
    Stretches passes i (.ofList (i.rest.takeWhile test)) (i.drop (i.rest.takeWhile test).length) := by
  have hprefix : (String.ofList (i.rest.takeWhile test)).toList <+: i.rest := by
    rw [String.toList_ofList]
    exact List.takeWhile_prefix test
  have hrest := View.append_restText_drop hprefix
  have hplaced := hi.startingAt_drop hprefix
  rw [String.toList_ofList] at hrest hplaced
  refine ⟨fun c hc => ?_, fun w hw hpasses => ?_, hrest, ?_, hplaced⟩
  · rw [String.toList_ofList] at hc
    exact (htest c).mp (of_mem_takeWhile hc)
  · obtain ⟨z, hz⟩ := hw
    rw [String.toList_ofList, ← hz, List.takeWhile_append_of_pos fun c hc => (htest c).mpr (hpasses c hc)]
    exact List.prefix_append w _
  · rw [View.restText_eq_empty_iff, View.first, drop_takeWhile_rest]
    rcases hdropped : i.rest.dropWhile test with _ | ⟨c, cs⟩
    · exact Or.inl rfl
    · have hpast := past_dropWhile test i.rest
      refine Or.inr ⟨c, rfl, fun hc => ?_⟩
      rw [hdropped, past_cons, (htest c).mpr hc] at hpast
      cases hpast

theorem TakesOne.takesStretch (h : TakesOne p test id) (hi : i.Valid) (htest : ∀ c, test c = true ↔ passes c) :
    TakesStretch p passes i :=
  ⟨_, _, h.stretch_parse hi, stretches_takeWhile hi htest⟩

/-! ### Stretches in turn -/

/-- The pieces that `p` and `q` take in turn from `i` on, `p` first, until the text ends. -/
def Alternates : Parser String → Parser String → View → List String → Prop
  | _, _, i, [] => i.isEmpty = true
  | p, q, i, s :: pieces =>
    i.isEmpty = false ∧ ∃ k, (p.parse i).ending = .done (.success s k) ∧ Alternates q p k pieces

theorem Alternates.unique {p q : Parser String} {pieces pieces' : List String} (h : Alternates p q i pieces)
    (h' : Alternates p q i pieces') : pieces' = pieces := by
  induction pieces generalizing p q i pieces' with
  | nil =>
    rcases pieces' with _ | ⟨s, pieces'⟩
    · rfl
    · exact absurd (h.symm.trans h'.1) (by decide)
  | cons s pieces ih =>
    rcases pieces' with _ | ⟨s', pieces'⟩
    · exact absurd (h'.symm.trans h.1) (by decide)
    · obtain ⟨-, k, hk, hlater⟩ := h
      obtain ⟨-, k', hk', hlater'⟩ := h'
      rw [hk] at hk'
      cases hk'
      rw [ih hlater hlater']

/-- Everywhere in a text, `p` takes the characters that pass, and `q` those that do not. -/
structure Opposites (p q : Parser Char) (passes : Char → Prop) : Prop where
  first : ∀ i : View, i.Valid → TakesStretch p passes i
  second : ∀ i : View, i.Valid → TakesStretch q (fun c => ¬ passes c) i

theorem Opposites.symm (h : Opposites p q passes) : Opposites q p fun c => ¬ passes c where
  first := h.second
  second := by
    simp only [not_not]
    exact h.first

theorem Stretches.valid (h : Stretches passes i s k) : k.Valid := (View.startingAt_eq_ok_iff.mp h.placed).2.2

theorem Stretches.not_passes (h : Stretches passes i s k) {c : Char} (hc : k.first = some c) : ¬ passes c := by
  rcases h.ends with hend | ⟨d, hd, hnot⟩
  · rw [View.first, View.restText_eq_empty_iff.mp hend] at hc
    cases hc
  · rw [hd] at hc
    cases hc
    exact hnot

/-- A stretch is not empty where its first character is. -/
theorem Stretches.ne_empty (h : Stretches passes i s k) {c : Char} (hfirst : i.first = some c) (hc : passes c) :
    s ≠ "" := by
  rintro rfl
  obtain ⟨cs, hrest⟩ := List.head?_eq_some_iff.mp hfirst
  have hprefix := h.longest [c] ⟨cs, hrest.symm⟩ (by simpa using hc)
  simp at hprefix

theorem Stretches.rest_length_lt (h : Stretches passes i s k) (hne : s ≠ "") : k.rest.length < i.rest.length := by
  have hrest := congrArg String.toList h.append_rest
  rw [String.toList_append, View.restText, View.restText, String.toList_ofList, String.toList_ofList] at hrest
  have hpos : s.toList.length ≠ 0 := by simpa using hne
  rw [← hrest, List.length_append]
  omega

/-- The text from `i` on, cut where it changes from characters that pass to such that do not, or back. Only the first
    piece can be empty. -/
structure CutInto (passes : Char → Prop) (i : View) (pieces : List String) : Prop where
  join_eq : String.join pieces = i.restText
  passes_iff : ∀ n s, pieces[n]? = some s → ∀ c ∈ s.toList, (passes c ↔ n % 2 = 0)
  ne_empty : ∀ s ∈ pieces.tail, s ≠ ""

/-- Where the text starts with a character that passes, if it has not ended, all pieces have characters. -/
theorem Opposites.exists_pieces (h : Opposites p q passes) (hi : i.Valid) (hstart : ∀ c, i.first = some c → passes c) :
    ∃ pieces, Alternates p.stretch q.stretch i pieces ∧ ∀ s ∈ pieces, s ≠ "" := by
  -- every piece leaves less of the text, and the other parser goes on there
  induction hn : i.rest.length using Nat.strongRecOn generalizing p q passes i with
  | ind n ih =>
    cases hend : i.isEmpty with
    | true => exact ⟨[], hend, by simp⟩
    | false =>
      obtain ⟨s, k, hparse, hs⟩ := h.first i hi
      have hne : s ≠ "" := by
        rcases hrest : i.rest with _ | ⟨c, cs⟩
        · rw [hi.isEmpty_iff.mpr hrest] at hend
          cases hend
        · have hfirst : i.first = some c := by rw [View.first, hrest, List.head?_cons]
          exact hs.ne_empty hfirst (hstart c hfirst)
      obtain ⟨pieces, hpieces, hall⟩ :=
        ih _ (hn ▸ hs.rest_length_lt hne) h.symm hs.valid (fun c hc => hs.not_passes hc) rfl
      exact ⟨s :: pieces, ⟨hend, k, congrArg Run.ending hparse, hpieces⟩, List.forall_mem_cons.mpr ⟨hne, hall⟩⟩

theorem Opposites.stretches (h : Opposites p q passes) (hi : i.Valid)
    (hparse : (p.stretch.parse i).ending = .done (.success s k)) : Stretches passes i s k := by
  obtain ⟨s', k', hparse', hs⟩ := h.first i hi
  rw [hparse'] at hparse
  cases hparse
  exact hs

theorem Opposites.join_eq (h : Opposites p q passes) (hi : i.Valid) {pieces : List String}
    (hpieces : Alternates p.stretch q.stretch i pieces) : String.join pieces = i.restText := by
  induction pieces generalizing p q passes i with
  | nil =>
    rw [hi.isEmpty_iff_restText.mp hpieces]
    rfl
  | cons s pieces ih =>
    obtain ⟨-, k, hparse, hlater⟩ := hpieces
    have hs := h.stretches hi hparse
    rw [String.join_cons, ih h.symm hs.valid hlater, hs.append_rest]

theorem Opposites.passes_iff (h : Opposites p q passes) (hi : i.Valid) {pieces : List String}
    (hpieces : Alternates p.stretch q.stretch i pieces) {n : Nat} (hn : pieces[n]? = some s) :
    ∀ c ∈ s.toList, (passes c ↔ n % 2 = 0) := by
  induction pieces generalizing p q passes i n with
  | nil => cases hn
  | cons s' pieces ih =>
    obtain ⟨-, k, hparse, hlater⟩ := hpieces
    have hs := h.stretches hi hparse
    intro c hc
    rcases n with _ | n
    · obtain rfl : s' = s := Option.some.inj hn
      exact iff_of_true (hs.all c hc) rfl
    · have hnext := ih h.symm hs.valid hlater hn c hc
      rw [← not_iff_not, hnext]
      omega

/-- From every place in a text, `p` and `q` cut what is left into pieces, and there is one way only. -/
theorem Opposites.exists_cutInto (h : Opposites p q passes) (hi : i.Valid) : ∃ pieces, CutInto passes i pieces ∧
    ∀ pieces', Alternates p.stretch q.stretch i pieces' ↔ pieces' = pieces := by
  obtain ⟨pieces, hpieces, hne⟩ : ∃ pieces, Alternates p.stretch q.stretch i pieces ∧ ∀ s ∈ pieces.tail, s ≠ "" := by
    cases hend : i.isEmpty with
    | true => exact ⟨[], hend, by simp⟩
    | false =>
      -- the first piece may be empty, but then the text starts with a character for the second parser
      obtain ⟨s, k, hparse, hs⟩ := h.first i hi
      obtain ⟨pieces, hpieces, hall⟩ := h.symm.exists_pieces hs.valid fun c hc => hs.not_passes hc
      exact ⟨s :: pieces, ⟨hend, k, congrArg Run.ending hparse, hpieces⟩, hall⟩
  refine ⟨pieces, ⟨h.join_eq hi hpieces, fun n s => h.passes_iff hi hpieces, hne⟩, fun pieces' => ?_⟩
  exact ⟨hpieces.unique, fun heq => heq ▸ hpieces⟩

end

/-! ### Sets of characters -/

section
variable {i : View} (set : String)

theorem takesOne_oneOf : TakesOne (oneOf set) (fun c => set.toList.contains c) id :=
  ⟨fun h hc => (takesOne_satisfy _).hit h hc, fun h => (takesOne_satisfy _).miss h⟩

theorem takesOne_noneOf : TakesOne (noneOf set) (fun c => !set.toList.contains c) id :=
  ⟨fun h hc => (takesOne_satisfy _).hit h hc, fun h => (takesOne_satisfy _).miss h⟩

theorem opposites_oneOf : Opposites (oneOf set) (noneOf set) (· ∈ set.toList) where
  first _ hi := (takesOne_oneOf set).takesStretch hi fun _ => List.contains_iff_mem
  second _ hi := (takesOne_noneOf set).takesStretch hi fun c => by simp

/-- From every place in a text, a repeated parser of single characters takes the longest stretch of its characters, which
    may be empty, and leaves the rest. So the parsers of the characters in a set and not in it, in turn, cut all of the
    rest into pieces. -/
theorem stretches_split {b : Buffer} {offset : Nat} (hi : View.startingAt b offset = .ok i) :
    (∀ test : Char → Bool, TakesStretch (satisfy test) (test · = true) i) ∧
    (∀ c, TakesStretch (element c) (· = c) i ∧ (manyOf c).parse i = (element c).stretch.parse i) ∧
    ∀ set, TakesStretch (oneOf set) (· ∈ set.toList) i ∧ TakesStretch (noneOf set) (· ∉ set.toList) i ∧
      (∃ pieces, CutInto (· ∈ set.toList) i pieces ∧
        ∀ pieces', Alternates (oneOf set).stretch (noneOf set).stretch i pieces' ↔ pieces' = pieces) ∧
      ∃ pieces, CutInto (· ∉ set.toList) i pieces ∧
        ∀ pieces', Alternates (noneOf set).stretch (oneOf set).stretch i pieces' ↔ pieces' = pieces := by
  have hvalid := (View.startingAt_eq_ok_iff.mp hi).2.2
  refine ⟨fun test => (takesOne_satisfy test).takesStretch hvalid fun _ => Iff.rfl, fun c => ⟨?_, rfl⟩, fun set => ?_⟩
  · exact (takesOne_element c).takesStretch hvalid fun _ => beq_iff_eq
  · have h := opposites_oneOf set
    exact ⟨h.first i hvalid, h.second i hvalid, h.exists_cutInto hvalid, h.symm.exists_cutInto hvalid⟩

end

/-- Two words, after a character of two bytes. The text starts with a space, so the first stretch of other characters is
    empty. -/
theorem stretches_split_words :
    let i : View := ⟨⟨0, "é λό  γ"⟩, 2, [' ', 'λ', 'ό', ' ', ' ', 'γ']⟩
    View.startingAt ⟨0, "é λό  γ"⟩ 2 = .ok i ∧
      Alternates (noneOf " ").stretch (oneOf " ").stretch i ["", " ", "λό", "  ", "γ"] ∧
      CutInto (· ∉ " ".toList) i ["", " ", "λό", "  ", "γ"] := by
  intro i
  have hi : View.startingAt ⟨0, "é λό  γ"⟩ 2 = .ok i := rfl
  have hvalid := (View.startingAt_eq_ok_iff.mp hi).2.2
  have hwords : ∀ n, ((noneOf " ").stretch.parse (i.drop n)).ending = _ := fun n =>
    congrArg Run.ending ((takesOne_noneOf " ").stretch_parse (hvalid.drop n))
  have hspaces : ∀ n, ((oneOf " ").stretch.parse (i.drop n)).ending = _ := fun n =>
    congrArg Run.ending ((takesOne_oneOf " ").stretch_parse (hvalid.drop n))
  have hpieces : Alternates (noneOf " ").stretch (oneOf " ").stretch i ["", " ", "λό", "  ", "γ"] :=
    ⟨rfl, i.drop 0, hwords 0, rfl, i.drop 1, hspaces 0, rfl, i.drop 3, hwords 1, rfl, i.drop 5, hspaces 3, rfl,
      i.drop 6, hwords 5, rfl⟩
  obtain ⟨-, -, hsets⟩ := stretches_split hi
  obtain ⟨-, -, -, pieces, hcut, hiff⟩ := hsets " "
  obtain rfl := (hiff _).mp hpieces
  exact ⟨hi, hpieces, hcut⟩

end ParserKit.Parser
