import ParserKit.Grammar.Meaning
import ParserKit.Proofs.Parser.Totality

/-! Grammars without references. Where no rule, no name of a recursive grammar and no register is referred to, neither in
    the grammar nor in what its continuations make while a run goes on, nothing is ever entered again. Every run then
    comes to a success or to a failure, with no allowance of entries at all, and the loop of every repetition comes to
    an end by its own test alone (`nonrecursive_halts`). -/

namespace ParserKit.Grammar
open ParserKit.Parser

/-- The grammar refers to nothing outside of itself, and nothing inside of it is recursive. -/
def Nonrecursive : Grammar → Prop
  | lazy _ | fix .. | self _ | register _ => False
  | prim _ => True
  | padded g | transform _ g _ | ifSatisfies _ g _ | lookahead _ g | optional _ g | many _ g _ _ | many1 _ g _ _
  | exactlyN _ g _ _ _ | named g _ | traced g | wrapped g | fromFn g _ => g.Nonrecursive
  | orWith _ g h | combine _ g h _ | ignore _ g h | ignorePrevious _ g h | separatedBy _ g h _ _ =>
    g.Nonrecursive ∧ h.Nonrecursive
  | bind _ g _ next => g.Nonrecursive ∧ ∀ v, (next v).Nonrecursive
  | sequence _ parts _ => ∀ n, (parts n).Nonrecursive

/-! ### Continuations -/

/-- The grammars that a continuation is made of are not recursive. -/
def Continuation.Nonrecursive : Continuation → Prop
  | choose cases otherwise => (∀ entry ∈ cases, entry.2.Nonrecursive) ∧ otherwise.Nonrecursive
  | times g _ _ | seeded g _ => g.Nonrecursive
  | same | yield _ => True

theorem Continuation.Nonrecursive.grammar {next : Continuation} (h : next.Nonrecursive) (v : Value) :
    (next.grammar v).Nonrecursive := by
  cases next with
  | choose cases otherwise =>
    rcases hfind : cases.find? fun entry => entry.1 == v.text with _ | entry
    · simpa [Continuation.grammar, hfind] using h.2
    · simpa [Continuation.grammar, hfind] using h.1 entry (List.mem_of_find?_eq_some hfind)
  | times g seed reduce => exact h
  | same => trivial
  | yield f => trivial
  | seeded g reduce => exact h

theorem nonrecursive_andThen (via : Surface) {g : Grammar} {next : Continuation} (hg : g.Nonrecursive)
    (hnext : next.Nonrecursive) : (andThen via g next).Nonrecursive := ⟨hg, hnext.grammar⟩

/-! ### Halting -/

theorem total_primitive (p : Primitive) : p.parser.Total := by
  cases p with
  | item => exact Total.item.map _
  | satisfy test => exact (Total.satisfy test).map _
  | element c => exact (Total.element c).map _
  | oneOf set => exact (Total.oneOf set).map _
  | noneOf set => exact (Total.noneOf set).map _
  | literal text => exact (Total.literal text).map _
  | manyOf c => exact (Total.manyOf c).map _
  | always v => exact Total.always v
  | fail => exact Total.fail
  | eof => exact Total.eof.map _
  | whitespace => exact Total.whitespace.map _
  | token text => exact (Total.token text).map _
  | digit => exact Total.digit.map _
  | digitValue => exact Total.digitValue.map _
  | integer => exact Total.integer.map _
  | expr => exact Total.expr.map _
  | term => exact Total.term.map _
  | factor => exact Total.factor.map _

/-- Whatever the links are: such a grammar follows none of them. -/
theorem total_parserWith (links : Links) (σ : Scope) {g : Grammar} (hg : g.Nonrecursive) :
    (g.parserWith links σ).Total := by
  induction g with
  | prim p => exact total_primitive p
  | padded g ih => exact (ih hg).padded
  | transform via g f ih =>
    simp only [parserWith, Surface.use_eq]
    exact (ih hg).transform f
  | orWith via g h ihg ihh =>
    simp only [parserWith, Surface.use_eq]
    exact (ihg hg.1).orWith (ihh hg.2)
  | combine via g h f ihg ihh =>
    simp only [parserWith, Surface.use_eq]
    exact (ihg hg.1).combine (ihh hg.2) f
  | ignore via g h ihg ihh =>
    simp only [parserWith, Surface.use_eq]
    exact (ihg hg.1).ignore (ihh hg.2)
  | ignorePrevious via g h ihg ihh =>
    simp only [parserWith, Surface.use_eq]
    exact (ihg hg.1).ignorePrevious (ihh hg.2)
  | ifSatisfies via g test ih =>
    simp only [parserWith, Surface.use_eq]
    exact (ih hg).ifSatisfies test
  | bind via g captures next ihg ihnext =>
    simp only [parserWith, Surface.use_eq]
    exact (ihg hg.1).bind fun v => ihnext v (hg.2 v)
  | lookahead via g ih =>
    simp only [parserWith, Surface.use_eq]
    exact (ih hg).lookahead
  | optional via g ih =>
    simp only [parserWith, Surface.use_eq]
    exact (ih hg).optional.map _
  | many via g seed reduce ih =>
    simp only [parserWith, Surface.use_eq]
    exact (ih hg).many seed reduce
  | many1 via g seed reduce ih =>
    simp only [parserWith, Surface.use_eq]
    exact (ih hg).many1 seed reduce
  | exactlyN via g seed reduce n ih =>
    simp only [parserWith, Surface.use_eq]
    exact (ih hg).exactlyN seed reduce n
  | separatedBy via g h seed reduce ihg ihh =>
    simp only [parserWith, Surface.use_eq]
    exact (ihg hg.1).separatedBy (ihh hg.2) seed reduce
  | sequence count parts f ih =>
    refine Total.sequence (fun p hp => ?_) f
    obtain ⟨n, rfl⟩ := List.mem_ofFn.mp hp
    exact ih n (hg n)
  | named g n ih => exact (ih hg).named n
  | traced g ih => exact (ih hg).traced
  | wrapped g ih | fromFn g n ih => exact (ih hg).fromFn _
  | lazy rule | fix this name body | self this | register name => exact hg.elim

/-- Every run of a grammar without references, from any place in a text, halts with a success or a failure. So does every
    repetition of it, and a repetition is what its loop comes to that goes round until the grammar fails or a match of it
    ends where it started. -/
theorem nonrecursive_halts (rules : Rules) (depth : Nat) {g : Grammar} (hg : g.Nonrecursive) {b : Buffer}
    {offset : Nat} {i : View} (hi : View.startingAt b offset = .ok i) :
    (∃ o, ((g.parserWithin rules depth).parse i).ending = .done o) ∧ LoopEnds (g.parserWithin rules depth) i := by
  obtain ⟨-, -, hvalid⟩ := View.startingAt_eq_ok_iff.mp hi
  have htotal : (g.parserWithin rules depth).Total := total_parserWith _ _ hg
  exact ⟨htotal.exists_ending hvalid, htotal.loopEnds hvalid⟩

/-- As many lists as a digit says, each of them a repetition of something that matches everywhere. -/
theorem nonrecursive_halts_counted :
    let letters := many .method (optional .method (prim (.element 'a'))) (.list []) Value.push
    let lists := separatedBy .function letters (prim .whitespace) (.list []) Value.push
    let g := andThen .function (prim .digitValue) (.times (traced lists) (.list []) Value.push)
    let i : View := ⟨⟨0, "é2aa a"⟩, 2, ['2', 'a', 'a', ' ', 'a']⟩
    g.Nonrecursive ∧ View.startingAt ⟨0, "é2aa a"⟩ 2 = .ok i ∧
      ∀ depth, ∃ o, ((g.parserWithin (fun _ => none) depth).parse i).ending = .done o := by
  intro letters lists g i
  have hlists : (traced lists).Nonrecursive := ⟨trivial, trivial⟩
  have hg : g.Nonrecursive := nonrecursive_andThen .function trivial hlists
  have hi : View.startingAt ⟨0, "é2aa a"⟩ 2 = .ok i := rfl
  exact ⟨hg, hi, fun depth => (nonrecursive_halts (fun _ => none) depth hg hi).1⟩

end ParserKit.Grammar
