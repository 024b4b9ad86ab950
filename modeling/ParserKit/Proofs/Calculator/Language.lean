import Mathlib.Tactic.SplitIfs
import ParserKit.Proofs.Text.Span

/-! The language of the calculator. `Denotes` says which texts are expressions, terms and factors, and which
    natural number each of them stands for, without any bound.

    Spaces around a part belong to it or not, as one likes. What cannot be left open is where a part ends: no
    part is followed by its own operator or by a closing parenthesis and goes on as a longer one
    (`Denotes.not_followed`), since only closed parentheses can hold these. -/

namespace ParserKit.Calculator
open Text

/-! ### Operators -/

inductive Operator where
  | add
  | mul

namespace Operator

def sign : Operator → Char
  | add => '+'
  | mul => '*'

def apply : Operator → Nat → Nat → Nat
  | add, m, n => m + n
  | mul, m, n => m * n

/-- What no operands at all come to. -/
def unit : Operator → Nat
  | add => 0
  | mul => 1

theorem apply_unit (op : Operator) (n : Nat) : op.apply n op.unit = n := by
  cases op
  · rfl
  · exact Nat.mul_one n

theorem unit_apply (op : Operator) (n : Nat) : op.apply op.unit n = n := by
  cases op
  · exact Nat.zero_add n
  · exact Nat.one_mul n

theorem apply_assoc (op : Operator) (k m n : Nat) : op.apply (op.apply k m) n = op.apply k (op.apply m n) := by
  cases op
  · exact Nat.add_assoc k m n
  · exact Nat.mul_assoc k m n

end Operator

/-! ### Expressions -/

inductive Part where
  | factor
  /-- One or more operands with signs between them. -/
  | list (op : Operator)
  /-- What can follow an operand: any number of signs, each with an operand. -/
  | more (op : Operator)

namespace Part

def term : Part := .list .mul

def expr : Part := .list .add

def operand : Operator → Part
  | .add => term
  | .mul => factor

def Solid : Part → Prop
  | more _ => False
  | _ => True

theorem solid_operand (op : Operator) : (operand op).Solid := by cases op <;> trivial

end Part

/-- The texts of each part, and the numbers that they stand for. -/
inductive Denotes : Part → List Char → Nat → Prop
  | number {before digits after} : Spaces before → Digits digits → digits ≠ [] → Spaces after →
      Denotes .factor (before ++ (digits ++ after)) (Nat.ofDigitChars 10 digits 0)
  | group {before inside after n} : Spaces before → Denotes .expr inside n → Spaces after →
      Denotes .factor (before ++ '(' :: (inside ++ ')' :: after)) n
  | list {op first rest m n} : Denotes (.operand op) first m → Denotes (.more op) rest n →
      Denotes (.list op) (first ++ rest) (op.apply m n)
  | nil {op} : Denotes (.more op) [] op.unit
  | cons {op before after next rest m n} : Spaces before → Spaces after → Denotes (.operand op) next m →
      Denotes (.more op) rest n →
      Denotes (.more op) (before ++ op.sign :: (after ++ (next ++ rest))) (op.apply m n)

def Forms (p : Part) (w : List Char) : Prop := ∃ n, Denotes p w n

section
variable {op : Operator} {w : List Char} {n : Nat}

theorem Denotes.more {before after : List Char} (hbefore : Spaces before) (hafter : Spaces after)
    (h : Denotes (.list op) w n) : Denotes (.more op) (before ++ op.sign :: (after ++ w)) n := by
  cases h with
  | list hfirst hrest => exact .cons hbefore hafter hfirst hrest

theorem forms_list_iff :
    Forms (.list op) w ↔ ∃ first rest, Forms (.operand op) first ∧ Forms (.more op) rest ∧ w = first ++ rest := by
  constructor
  · rintro ⟨n, h⟩
    cases h with
    | list hfirst hrest => exact ⟨_, _, ⟨_, hfirst⟩, ⟨_, hrest⟩, rfl⟩
  · rintro ⟨first, rest, ⟨m, hfirst⟩, ⟨n, hrest⟩, rfl⟩
    exact ⟨_, .list hfirst hrest⟩

theorem forms_more_iff :
    Forms (.more op) w ↔ w = [] ∨ ∃ before after inside, Spaces before ∧ Spaces after ∧ Forms (.list op) inside ∧
      w = before ++ op.sign :: (after ++ inside) := by
  constructor
  · rintro ⟨n, h⟩
    cases h with
    | nil => exact Or.inl rfl
    | cons hbefore hafter hnext hrest =>
      exact Or.inr ⟨_, _, _, hbefore, hafter, ⟨_, .list hnext hrest⟩, rfl⟩
  · rintro (rfl | ⟨before, after, inside, hbefore, hafter, ⟨n, hinside⟩, rfl⟩)
    · exact ⟨_, .nil⟩
    · exact ⟨n, hinside.more hbefore hafter⟩

theorem forms_factor_iff :
    Forms .factor w ↔
      (∃ before digits after, Spaces before ∧ Digits digits ∧ digits ≠ [] ∧ Spaces after ∧
        w = before ++ (digits ++ after)) ∨
      ∃ before inside after, Spaces before ∧ Forms .expr inside ∧ Spaces after ∧
        w = before ++ '(' :: (inside ++ ')' :: after) := by
  constructor
  · rintro ⟨n, h⟩
    cases h with
    | number hbefore hdigits hne hafter => exact Or.inl ⟨_, _, _, hbefore, hdigits, hne, hafter, rfl⟩
    | group hbefore hinside hafter => exact Or.inr ⟨_, _, _, hbefore, ⟨_, hinside⟩, hafter, rfl⟩
  · rintro (⟨before, digits, after, hbefore, hdigits, hne, hafter, rfl⟩ |
      ⟨before, inside, after, hbefore, ⟨n, hinside⟩, hafter, rfl⟩)
    · exact ⟨_, .number hbefore hdigits hne hafter⟩
    · exact ⟨n, .group hbefore hinside hafter⟩

end

/-! ### Spaces -/

section
variable {p : Part} {op : Operator} {w a : List Char} {m n : Nat}

theorem Denotes.ne_nil (h : Denotes p w n) (hp : p.Solid) : w ≠ [] := by
  induction h with
  | number _ _ hne _ => simp [hne]
  | group _ _ _ => simp
  | @list op first rest m n _ _ ih _ => simp [ih (Part.solid_operand op)]
  | nil => exact hp.elim
  | cons _ _ _ _ _ _ => exact hp.elim

theorem Denotes.cons_space (h : Denotes p w n) (hp : p.Solid) : Denotes p (' ' :: w) n := by
  induction h with
  | number hbefore hdigits hne hafter => exact .number (spaces_cons.mpr ⟨rfl, hbefore⟩) hdigits hne hafter
  | group hbefore hinside hafter => exact .group (spaces_cons.mpr ⟨rfl, hbefore⟩) hinside hafter
  | @list op first rest m n _ hrest ih _ => exact .list (ih (Part.solid_operand op)) hrest
  | nil => exact hp.elim
  | cons _ _ _ _ _ _ => exact hp.elim

theorem Denotes.spaces_append (ha : Spaces a) (h : Denotes p w n) (hp : p.Solid) : Denotes p (a ++ w) n := by
  induction a with
  | nil => exact h
  | cons c a ih =>
    obtain ⟨rfl, hspaces⟩ := spaces_cons.mp ha
    exact (ih hspaces).cons_space hp

theorem Denotes.of_cons_space (h : Denotes p (' ' :: w) n) (hp : p.Solid) : Denotes p w n := by
  generalize hx : ' ' :: w = x at h
  induction h generalizing w with
  | @number before digits after hbefore hdigits hne hafter =>
    rcases before with _ | ⟨c, before⟩
    · rcases digits with _ | ⟨d, digits⟩
      · exact absurd rfl hne
      · have hd := hdigits d List.mem_cons_self
        obtain ⟨rfl, -⟩ := List.cons.inj hx
        exact absurd hd (by decide)
    · obtain ⟨-, rfl⟩ := List.cons.inj hx
      exact .number (spaces_cons.mp hbefore).2 hdigits hne hafter
  | @group before inside after n hbefore hinside hafter =>
    rcases before with _ | ⟨c, before⟩
    · exact absurd (List.cons.inj hx).1 (by decide)
    · obtain ⟨-, rfl⟩ := List.cons.inj hx
      exact .group (spaces_cons.mp hbefore).2 hinside hafter
  | @list op first rest m n hfirst hrest ih _ =>
    rcases first with _ | ⟨c, first⟩
    · exact absurd rfl (hfirst.ne_nil (Part.solid_operand op))
    · obtain ⟨rfl, rfl⟩ := List.cons.inj hx
      exact .list (ih (Part.solid_operand op) rfl) hrest
  | nil => exact hp.elim
  | cons _ _ _ _ _ _ => exact hp.elim

theorem Denotes.exists_of_spaces_append {v : List Char} (ha : Spaces a) (h : Denotes p w n) (hp : p.Solid)
    (hw : w <+: a ++ v) : ∃ y, w = a ++ y ∧ y <+: v ∧ Denotes p y n := by
  induction a generalizing w with
  | nil => exact ⟨w, rfl, hw, h⟩
  | cons c a ih =>
    obtain ⟨rfl, hspaces⟩ := spaces_cons.mp ha
    rcases w with _ | ⟨d, w⟩
    · exact absurd rfl (h.ne_nil hp)
    · obtain ⟨rfl, hw'⟩ := List.cons_prefix_cons.mp hw
      obtain ⟨y, rfl, hy, hdenotes⟩ := ih hspaces (h.of_cons_space hp) hw'
      exact ⟨y, rfl, hy, hdenotes⟩

theorem Denotes.append_spaces (h : Denotes p w n) (hw : w ≠ []) (ha : Spaces a) : Denotes p (w ++ a) n := by
  induction h with
  | number hbefore hdigits hne hafter =>
    simp only [List.append_assoc]
    exact .number hbefore hdigits hne (hafter.append ha)
  | group hbefore hinside hafter =>
    simp only [List.append_assoc, List.cons_append]
    exact .group hbefore hinside (hafter.append ha)
  | @list op first rest m n hfirst hrest ihfirst ihrest =>
    by_cases hnil : rest = []
    · subst hnil
      have h := Denotes.list (ihfirst (hfirst.ne_nil (Part.solid_operand op))) hrest
      simpa using h
    · rw [List.append_assoc]
      exact .list hfirst (ihrest hnil)
  | nil => exact absurd rfl hw
  | @cons op before after next rest m n hbefore hafter hnext hrest ihnext ihrest =>
    by_cases hnil : rest = []
    · subst hnil
      have h := Denotes.cons hbefore hafter (ihnext (hnext.ne_nil (Part.solid_operand op))) hrest
      simpa using h
    · have h := Denotes.cons hbefore hafter hnext (ihrest hnil)
      simpa using h

end

/-! ### Parentheses -/

/-- How deep inside parentheses a text ends that starts at some depth, if it closes none that it has not opened
    and has no foreign character outside of all. -/
def scan (foreign : Char → Bool) : Nat → List Char → Option Nat
  | depth, [] => some depth
  | depth, c :: cs =>
    if c = '(' then scan foreign (depth + 1) cs
    else if c = ')' then
      match depth with
      | 0 => none
      | depth + 1 => scan foreign depth cs
    else if depth = 0 ∧ foreign c then none
    else scan foreign depth cs

section
variable {foreign foreign' : Char → Bool} {c : Char} {cs : List Char} {depth : Nat}

@[simp] theorem scan_open : scan foreign depth ('(' :: cs) = scan foreign (depth + 1) cs := by simp [scan]

@[simp] theorem scan_close : scan foreign (depth + 1) (')' :: cs) = scan foreign depth cs := by simp [scan]

theorem scan_plain (hopen : c ≠ '(') (hclose : c ≠ ')') (hc : foreign c = false) :
    scan foreign depth (c :: cs) = scan foreign depth cs := by simp [scan, hopen, hclose, hc]

theorem scan_append (depth : Nat) (u v : List Char) :
    scan foreign depth (u ++ v) = (scan foreign depth u).bind fun d => scan foreign d v := by
  induction u generalizing depth with
  | nil => rfl
  | cons c u ih =>
    simp only [List.cons_append, scan, ih]
    split_ifs
    · rfl
    · cases depth <;> rfl
    · rfl
    · rfl

theorem scan_eq_self (h : ∀ c ∈ cs, c ≠ '(' ∧ c ≠ ')' ∧ foreign c = false) : scan foreign depth cs = some depth := by
  induction cs with
  | nil => rfl
  | cons c cs ih =>
    obtain ⟨⟨hopen, hclose, hc⟩, hcs⟩ := List.forall_mem_cons.mp h
    rw [scan_plain hopen hclose hc, ih hcs]

theorem scan_mono (hf : ∀ c, foreign' c = true → foreign c = true) {d e : Nat} (h : scan foreign d cs = some e) :
    scan foreign' d cs = some e := by
  induction cs generalizing d with
  | nil => exact h
  | cons c cs ih =>
    simp only [scan] at h ⊢
    split_ifs at h ⊢ with h1 h2 h3 h4 h5
    · exact ih h
    · rcases d with _ | d
      · cases h
      · exact ih h
    · exact absurd ⟨h3.1, hf c h3.2⟩ h4
    · exact ih h

theorem scan_deeper {d e : Nat} (h : scan foreign d cs = some e) : scan foreign' (d + 1) cs = some (e + 1) := by
  induction cs generalizing d with
  | nil =>
    obtain rfl : d = e := by simpa [scan] using h
    rfl
  | cons c cs ih =>
    simp only [scan] at h ⊢
    split_ifs at h ⊢ with h1 h2 h3 h4 h5
    · exact ih h
    · rcases d with _ | d
      · cases h
      · exact ih h
    · exact absurd h3.1 id
    · exact ih h

end

namespace Part

/-- The signs that a part has only inside parentheses. -/
def foreign : Part → Char → Bool
  | factor, c => c == '+' || c == '*'
  | list .mul, c | more .mul, c => c == '+'
  | list .add, _ | more .add, _ => false

theorem foreign_operand (op : Operator) : (operand op).foreign op.sign = true := by cases op <;> decide

theorem ne_of_foreign {p : Part} {c : Char} (h : p.foreign c = true) :
    c ≠ '(' ∧ c ≠ ')' ∧ c ≠ ' ' ∧ c.isDigit = false := by
  have hc : c = '+' ∨ c = '*' := by
    rcases p with _ | (_ | _) | (_ | _) <;> simp_all [foreign]
  rcases hc with rfl | rfl <;> decide

theorem foreign_more_sign (op : Operator) : (more op).foreign op.sign = false := by cases op <;> decide

theorem foreign_operand_of_more {op : Operator} {c : Char} (h : (more op).foreign c = true) :
    (operand op).foreign c = true := by
  cases op <;> simp_all [foreign, operand]

theorem foreign_more_eq_list (op : Operator) : (more op).foreign = (list op).foreign := by cases op <;> rfl

end Part

section
variable {p : Part} {w : List Char} {m n : Nat}

theorem scan_spaces {a : List Char} (ha : Spaces a) (depth : Nat) : scan p.foreign depth a = some depth := by
  refine scan_eq_self fun c hc => ?_
  obtain rfl := ha c hc
  refine ⟨by decide, by decide, Bool.eq_false_iff.mpr fun h => ?_⟩
  exact (Part.ne_of_foreign h).2.2.1 rfl

theorem scan_digits {ds : List Char} (hds : Digits ds) (depth : Nat) : scan p.foreign depth ds = some depth := by
  refine scan_eq_self fun c hc => ?_
  have hdigit := hds c hc
  refine ⟨?_, ?_, ?_⟩
  · rintro rfl
    exact absurd hdigit (by decide)
  · rintro rfl
    exact absurd hdigit (by decide)
  · refine Bool.eq_false_iff.mpr fun h => ?_
    rw [(Part.ne_of_foreign h).2.2.2] at hdigit
    cases hdigit

/-- Every part closes what it opens. -/
theorem Denotes.scan_eq (h : Denotes p w n) : scan p.foreign 0 w = some 0 := by
  induction h with
  | number hbefore hdigits _ hafter =>
    simp [scan_append, scan_spaces hbefore, scan_digits hdigits, scan_spaces hafter]
  | group hbefore _ hafter ih =>
    simp [scan_append, scan_spaces hbefore, scan_spaces hafter, scan_deeper ih]
  | @list op first rest m n _ _ ihfirst ihrest =>
    rw [← Part.foreign_more_eq_list, scan_append, scan_mono (fun _ => Part.foreign_operand_of_more) ihfirst]
    exact ihrest
  | nil => rfl
  | @cons op before after next rest m n hbefore hafter _ _ ihnext ihrest =>
    have hsign : op.sign ≠ '(' ∧ op.sign ≠ ')' := by cases op <;> decide
    have hstart : scan (Part.more op).foreign 0 (op.sign :: (after ++ (next ++ rest))) =
        scan (Part.more op).foreign 0 (after ++ (next ++ rest)) :=
      scan_plain hsign.1 hsign.2 (Part.foreign_more_sign op)
    have hnext := scan_mono (fun _ => Part.foreign_operand_of_more) ihnext
    simp only [scan_append, scan_spaces hbefore, scan_spaces hafter, hstart, hnext, Option.bind_some, ihrest]

/-- A part that is followed by a closing parenthesis or a foreign sign does not go on. -/
theorem Denotes.not_followed {c : Char} {z : List Char} (h : Denotes p w m) (h' : Denotes p (w ++ c :: z) n) :
    c ≠ ')' ∧ p.foreign c = false := by
  have hscan := h'.scan_eq
  rw [scan_append, h.scan_eq, Option.bind_some] at hscan
  constructor
  · rintro rfl
    simp [scan] at hscan
  · refine Bool.eq_false_iff.mpr fun hc => ?_
    obtain ⟨hopen, hclose, -⟩ := Part.ne_of_foreign hc
    simp [scan, hopen, hclose, hc] at hscan

end

end ParserKit.Calculator
