/-! Blank characters, and the lines of a text. Blank is every code point with the white-space property, so
    a line can look empty without holding a single space. A line of a text ends at a line feed, which takes
    one carriage return before it along. -/

namespace ParserKit.Text

/-! ### Blank characters -/

/-- The white-space code points: tabulation to carriage return, the space, next line, the no-break space
    and the spaces of other widths, the line and paragraph separators, and the ideographic space. -/
def isBlank (c : Char) : Bool :=
  let code := c.toNat
  (0x09 ≤ code && code ≤ 0x0D) || code == 0x20 || code == 0x85 || code == 0xA0 || code == 0x1680 ||
    (0x2000 ≤ code && code ≤ 0x200A) || code == 0x2028 || code == 0x2029 || code == 0x202F ||
    code == 0x205F || code == 0x3000

/-- The characters without those of the class at their end. -/
def dropTrailing (p : Char → Bool) (cs : List Char) : List Char := ((cs.reverse).dropWhile p).reverse

def trimChars (cs : List Char) : List Char := dropTrailing isBlank (cs.dropWhile isBlank)

def trim (s : String) : String := String.ofList (trimChars s.toList)

/-! ### Lines -/

/-- The characters up to the first line feed, and those after it; nothing if there is no line feed. -/
def splitLine? : List Char → Option (List Char × List Char)
  | [] => none
  | '\n' :: rest => some ([], rest)
  | c :: rest => (splitLine? rest).map fun (line, after) => (c :: line, after)

theorem length_of_splitLine? {cs line after : List Char} (h : splitLine? cs = some (line, after)) :
    after.length < cs.length := by
  induction cs generalizing line after with
  | nil => simp [splitLine?] at h
  | cons c rest ih =>
    by_cases hc : c = '\n'
    · subst hc
      simp only [splitLine?, Option.some.injEq, Prod.mk.injEq] at h
      simp [← h.2]
    · simp only [splitLine?, Option.map_eq_some_iff, Prod.mk.injEq, Prod.exists] at h
      obtain ⟨l, a, hla, -, rfl⟩ := h
      have := ih hla
      simp only [List.length_cons]
      omega

/-- A line without the carriage return that belongs to its line feed. -/
def dropReturn (line : List Char) : List Char :=
  match line.getLast? with
  | some '\r' => line.dropLast
  | _ => line

/-- The lines of a text. What follows the last line feed is a line only if it is not empty, and it keeps
    a carriage return at its end. -/
def linesOf (cs : List Char) : List (List Char) :=
  match h : splitLine? cs with
  | some (line, after) =>
    have : after.length < cs.length := length_of_splitLine? h
    dropReturn line :: linesOf after
  | none => if cs.isEmpty then [] else [cs]
termination_by cs.length

def lines (s : String) : List String := (linesOf s.toList).map String.ofList

end ParserKit.Text
