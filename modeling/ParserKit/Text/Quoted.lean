import ParserKit.Text.CombiningMark
import ParserKit.Text.Unassigned

/-! The quoted form of characters and texts, as names and reports show them. A character stands between
    single quotes and a text between double quotes. The quote that would end the form, the backslash and
    five control characters have short escapes; every other character without a glyph of its own is
    written by its code point. -/

namespace ParserKit.Text

/-! ### Characters without a glyph of their own -/

/-- The control characters: both blocks and the delete character. -/
def controls : List CodeRange := [⟨0x00, 0x1F⟩, ⟨0x7F, 0x9F⟩]

/-- The separators other than the space: spaces of other widths, line and paragraph separators. -/
def separators : List CodeRange :=
  [⟨0xA0, 0xA0⟩, ⟨0x1680, 0x1680⟩, ⟨0x2000, 0x200A⟩, ⟨0x2028, 0x2029⟩, ⟨0x202F, 0x202F⟩, ⟨0x205F, 0x205F⟩,
    ⟨0x3000, 0x3000⟩]

/-- The format characters: soft hyphen, number signs, joiners, direction marks, byte order mark, tags. -/
def formats : List CodeRange :=
  [⟨0xAD, 0xAD⟩, ⟨0x600, 0x605⟩, ⟨0x61C, 0x61C⟩, ⟨0x6DD, 0x6DD⟩, ⟨0x70F, 0x70F⟩, ⟨0x890, 0x891⟩,
    ⟨0x8E2, 0x8E2⟩, ⟨0x180E, 0x180E⟩, ⟨0x200B, 0x200F⟩, ⟨0x202A, 0x202E⟩, ⟨0x2060, 0x2064⟩, ⟨0x2066, 0x206F⟩,
    ⟨0xFEFF, 0xFEFF⟩, ⟨0xFFF9, 0xFFFB⟩, ⟨0x110BD, 0x110BD⟩, ⟨0x110CD, 0x110CD⟩, ⟨0x13430, 0x1343F⟩,
    ⟨0x1BCA0, 0x1BCA3⟩, ⟨0x1D173, 0x1D17A⟩, ⟨0xE0001, 0xE0001⟩, ⟨0xE0020, 0xE007F⟩]

/-- The fillers: letters that stand for a missing part of a Hangul syllable and leave no ink. -/
def fillers : List CodeRange := [⟨0x115F, 0x1160⟩, ⟨0x3164, 0x3164⟩, ⟨0xFFA0, 0xFFA0⟩]

def privateUse : List CodeRange := [⟨0xE000, 0xF8FF⟩, ⟨0xF0000, 0xFFFFD⟩, ⟨0x100000, 0x10FFFD⟩]

/-- The code points that are written by their numbers: a few, the marks, and those without a character. -/
def hiddenCodes : List (List CodeRange) :=
  [controls, separators, formats, fillers, privateUse, combiningMarks, unassigned]

def hiddenTrees : List CodeTree := hiddenCodes.map .ofList

/-- The characters from the space to the tilde, which always have a glyph. -/
def isPlain (c : Char) : Bool := ' ' ≤ c && c ≤ '~'

/-- A character is hidden when it has no glyph that could stand for it in print. -/
def isHidden (c : Char) : Bool :=
  if isPlain c then false else hiddenTrees.any (·.contains c.toNat)

theorem hiddenCodes_increasing : ∀ table ∈ hiddenCodes, CodeRange.increasingFrom 0 table = true := by
  decide +kernel

theorem hiddenCodes_not_plain :
    ∀ table ∈ hiddenCodes, ∀ r ∈ table, r.last < ' '.toNat ∨ '~'.toNat < r.first := by
  decide +kernel

/-- The tables alone say what is hidden: asking for plain characters first only spares the look-up. -/
theorem isHidden_iff {c : Char} :
    isHidden c = true ↔ ∃ table ∈ hiddenCodes, ∃ r ∈ table, r.first ≤ c.toNat ∧ c.toNat ≤ r.last := by
  have hany : hiddenTrees.any (·.contains c.toNat) = true ↔
      ∃ table ∈ hiddenCodes, ∃ r ∈ table, r.first ≤ c.toNat ∧ c.toNat ≤ r.last := by
    simp only [hiddenTrees, List.any_map, List.any_eq_true, Function.comp_apply, ← CodeRange.contains_iff]
    exact exists_congr fun table =>
      and_congr_right fun h => CodeTree.contains_ofList (hiddenCodes_increasing table h)
  rw [isHidden]
  split
  · rename_i hplain
    simp only [isPlain, Bool.and_eq_true, decide_eq_true_eq, Char.le_def, UInt32.le_iff_toNat_le] at hplain
    refine ⟨fun h => absurd h Bool.false_ne_true, fun ⟨table, ht, r, hr, hc⟩ => ?_⟩
    have hout := hiddenCodes_not_plain table ht r hr
    simp only [Char.toNat] at hc hout
    omega
  · exact hany

/-! ### Escapes -/

/-- A natural number in lower-case hexadecimal, without leading zeros. -/
def hexadecimal (n : Nat) : String := String.ofList (Nat.toDigits 16 n)

/-- How one character is written between two of the quotes given. -/
def escape (quote c : Char) : String :=
  match c with
  | '\x00' => "\\0"
  | '\t' => "\\t"
  | '\r' => "\\r"
  | '\n' => "\\n"
  | '\\' => "\\\\"
  | c =>
    if c = quote then String.ofList ['\\', c]
    else if isHidden c then "\\u\x7b" ++ hexadecimal c.toNat ++ "\x7d"
    else c.toString

def quoteChar (c : Char) : String := "'" ++ escape '\'' c ++ "'"

def quoteString (s : String) : String := "\"" ++ String.join (s.toList.map (escape '"')) ++ "\""

end ParserKit.Text
