/-! Classes of characters that can be named in a grammar. -/

namespace ParserKit.Text

inductive CharClass where
  | every
  | nothing
  | ascii
  | letter
  | digit
  | upper
  | lower
  /-- From the first to the last character, both included. -/
  | range (first last : Char)
  /-- The characters of this many bytes. -/
  | width (bytes : Nat)
  | except (c : CharClass)

namespace CharClass

/-- Membership. Letters, digits and case are those of ASCII. -/
def contains : CharClass → Char → Bool
  | every, _ => true
  | nothing, _ => false
  | ascii, c => c.toNat < 128
  | letter, c => c.isAlpha
  | digit, c => c.isDigit
  | upper, c => c.isUpper
  | lower, c => c.isLower
  | range first last, c => first ≤ c && c ≤ last
  | width bytes, c => c.utf8Size == bytes
  | except k, c => !k.contains c

end CharClass
end ParserKit.Text
