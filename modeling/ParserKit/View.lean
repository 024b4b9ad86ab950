import ParserKit.Fault
import ParserKit.Text.Bytes
import ParserKit.Text.Quoted

/-! Views. A view is a place in a text: the buffer that holds the text, the number of bytes before the
    place, and the characters from the place on. Parsers never change the text; they hand on views that
    start later. Lengths and offsets count bytes, and a view that was made by the operations of this file
    starts between two characters. -/

namespace ParserKit

/-- A text, and which of several texts of the same content it is. -/
structure Buffer where
  id : Nat
  text : String
deriving DecidableEq

/-- A place in a buffer, with the characters from there on. -/
structure View where
  buffer : Buffer
  offset : Nat
  rest : List Char
deriving DecidableEq

namespace View
open Text

/-- The view's characters are those of the buffer after its first `offset` bytes. -/
def Valid (i : View) : Prop :=
  ∃ before, i.buffer.text.toList = before ++ i.rest ∧ i.offset = byteLength before

/-! ### Making views -/

def ofBuffer (b : Buffer) : View := ⟨b, 0, b.text.toList⟩

/-- The view of a whole text, in a buffer of its own. -/
def ofText (text : String) : View := ofBuffer ⟨0, text⟩

/-- The view of a buffer from a byte offset on. -/
def startingAt (b : Buffer) (offset : Nat) : Except Fault View :=
  match dropBytes offset b.text.toList with
  | some rest => .ok ⟨b, offset, rest⟩
  | none => .error (.boundary offset)

/-- The view that starts `bytes` bytes later. -/
def advance (i : View) (bytes : Nat) : Except Fault View :=
  match dropBytes bytes i.rest with
  | some rest => .ok ⟨i.buffer, i.offset + bytes, rest⟩
  | none => .error (.boundary (i.offset + bytes))

/-! ### Looking at a view -/

def text (i : View) : String := i.buffer.text

def restText (i : View) : String := String.ofList i.rest

def len (i : View) : Nat := i.text.utf8ByteSize - i.offset

def isEmpty (i : View) : Bool := i.offset == i.text.utf8ByteSize

/-- How many bytes are left over, which a place past the end of its text cannot say. -/
def remaining (i : View) : Except Fault Nat :=
  if i.offset ≤ i.text.utf8ByteSize then .ok i.len else .error (.backwards i.offset i.text.utf8ByteSize)

def first (i : View) : Option Char := i.rest.head?

/-- The first character, and the view after it; nothing at the end of the text. -/
def splitFirst (i : View) : Except Fault (Option (Char × View)) :=
  match i.first with
  | some c => (i.advance c.utf8Size).map fun after => some (c, after)
  | none => .ok none

/-- The view after `expected`, if the view starts with exactly that text. -/
def strip (i : View) (expected : String) : Except Fault (Option View) :=
  if expected.toList.isPrefixOf i.rest then (i.advance expected.utf8ByteSize).map some else .ok none

/-! ### Comparing views -/

/-- `i` is a view of the same buffer as `j`, at the same place or later. -/
def isSuffixOf (i j : View) : Bool := i.buffer = j.buffer && j.offset ≤ i.offset

/-- Both views look at the same place of texts with the same content. -/
def agrees (i j : View) : Bool := i.text == j.text && i.offset == j.offset

/-! ### Showing views -/

def display (i : View) : String := i.restText

def debug (i : View) : String :=
  "Input \x7b text: " ++ quoteString i.text ++ ", offset: " ++ toString i.offset ++ " \x7d"

end View
end ParserKit
