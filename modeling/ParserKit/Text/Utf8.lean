/-! Bytes as text. A stream of bytes is read as symbols: each well-formed sequence is its character, and a
    byte that starts none stands alone as junk. The bytes are text exactly when no symbol is junk, and since
    a line feed is never part of a longer sequence, a stream can be cut into lines before it is known to be
    text. -/

namespace ParserKit.Text

/-- A character, or a byte that belongs to none. -/
inductive Symbol where
  | char (c : Char)
  | junk (byte : UInt8)

namespace Symbol

def size : Symbol → Nat
  | char c => c.utf8Size
  | junk _ => 1

def char? : Symbol → Option Char
  | char c => some c
  | junk _ => none

end Symbol

/-! ### Decoding -/

def continuation? (byte : UInt8) : Option Nat :=
  if 0x80 ≤ byte && byte ≤ 0xBF then some (byte.toNat - 0x80) else none

/-- The character with this code point, if one exists and the shortest sequence for it has this length. -/
def scalar? (code length : Nat) : Option Char :=
  if h : code.isValidChar then
    let c := Char.ofNatAux code h
    if c.utf8Size = length then some c else none
  else none

/-- The character at the front of the bytes, with the number of its bytes. -/
def decodeChar? : List UInt8 → Option (Char × Nat)
  | [] => none
  | a :: rest =>
    let plain (code length : Nat) : Option (Char × Nat) := (scalar? code length).map (·, length)
    if a < 0x80 then plain a.toNat 1
    else if 0xC2 ≤ a && a ≤ 0xDF then
      match rest with
      | b :: _ => do
        let x ← continuation? b
        plain ((a.toNat - 0xC0) * 0x40 + x) 2
      | _ => none
    else if 0xE0 ≤ a && a ≤ 0xEF then
      match rest with
      | b :: c :: _ => do
        let x ← continuation? b
        let y ← continuation? c
        plain (((a.toNat - 0xE0) * 0x40 + x) * 0x40 + y) 3
      | _ => none
    else if 0xF0 ≤ a && a ≤ 0xF4 then
      match rest with
      | b :: c :: d :: _ => do
        let x ← continuation? b
        let y ← continuation? c
        let z ← continuation? d
        plain ((((a.toNat - 0xF0) * 0x40 + x) * 0x40 + y) * 0x40 + z) 4
      | _ => none
    else none

def decode (bytes : List UInt8) : List Symbol :=
  match bytes with
  | [] => []
  | byte :: rest =>
    match decodeChar? (byte :: rest) with
    | some (c, length) => .char c :: decode (rest.drop (length - 1))
    | none => .junk byte :: decode rest
termination_by bytes.length
decreasing_by all_goals simp only [List.length_drop, List.length_cons]; omega

def symbols (s : String) : List Symbol := s.toList.map .char

/-- The text that the symbols spell, unless one of them is junk. -/
def spell? (stream : List Symbol) : Option String := (stream.mapM Symbol.char?).map String.ofList

end ParserKit.Text
