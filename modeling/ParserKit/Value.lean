import ParserKit.Saturation
import ParserKit.Text.Quoted

/-! Dynamic values, for grammars that are put together at run time. Every value can be read as a number, as
    a text and as a size, so that every function on values is total. Arithmetic saturates at the bounds of
    signed words of 128 bits. -/

namespace ParserKit

inductive Value where
  | unit
  | none
  | some (v : Value)
  | char (c : Char)
  | string (s : String)
  | int (n : Int)
  /-- A list, from its last item to its first, so that one more item is added without touching the others. -/
  | list (newestFirst : List Value)

namespace Value

/-! ### Equality -/

mutual

def beq : Value → Value → Bool
  | unit, unit => true
  | none, none => true
  | some v, some w => v.beq w
  | char c, char d => c == d
  | string s, string t => s == t
  | int m, int n => m == n
  | list vs, list ws => beqAll vs ws
  | _, _ => false

def beqAll : List Value → List Value → Bool
  | [], [] => true
  | v :: vs, w :: ws => v.beq w && beqAll vs ws
  | _, _ => false

end

mutual

theorem eq_of_beq : ∀ v w : Value, v.beq w = true → v = w
  | unit, w, h => by cases w <;> simp_all [beq]
  | none, w, h => by cases w <;> simp_all [beq]
  | some v, w, h => by
    cases w with
    | some w => exact congrArg some (eq_of_beq v w (by simpa [beq] using h))
    | _ => simp [beq] at h
  | char c, w, h => by cases w <;> simp_all [beq]
  | string s, w, h => by cases w <;> simp_all [beq]
  | int n, w, h => by cases w <;> simp_all [beq]
  | list vs, w, h => by
    cases w with
    | list ws => exact congrArg list (eqAll_of_beq vs ws (by simpa [beq] using h))
    | _ => simp [beq] at h

theorem eqAll_of_beq : ∀ vs ws : List Value, beqAll vs ws = true → vs = ws
  | [], ws, h => by cases ws <;> simp_all [beqAll]
  | v :: vs, ws, h => by
    cases ws with
    | nil => simp [beqAll] at h
    | cons w ws =>
      simp only [beqAll, Bool.and_eq_true] at h
      rw [eq_of_beq v w h.1, eqAll_of_beq vs ws h.2]

end

mutual

theorem beq_self : ∀ v : Value, v.beq v = true
  | unit | none | char _ | string _ | int _ => by simp [beq]
  | some v => by simpa [beq] using beq_self v
  | list vs => by simpa [beq] using beqAll_self vs

theorem beqAll_self : ∀ vs : List Value, beqAll vs vs = true
  | [] => by simp [beqAll]
  | v :: vs => by simp [beqAll, beq_self v, beqAll_self vs]

end

instance : DecidableEq Value := fun v w =>
  if h : v.beq w then .isTrue (eq_of_beq v w h) else .isFalse fun e => h (e ▸ beq_self v)

def range : Range := .signed128

/-! ### Readings -/

/-- A value as a number: an integer is itself, a character its code point, and what is no number is 0. -/
def num : Value → Int
  | int n => n
  | char c => c.toNat
  | some v => v.num
  | _ => 0

mutual

/-- A value as a text: its characters, its decimal digits, or the texts of its items in a row. -/
def text : Value → String
  | char c => c.toString
  | string s => s
  | int n => toString n
  | some v => v.text
  | list newestFirst => textAll newestFirst
  | unit | none => ""

/-- The texts of the values in a row, from the last value to the first. -/
def textAll : List Value → String
  | [] => ""
  | v :: earlier => textAll earlier ++ v.text

end

/-- A list's number of items; for anything else the number of bytes of its text. -/
def size : Value → Int
  | list newestFirst => newestFirst.length
  | v => v.text.utf8ByteSize

def isSome : Value → Bool
  | some _ => true
  | _ => false

mutual

/-- A value as it is shown in reports. -/
def debug : Value → String
  | unit => "()"
  | none => "None"
  | some v => "Some(" ++ v.debug ++ ")"
  | char c => Text.quoteChar c
  | string s => Text.quoteString s
  | int n => toString n
  | list newestFirst => "[" ++ debugAll newestFirst ++ "]"

/-- The values as they are shown in a list, from the last value to the first. -/
def debugAll : List Value → String
  | [] => ""
  | [v] => v.debug
  | v :: earlier => debugAll earlier ++ ", " ++ v.debug

end

def ofList (items : List Value) : Value := list items.reverse

def ofOption : Option Value → Value
  | .some v => some v
  | .none => none

/-! ### Functions of one value -/

def wrap (v : Value) : Value := ofList [v]

def toText (v : Value) : Value := string v.text

def toNum (v : Value) : Value := int v.num

def digit (v : Value) : Value := int (range.sub v.num '0'.toNat)

def upper (v : Value) : Value := string (v.text.map Char.toUpper)

def len (v : Value) : Value := int v.size

/-- A list from its end, or a text from its end. -/
def reverse : Value → Value
  | list newestFirst => ofList newestFirst
  | v => string (String.ofList v.text.toList.reverse)

def addTo (k : Int) (v : Value) : Value := int (range.add v.num k)

def mulBy (k : Int) (v : Value) : Value := int (range.mul v.num k)

def between (left right : String) (v : Value) : Value := string (left ++ v.text ++ right)

/-! ### Functions of two values -/

def pair (a b : Value) : Value := ofList [a, b]

/-- The list with one more item; from anything else a new list of both values. -/
def push (a b : Value) : Value :=
  match a with
  | list newestFirst => list (b :: newestFirst)
  | a => pair a b

def concat (a b : Value) : Value := string (a.text ++ b.text)

def add (a b : Value) : Value := int (range.add a.num b.num)

def sub (a b : Value) : Value := int (range.sub a.num b.num)

def mul (a b : Value) : Value := int (range.mul a.num b.num)

def maximum (a b : Value) : Value := int (max a.num b.num)

/-- Counts the second value into the first. -/
def count (a _b : Value) : Value := int (range.add a.num 1)

/-- The first value with the second as one more decimal digit. -/
def decimal (a b : Value) : Value :=
  let d := match b with
    | char c => range.sub c.toNat '0'.toNat
    | b => b.num
  int (range.add (range.mul a.num 10) d)

/-! ### Functions of many values -/

def sum (vs : List Value) : Value := int (vs.foldl (fun acc v => range.add acc v.num) 0)

def concatAll (vs : List Value) : Value := string (ofList vs).text

def last (vs : List Value) : Value := vs.getLast?.getD unit

/-! ### Tests -/

def isEven (v : Value) : Bool := v.num % 2 == 0

end Value
end ParserKit
