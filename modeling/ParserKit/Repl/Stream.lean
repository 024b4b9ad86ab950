import ParserKit.Text.Blank
import ParserKit.Text.Utf8

/-! Streams to read lines from and to write texts to. A reader holds the symbols that have not been read yet.
    A console collects what is written and what is reported beside it, and knows which of its calls fail. -/

namespace ParserKit

inductive StreamError where
  /-- The bytes that were read are not text. -/
  | notText
  /-- The system refused, with a reason and its number. -/
  | system (reason : String) (code : Nat)
  | other (message : String)
deriving DecidableEq

namespace StreamError

def message : StreamError → String
  | notText => "stream did not contain valid UTF-8"
  | system reason code => s!"{reason} (os error {code})"
  | other message => message

def notFound : StreamError := .system "No such file or directory" 2

def notDirectory : StreamError := .system "Not a directory" 20

/-- A path leads to a directory, which has no content. -/
def isDirectory : StreamError := .system "Is a directory" 21

def nameTooLong : StreamError := .system "File name too long" 36

def permissionDenied : StreamError := .system "Permission denied" 13

def named : List StreamError := [notFound, notDirectory, isDirectory, nameTooLong, permissionDenied]

def number? : StreamError → Option Nat
  | system _ code => some code
  | _ => none

end StreamError

/-! ### Reading -/

/-- What is left to read, and the error that follows it, if any. -/
structure Reader where
  pending : List Text.Symbol
  failure : Option StreamError

namespace Reader
open Text

def ofString (text : String) : Reader := ⟨symbols text, none⟩

def unread (r : Reader) : Nat := r.pending.foldl (fun bytes s => bytes + s.size) 0

/-- All that is left to read. What comes before an error is lost. -/
def readAll (r : Reader) : Except StreamError (List Symbol) :=
  match r.failure with
  | some e => .error e
  | none => .ok r.pending

/-- The symbols through the first line feed, and those after it. -/
def takeLine : List Symbol → List Symbol × List Symbol
  | [] => ([], [])
  | .char '\n' :: rest => ([.char '\n'], rest)
  | s :: rest => (s :: (takeLine rest).1, (takeLine rest).2)

def hasLineFeed : List Symbol → Bool
  | [] => false
  | .char '\n' :: _ => true
  | _ :: rest => hasLineFeed rest

inductive Reading where
  /-- A line, with the line feed at its end if it has one. -/
  | line (text : String)
  | ended
  | failed (e : StreamError)

/-- What the next line is, before it is used up. A last line without a line feed is lost when an error
    follows it. -/
def nextLine (r : Reader) : Reading :=
  match hasLineFeed r.pending, r.failure with
  | false, some e => .failed e
  | _, _ =>
    if r.pending.isEmpty then .ended
    else
      match spell? (takeLine r.pending).1 with
      | some text => .line text
      | none => .failed .notText

/-- The reader after the next line. What is read is used up, also when it is not text. -/
def skipLine (r : Reader) : Reader := { r with pending := (takeLine r.pending).2 }

theorem length_takeLine_lt {stream : List Symbol} (h : stream ≠ []) :
    (takeLine stream).2.length < stream.length := by
  fun_induction takeLine stream with
  | case1 => exact absurd rfl h
  | case2 => simp
  | case3 s rest _ ih =>
    by_cases hr : rest = []
    · simp [hr, takeLine]
    · have := ih hr
      simp only [List.length_cons]
      omega

theorem length_skipLine_lt {r : Reader} {text : String} (h : r.nextLine = .line text) :
    r.skipLine.pending.length < r.pending.length := by
  apply length_takeLine_lt
  intro hp
  simp only [nextLine, hp, hasLineFeed, List.isEmpty_nil, if_true] at h
  split at h <;> simp at h

end Reader

/-! ### Writing -/

/-- What was written and reported so far. -/
structure Console where
  output : String
  /-- The reports for the user, apart from the output. -/
  reports : String
  /-- How many texts were offered for writing. -/
  writes : Nat
  /-- How often the output was flushed, or a flush was tried. -/
  flushes : Nat
  /-- The error of the n-th write, counted from 0. -/
  writeFault : Nat → Option StreamError
  /-- The error of the n-th flush, counted from 0. -/
  flushFault : Nat → Option StreamError

/-- A result that may be missing, and the console after the attempt. -/
structure Attempt (ε α : Type) where
  result : Except ε α
  console : Console

namespace Console

/-- The console on which nothing was written, and on which nothing fails. -/
def empty : Console := ⟨"", "", 0, 0, fun _ => none, fun _ => none⟩

/-- Writes a text. A write that fails writes nothing. -/
def write (c : Console) (text : String) : Attempt StreamError Unit :=
  match c.writeFault c.writes with
  | some e => ⟨.error e, { c with writes := c.writes + 1 }⟩
  | none => ⟨.ok (), { c with writes := c.writes + 1, output := c.output ++ text }⟩

/-- Makes sure that what was written can be seen. -/
def flush (c : Console) : Attempt StreamError Unit :=
  ⟨match c.flushFault c.flushes with
    | some e => .error e
    | none => .ok (),
    { c with flushes := c.flushes + 1 }⟩

def report (c : Console) (text : String) : Console := { c with reports := c.reports ++ text }

def Reliable (c : Console) : Prop := (∀ n, c.writeFault n = none) ∧ ∀ n, c.flushFault n = none

end Console

namespace Attempt
variable {ε α β : Type}

/-- Goes on with a result on the console that is left. -/
def andThen (a : Attempt ε α) (next : α → Console → Attempt ε β) : Attempt ε β :=
  match a.result with
  | .ok r => next r a.console
  | .error e => ⟨.error e, a.console⟩

end Attempt
end ParserKit
