import ParserKit.Parser.Fold

/-! Parsers of single characters and fixed texts. -/

namespace ParserKit.Parser
open Text

/-! ### Single characters -/

/-- Any character. Fails only at the end of the text. -/
def item : Parser Char :=
  fromFn "Item" fun input => (Run.ofExcept input.splitFirst).andThen fun split => .done (.ofOption split)

def satisfy (test : Char → Bool) : Parser Char := (ifSatisfies item test).named "Satisfy"

def element (c : Char) : Parser Char := (satisfy fun x => x == c).named ("Element(" ++ quoteChar c ++ ")")

def oneOf (set : String) : Parser Char :=
  let members := set.toList
  (satisfy fun c => members.contains c).named ("OneOf(" ++ quoteString set ++ ")")

/-- A character that is not in the set. Fails at the end of the text. -/
def noneOf (set : String) : Parser Char :=
  let members := set.toList
  (satisfy fun c => !members.contains c).named ("NoneOf(" ++ quoteString set ++ ")")

/-! ### Texts -/

def literal (text : String) : Parser String :=
  fromFn ("Literal(" ++ quoteString text ++ ")") fun input =>
    (Run.ofExcept (input.strip text)).andThen fun
      | some rest => .done (.success text rest)
      | none => .done .failure

/-- A run of zero or more `c`. Never fails. -/
def manyOf (c : Char) : Parser String :=
  (many (element c) "" fun run c => run.push c).named ("ManyOf(" ++ quoteChar c ++ ")")

def eof : Parser Unit :=
  fromFn "Eof" fun input => if input.isEmpty then .done (.success () input) else .done .failure

end ParserKit.Parser
