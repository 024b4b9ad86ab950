/-! What can go wrong outside the rules of a grammar. A fault is a mistake in how parsers were put together
    or started, never a text that does not match; it ends the whole run. -/

namespace ParserKit

inductive Fault where
  /-- A view would start past the end of its text or inside a character. -/
  | boundary (offset : Nat)
  /-- A forward reference ran before its cell was filled. -/
  | undefined (name : String)
  /-- A reference ran when nothing held its definition any more. -/
  | dropped (name : String)
  /-- A rule or a register that holds no parser was asked for one. -/
  | unknown (name : String)
  /-- A stretch of text ends before the place where it starts, and so has no length. -/
  | backwards (start stop : Nat)
deriving DecidableEq

namespace Fault

/-- The report of a fault. Names stand in it as they are, without escapes. -/
def message : Fault → String
  | boundary offset => s!"offset {offset} is not a character boundary of the input"
  | undefined name => "recursive parser \x60" ++ name ++ "\x60 was used before it was defined"
  | dropped name => "recursive parser \x60" ++ name ++ "\x60 was used after its definition was dropped"
  | unknown name => "no parser is stored under \x60" ++ name ++ "\x60"
  | backwards .. => "attempt to subtract with overflow"

end Fault
end ParserKit
