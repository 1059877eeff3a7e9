import StreamParse.Parser.Text

/-!
# Scripted parsers

Parsers whose outcome depends on the size of the window alone.  Among them are some that never
decide, and some that claim more bytes than they are shown.
-/

namespace StreamParse

namespace Parser

/-- Asks for more whatever it is shown. -/
def hinted (hint : Nat) : Parser (List UInt8) BadByte := fun _ => .more (some hint)

/-- Claims one byte more than the window holds. -/
def greedy : Parser (List UInt8) BadByte := fun window =>
  match window with
  | [] => .more none
  | _ => .done [] (window.length + 1)

/-- An outcome for all windows of at least `least` bytes. -/
structure Row where
  least : Nat
  outcome : Outcome (List UInt8) BadByte
  deriving DecidableEq, Repr

/-- Answers with the last row that applies. -/
def table (rows : List Row) : Parser (List UInt8) BadByte := fun window =>
  match (rows.filter fun row => row.least ≤ window.length).getLast? with
  | none => .more none
  | some row => row.outcome

end Parser

end StreamParse
