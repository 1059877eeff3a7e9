import StreamParse.Parser.Number
import StreamParse.Parser.Scripted
import StreamParse.Parser.Sized

/-!
# Grammars

The parsers of this library under one type, so that parses of different kinds of values can run side
by side in one reactor.
-/

namespace StreamParse

inductive Grammar where
  | token
  | fixed (length : Nat)
  | line
  | hinted (hint : Nat)
  | greedy
  | table (rows : List Parser.Row)
  | counted
  | number
  deriving Repr

namespace Grammar

inductive Value where
  | bytes (bytes : List UInt8)
  | number (number : UInt64)
  deriving DecidableEq, Repr

/-- What a parser says when it refuses its input. -/
inductive Detail where
  | badByte (badByte : BadByte)
  | number (error : NumberError)
  deriving DecidableEq, Repr

/-- Makes a parser of bytes one of values. -/
def ofBytes (parser : Parser (List UInt8) BadByte) : Parser Value Detail :=
  parser.map .bytes .badByte

def parser : Grammar → Parser Value Detail
  | .token => ofBytes Parser.token
  | .fixed length => ofBytes (Parser.fixed length)
  | .line => ofBytes Parser.line
  | .hinted hint => ofBytes (Parser.hinted hint)
  | .greedy => ofBytes Parser.greedy
  | .table rows => ofBytes (Parser.table rows)
  | .counted => ofBytes Parser.counted
  | .number => Parser.number.map .number .number

end Grammar

end StreamParse
