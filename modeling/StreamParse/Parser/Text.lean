import StreamParse.Parser.Basic

/-!
# Words and lines

Two parsers for text: a word of capital letters that a space ends, and a line that a carriage return
and a line feed end.  The end mark is used, but does not belong to the value.
-/

namespace StreamParse

/-- The byte that a parser stumbled over, and where it is in the window. -/
structure BadByte where
  offset : Nat
  byte : UInt8
  deriving DecidableEq, Repr

namespace Parser

def space : UInt8 := 0x20
def carriageReturn : UInt8 := 0x0d
def lineFeed : UInt8 := 0x0a

/-- Capital letters are those of ASCII. -/
def isCapital (byte : UInt8) : Bool := 0x41 ≤ byte && byte ≤ 0x5a

/-- The capital letters at the front of a window. -/
def word (window : List UInt8) : List UInt8 := window.takeWhile isCapital

/-- A word and the space behind it.  A word has at least one letter. -/
def token : Parser (List UInt8) BadByte := fun window =>
  match window.dropWhile isCapital with
  | [] => .more none
  | byte :: _ =>
      if byte = space ∧ word window ≠ [] then .done (word window) ((word window).length + 1)
      else .reject { offset := (word window).length, byte }

/-- Where the first end of line begins. -/
def lineEnd? (window : List UInt8) : Option Nat :=
  (window.zip window.tail).findIdx? fun pair => pair == (carriageReturn, lineFeed)

/-- A line and its end.  A carriage return or a line feed alone belongs to the line. -/
def line : Parser (List UInt8) BadByte := fun window =>
  match lineEnd? window with
  | none => .more none
  | some length => .done (window.take length) (length + 2)

end Parser

end StreamParse
