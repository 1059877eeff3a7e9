import StreamParse.Parser.Basic

/-!
# Numbers

Decimal digits up to a semicolon.  The value is a machine word, so the digits count modulo its size.
-/

namespace StreamParse

/-- Why some bytes are not a number. -/
inductive NumberError where
  /-- There is no digit before the end. -/
  | empty
  /-- A byte is neither a digit nor the end. -/
  | badDigit (offset : Nat)
  deriving DecidableEq, Repr

namespace NumberError

def message : NumberError → String
  | empty => "empty"
  | badDigit offset => "bad digit at " ++ toString offset

end NumberError

namespace Parser

def semicolon : UInt8 := 0x3b

def isDigit (byte : UInt8) : Bool := 0x30 ≤ byte && byte ≤ 0x39

/-- The value of decimal digits. -/
def ofDigits (digits : List UInt8) : UInt64 :=
  digits.foldl (fun value digit => value * 10 + (digit - 0x30).toUInt64) 0

/-- Digits and the semicolon behind them. -/
def number : Parser UInt64 NumberError := fun window =>
  let digits := window.takeWhile isDigit
  match window.dropWhile isDigit with
  | [] => .more none
  | byte :: _ =>
      if byte ≠ semicolon then .reject (.badDigit digits.length)
      else if digits = [] then .reject .empty
      else .done (ofDigits digits) (digits.length + 1)

end Parser

end StreamParse
