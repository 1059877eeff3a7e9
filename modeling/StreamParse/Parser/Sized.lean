import StreamParse.Parser.Text

/-!
# Values of known length

Two parsers that know how long their value is: one is told before it starts, the other reads the
length from the first byte.  Both say how many bytes they are missing.
-/

namespace StreamParse

namespace Parser

/-- The byte that no value of a fixed length may hold. -/
def forbidden : UInt8 := 0x58

/-- The first `length` bytes, none of which may be the forbidden one. -/
def fixed (length : Nat) : Parser (List UInt8) BadByte := fun window =>
  match (window.take length).findIdx? (· == forbidden) with
  | some offset => .reject { offset, byte := forbidden }
  | none =>
      if window.length < length then .more (some (length - window.length))
      else .done (window.take length) length

/-- The length that no counted value has. -/
def reserved : UInt8 := 0xff

/-- A byte that gives a length, and as many bytes behind it. -/
def counted : Parser (List UInt8) BadByte := fun window =>
  match window with
  | [] => .more (some 1)
  | length :: rest =>
      if length = reserved then .reject { offset := 0, byte := length }
      else if rest.length < length.toNat then .more (some (length.toNat - rest.length))
      else .done (rest.take length.toNat) (length.toNat + 1)

end Parser

end StreamParse
