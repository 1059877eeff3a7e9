/-!
# Faults

A fault is a request that cannot be carried out at all: a misuse of the interface, a limit that would
be broken, or storage that is not to be had.  A fault leaves no result behind.  It is kept apart from
a failed parse, which is an answer.
-/

namespace StreamParse

inductive Fault where
  /-- More bytes were to be consumed than the window holds. -/
  | pastWindow
  /-- A parser claims to have used more bytes than it was shown. -/
  | overuse
  /-- The window would outgrow the limit. -/
  | overLimit
  /-- The limit was to be set below the size of the window. -/
  | limitBelowSize
  /-- A read was to ask for no bytes at all. -/
  | zeroReadSize
  /-- The storage asked for is not to be had. -/
  | outOfMemory
  deriving DecidableEq, Repr

namespace Fault

/-- A lack of storage has no text. -/
def message? : Fault → Option String
  | pastWindow => some "parse_buffer consume past end of window"
  | overuse => some "parser used more bytes than the window holds"
  | overLimit => some "parse_buffer overflow"
  | limitBelowSize => some "parse_buffer max_size below size"
  | zeroReadSize => some "read_size must be greater than zero"
  | outOfMemory => none

end Fault

end StreamParse
