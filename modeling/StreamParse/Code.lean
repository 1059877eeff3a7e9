/-!
# Codes

A code says how a read or a parse went: a category, and a value within it.  The value alone decides
whether something failed, and zero is success in every category.  A clean end of stream is the one
code that a parse does not pass on as it is: to a parser that still asks for bytes it means that the
input was cut short.
-/

namespace StreamParse

/-- Where a value has its meaning.  `parsing` is this library's own category. -/
inductive Category where
  | parsing
  | misc
  | system
  | generic
  deriving DecidableEq, Repr

namespace Category

def all : List Category := [parsing, misc, system, generic]

def name : Category → String
  | parsing => "bufparse"
  | misc => "asio.misc"
  | system => "system"
  | generic => "generic"

def ofName? (name : String) : Option Category :=
  all.find? fun category => category.name == name

end Category

structure Code where
  category : Category
  value : Int
  deriving DecidableEq, Repr

namespace Code

def ok : Code := ⟨.system, 0⟩

instance : Inhabited Code := ⟨ok⟩

/-- A code reports a failure when its value is not zero, whatever its category. -/
def failed (code : Code) : Bool := code.value != 0

def endOfStream : Code := ⟨.misc, 2⟩
def badDescriptor : Code := ⟨.system, 9⟩
def wouldBlock : Code := ⟨.system, 11⟩
def brokenPipe : Code := ⟨.system, 32⟩
def connectionReset : Code := ⟨.system, 104⟩
def timedOut : Code := ⟨.system, 110⟩
def connectionRefused : Code := ⟨.system, 111⟩
def operationAborted : Code := ⟨.system, 125⟩

/-- The source ended while the parser was still asking for bytes. -/
def shortRead : Code := ⟨.parsing, 1⟩

/-- The parser refused the bytes. -/
def badInput : Code := ⟨.parsing, 2⟩

/-- The window is as large as the limit allows and the parser asks for more. -/
def bufferOverflow : Code := ⟨.parsing, 3⟩

/-- The codes that have a name of their own. -/
def named : List (String × Code) :=
  [("eof", endOfStream), ("connection_reset", connectionReset),
   ("connection_refused", connectionRefused), ("operation_aborted", operationAborted),
   ("timed_out", timedOut), ("broken_pipe", brokenPipe), ("would_block", wouldBlock),
   ("short_read", shortRead), ("bad_input", badInput), ("buffer_overflow", bufferOverflow)]

def ofName? (name : String) : Option Code := named.lookup name

/-- The text of a value of the parsing category.  A value outside the category's own three reads
as the first of them. -/
def parsingMessage (value : Int) : String :=
  if value = badInput.value then "parser rejected the input"
  else if value = bufferOverflow.value then "parse buffer limit exceeded"
  else "unexpected end of stream"

/-- Only the parsing category words its own values. -/
def message? (code : Code) : Option String :=
  if code.category = .parsing then some (parsingMessage code.value) else none

/-- What a failed read means to a parse: an end of stream cuts the parse short, and every other
code is passed on unchanged. -/
def asParseFailure (code : Code) : Code :=
  if code = endOfStream then shortRead else code

@[simp]
theorem failed_ok : ok.failed = false := rfl

theorem failed_iff {code : Code} : code.failed = true ↔ code.value ≠ 0 := by
  simp [failed]

@[simp]
theorem asParseFailure_endOfStream : asParseFailure endOfStream = shortRead := rfl

theorem asParseFailure_of_ne {code : Code} (hne : code ≠ endOfStream) :
    code.asParseFailure = code := by
  simp [asParseFailure, hne]

/-- A failure stays a failure, and a success a success. -/
@[simp]
theorem failed_asParseFailure (code : Code) : code.asParseFailure.failed = code.failed := by
  rw [asParseFailure]
  split
  · next h => subst h; rfl
  · rfl

end Code

end StreamParse
