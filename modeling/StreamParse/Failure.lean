import StreamParse.Code

/-!
# Failures

A failure is a code, together with the parser's own account of the matter when the parser refused
the input.  The empty failure stands for success.  The kind of a failure says who is at fault, and is
read off the code alone.
-/

namespace StreamParse

structure Failure (ε : Type) where
  code : Code := .ok
  detail : Option ε := none
  deriving DecidableEq, Repr

namespace Failure

variable {ε : Type}

inductive Kind where
  | none
  | source
  | shortRead
  | parser
  | overflow
  deriving DecidableEq, Repr

/-- The empty failure: nothing went wrong. -/
def empty : Failure ε := {}

instance : Inhabited (Failure ε) := ⟨empty⟩

/-- A failure holds an error when its code tests true. -/
def holdsError (failure : Failure ε) : Bool := failure.code.failed

/-- Every failing code that is not one of this library's own three comes from the source. -/
def kind (failure : Failure ε) : Kind :=
  if !failure.code.failed then .none
  else if failure.code = .shortRead then .shortRead
  else if failure.code = .badInput then .parser
  else if failure.code = .bufferOverflow then .overflow
  else .source

/-- The failure left by a parser that refused its input. -/
def rejection (error : ε) : Failure ε := { code := .badInput, detail := some error }

/-- The failure left by a parser that asks for more than the limit allows. -/
def overflow : Failure ε := { code := .bufferOverflow }

/-- The failure left by a read that failed. -/
def ofRead (code : Code) : Failure ε := { code := code.asParseFailure }

@[simp]
theorem kind_empty : (empty : Failure ε).kind = .none := rfl

@[simp]
theorem kind_rejection (error : ε) : (rejection error).kind = .parser := rfl

@[simp]
theorem kind_overflow : (overflow : Failure ε).kind = .overflow := rfl

theorem kind_eq_none_iff {failure : Failure ε} :
    failure.kind = .none ↔ failure.holdsError = false := by
  rw [kind, holdsError]
  split
  · next h => simpa using h
  · next h =>
    repeat' split
    all_goals simp_all

end Failure

end StreamParse
