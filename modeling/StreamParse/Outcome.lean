/-!
# Outcomes

A look at a window of bytes has one of three outcomes: it is done with some bytes at the front of
the window, it needs more bytes than it was shown, or no continuation of these bytes can be right.
-/

namespace StreamParse

inductive Outcome (ν ε : Type) where
  /-- A value, read from the first `used` bytes of the window. -/
  | done (value : ν) (used : Nat)
  /-- The window is too short to tell; `hint` is the number of bytes missing, where known. -/
  | more (hint : Option Nat)
  /-- The window cannot be the beginning of anything. -/
  | reject (error : ε)
  deriving DecidableEq, Repr

namespace Outcome

variable {ν ε : Type}

def isDone : Outcome ν ε → Bool
  | done _ _ => true
  | _ => false

def isMore : Outcome ν ε → Bool
  | more _ => true
  | _ => false

def isReject : Outcome ν ε → Bool
  | reject _ => true
  | _ => false

def value? : Outcome ν ε → Option ν
  | done value _ => some value
  | _ => none

def used? : Outcome ν ε → Option Nat
  | done _ used => some used
  | _ => none

def hint? : Outcome ν ε → Option Nat
  | more hint => hint
  | _ => none

def error? : Outcome ν ε → Option ε
  | reject error => some error
  | _ => none

/-- An outcome is decided unless it asks for more. -/
def isDecided (outcome : Outcome ν ε) : Bool := !outcome.isMore

/-- Renames values and errors.  The shape of the outcome and its numbers stay. -/
def map {ν' ε' : Type} (onValue : ν → ν') (onError : ε → ε') : Outcome ν ε → Outcome ν' ε'
  | done value used => done (onValue value) used
  | more hint => more hint
  | reject error => reject (onError error)

@[simp]
theorem isDone_eq_isSome_value? (outcome : Outcome ν ε) :
    outcome.value?.isSome = outcome.isDone := by
  cases outcome <;> rfl

@[simp]
theorem isReject_eq_isSome_error? (outcome : Outcome ν ε) :
    outcome.error?.isSome = outcome.isReject := by
  cases outcome <;> rfl

@[simp]
theorem isDecided_more (hint : Option Nat) : (more hint : Outcome ν ε).isDecided = false := rfl

@[simp]
theorem isDecided_map {ν' ε' : Type} (onValue : ν → ν') (onError : ε → ε')
    (outcome : Outcome ν ε) : (outcome.map onValue onError).isDecided = outcome.isDecided := by
  cases outcome <;> rfl

end Outcome

end StreamParse
