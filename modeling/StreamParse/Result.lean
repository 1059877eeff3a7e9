import StreamParse.Failure

/-!
# Results

A parse that ends leaves a value or a failure, never both.  Asking a failed result for its value
gives back the failure, with code and detail.
-/

namespace StreamParse

inductive Result (ν ε : Type) where
  | value (value : ν)
  | failed (failure : Failure ε)
  deriving DecidableEq, Repr

namespace Result

variable {ν ε : Type}

/-- Before anything was parsed a result holds no value, and no error either. -/
def empty : Result ν ε := failed .empty

instance : Inhabited (Result ν ε) := ⟨empty⟩

def isValue : Result ν ε → Bool
  | value _ => true
  | failed _ => false

def value? : Result ν ε → Option ν
  | value v => some v
  | failed _ => none

/-- The failure of a result that holds a value is the empty one. -/
def failure : Result ν ε → Failure ε
  | value _ => .empty
  | failed failure => failure

/-- The value, or else the failure. -/
def get : Result ν ε → Except (Failure ε) ν
  | value v => .ok v
  | failed failure => .error failure

def map {ν' : Type} (onValue : ν → ν') : Result ν ε → Result ν' ε
  | value v => value (onValue v)
  | failed failure => failed failure

@[simp]
theorem isSome_value? (result : Result ν ε) : result.value?.isSome = result.isValue := by
  cases result <;> rfl

@[simp]
theorem get_map {ν' : Type} (onValue : ν → ν') (result : Result ν ε) :
    (result.map onValue).get = result.get.map onValue := by
  cases result <;> rfl

end Result

end StreamParse
