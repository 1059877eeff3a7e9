import StreamParse.Fault

/-!
# Mutations

A mutation works on an object in place.  A fault ends it where it is met, and what was done to the
object until then stays done: nothing is taken back.  Whether a fault leaves a trace is therefore a
question about the order of the steps, and a mutation that leaves none is said to attempt something.
-/

namespace StreamParse

/-- An operation on an object of type `σ` that answers with an `α` or meets a fault. -/
abbrev Mutation (σ α : Type) := EStateM Fault σ α

namespace Mutation

variable {σ τ α : Type}

/-- The answer or the fault, and the object as the mutation leaves it. -/
def on (mutation : Mutation σ α) (object : σ) : Except Fault α × σ :=
  match mutation.run object with
  | .ok answer object => (.ok answer, object)
  | .error fault object => (.error fault, object)

/-- Works on a part of an object, and puts the part back as the mutation leaves it. -/
def within (part : σ → τ) (put : σ → τ → σ) (mutation : Mutation τ α) : Mutation σ α :=
  fun object =>
    match mutation.run (part object) with
    | .ok answer changed => .ok answer (put object changed)
    | .error fault changed => .error fault (put object changed)

/-- What is left of an object after an attempt: all that it leads to, or nothing at all. -/
def settle (object : σ) : Except Fault (α × σ) → EStateM.Result Fault σ α
  | .ok (answer, next) => .ok answer next
  | .error fault => .error fault object

/-- The mutation leads to what the attempt leads to, and a fault finds the object as it was. -/
def Attempts (mutation : Mutation σ α) (attempt : σ → Except Fault (α × σ)) : Prop :=
  ∀ object, mutation.run object = settle object (attempt object)

variable {mutation : Mutation σ α} {attempt : σ → Except Fault (α × σ)}

theorem Attempts.on_of_ok (attempts : mutation.Attempts attempt) {object next : σ} {answer : α}
    (h : attempt object = .ok (answer, next)) : mutation.on object = (.ok answer, next) := by
  rw [on, attempts object, h]
  rfl

theorem Attempts.on_of_error (attempts : mutation.Attempts attempt) {object : σ} {fault : Fault}
    (h : attempt object = .error fault) : mutation.on object = (.error fault, object) := by
  rw [on, attempts object, h]
  rfl

/-- Whatever holds of an object, and of all that the attempt leads to, holds after the mutation. -/
theorem Attempts.preserves {motive : σ → Prop} (attempts : mutation.Attempts attempt) {object : σ}
    (hobject : motive object)
    (hattempt : ∀ answer next, attempt object = .ok (answer, next) → motive next) :
    motive (mutation.on object).2 := by
  cases h : attempt object with
  | ok found =>
      rw [attempts.on_of_ok h]
      exact hattempt _ _ h
  | error fault =>
      rw [attempts.on_of_error h]
      exact hobject

/-- An attempt on a part is one on the whole, if to put a part back that was not changed changes
nothing. -/
theorem Attempts.within (attempts : mutation.Attempts attempt) (part : τ → σ) (put : τ → σ → τ)
    (hput : ∀ object, put object (part object) = object) :
    (mutation.within part put).Attempts fun object =>
      (attempt (part object)).map fun found => (found.1, put object found.2) := by
  intro object
  change (match mutation.run (part object) with
    | .ok answer changed => EStateM.Result.ok answer (put object changed)
    | .error fault changed => .error fault (put object changed)) = _
  rw [attempts (part object)]
  cases h : attempt (part object) with
  | error fault => simp only [settle, h, Except.map, hput]
  | ok found => simp only [settle, h, Except.map]

end Mutation

end StreamParse
