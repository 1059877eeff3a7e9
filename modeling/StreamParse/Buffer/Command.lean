import StreamParse.Buffer.InPlace

/-!
# Commands to a buffer

The operations of a buffer as data, so that a history of a buffer is a list.  Commands work in place,
and what is known of the operations carries over: a command that is refused leaves the buffer as it
was.
-/

namespace StreamParse

namespace Buffer

inductive Command where
  /-- Find room for `n` bytes and write `bytes` into it, without committing any. -/
  | reserve (n : UInt64) (bytes : List UInt8)
  /-- Find room for `bytes`, write them, and commit `n`. -/
  | append (bytes : List UInt8) (n : UInt64)
  | commit (n : UInt64)
  | consume (n : UInt64)
  | setLimit (limit : UInt64)
  | clear
  deriving DecidableEq, Repr

/-- Writes all of `bytes` behind the window. -/
def Command.write (bytes : List UInt8) : Command := .append bytes bytes.length.toUInt64

/-- What a command attempts.  The answer of a command that finds room is the size of the area. -/
def perform [Allocator] (b : Buffer) : Command → Except Fault (Option UInt64 × Buffer)
  | .reserve n bytes => do
      let (area, b) ← b.reserve n
      return (some area.size, b.fill area bytes)
  | .append bytes n => do
      let (area, b) ← b.append bytes n
      return (some area.size, b)
  | .commit n => .ok (none, b.commit n)
  | .consume n => (b.consume n).map fun b => (none, b)
  | .setLimit limit => (b.setLimit limit).map fun b => (none, b)
  | .clear => .ok (none, b.clear)

/-- Carries out one command in place. -/
def InPlace.perform [Allocator] : Command → Mutation Buffer (Option UInt64)
  | .reserve n bytes => do
      let area ← InPlace.reserve n
      modify fun b => b.fill area bytes
      return some area.size
  | .append bytes n => do
      let area ← InPlace.reserve bytes.length.toUInt64
      modify fun b => b.fill area bytes
      modify fun b => b.commit n
      return some area.size
  | .commit n => do
      modify fun b => b.commit n
      return none
  | .consume n => do
      InPlace.consume n
      return none
  | .setLimit limit => do
      InPlace.setLimit limit
      return none
  | .clear => do
      modify Buffer.clear
      return none

section Histories

variable [Allocator]

/-- The answer of a command, and the buffer as the command leaves it. -/
def step (b : Buffer) (command : Command) : Except Fault (Option UInt64) × Buffer :=
  (InPlace.perform command).on b

/-- The buffer after a history of commands. -/
def run (b : Buffer) (commands : List Command) : Buffer :=
  commands.foldl (fun b command => (b.step command).2) b

/-- The answers to a history of commands. -/
def answers (b : Buffer) : List Command → List (Except Fault (Option UInt64))
  | [] => []
  | command :: commands => (b.step command).1 :: (b.step command).2.answers commands

/-- Every command is an attempt. -/
theorem InPlace.attempts_perform (command : Command) :
    (InPlace.perform command).Attempts fun b => b.perform command := by
  intro b
  cases command with
  | reserve n bytes =>
      simp only [InPlace.perform, Buffer.perform, EStateM.run_bind, attempts_reserve n b]
      cases b.reserve n <;> rfl
  | append bytes n =>
      simp only [InPlace.perform, Buffer.perform, Buffer.append, EStateM.run_bind,
        attempts_reserve bytes.length.toUInt64 b]
      cases b.reserve bytes.length.toUInt64 <;> rfl
  | commit n => rfl
  | consume n =>
      simp only [InPlace.perform, Buffer.perform, EStateM.run_bind, attempts_consume n b]
      cases b.consume n <;> rfl
  | setLimit limit =>
      simp only [InPlace.perform, Buffer.perform, EStateM.run_bind, attempts_setLimit limit b]
      cases b.setLimit limit <;> rfl
  | clear => rfl

theorem step_of_error {b : Buffer} {command : Command} {fault : Fault}
    (h : b.perform command = .error fault) : b.step command = (.error fault, b) :=
  (InPlace.attempts_perform command).on_of_error h

theorem step_of_ok {b b' : Buffer} {command : Command} {answer : Option UInt64}
    (h : b.perform command = .ok (answer, b')) : b.step command = (.ok answer, b') :=
  (InPlace.attempts_perform command).on_of_ok h

@[simp]
theorem run_nil (b : Buffer) : b.run [] = b := rfl

@[simp]
theorem run_cons (b : Buffer) (command : Command) (commands : List Command) :
    b.run (command :: commands) = (b.step command).2.run commands := rfl

theorem run_append (b : Buffer) (before after : List Command) :
    b.run (before ++ after) = (b.run before).run after := by
  simp [run]

end Histories

end Buffer

end StreamParse
