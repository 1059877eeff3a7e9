import StreamParse.Buffer.InPlace
import StreamParse.Parser.Basic
import StreamParse.Result

/-!
# Verdicts

A parser has looked at the window of a buffer.  The verdict says what follows from its outcome: the
parse is settled, or it starves and the next read has to ask for a given number of bytes.

A hint moves that number up only as far as the largest of the read size, the default read size and
the capacity.  One read therefore no more than doubles the allocation, and a larger hint is reached
over several reads.
-/

namespace StreamParse

/-- The bytes that a read asks for where nothing else is said. -/
def defaultReadSize : UInt64 := 8192

/-- What the outcome of one look at a window leads to. -/
inductive Verdict (ν ε : Type) where
  | settled (result : Result ν ε)
  /-- The parser needs more; `amount` is what the next read asks for. -/
  | starved (amount : UInt64)
  deriving DecidableEq, Repr

namespace Buffer

variable {ν ε : Type}

/-- The furthest that a hint reaches. -/
def hintReach (b : Buffer) (readSize : UInt64) : UInt64 :=
  max readSize (max defaultReadSize b.capacity)

/-- What the next read asks for when the limit is left aside. -/
def appetite (b : Buffer) (hint : Option Nat) (readSize : UInt64) : UInt64 :=
  match hint with
  | none => readSize
  | some missing =>
      max readSize (min missing (b.hintReach readSize).toNat).toUInt64

/-- The bytes by which the limit exceeds the window, as a machine word. -/
def headroom (b : Buffer) : UInt64 := b.limit - b.size

/-- What the next read asks for: zero when the window may not grow. -/
def nextRead (b : Buffer) (hint : Option Nat) (readSize : UInt64) : UInt64 :=
  min (b.appetite hint readSize) b.headroom

/-- Draws the consequences of an outcome.  The bytes that a value was read from leave the window; a
parser that claims more than the window holds breaks its promise, and nothing is consumed. -/
def judge (b : Buffer) (readSize : UInt64) :
    Outcome ν ε → Except Fault (Verdict ν ε × Buffer)
  | .done value used =>
      if used > b.size.toNat then .error .overuse
      else .ok (.settled (.value value), b.discard used.toUInt64)
  | .reject error => .ok (.settled (.failed (.rejection error)), b)
  | .more hint =>
      if b.nextRead hint readSize = 0 then .ok (.settled (.failed .overflow), b)
      else .ok (.starved (b.nextRead hint readSize), b)

/-- Draws the consequences of an outcome in place. -/
def InPlace.judge (readSize : UInt64) : Outcome ν ε → Mutation Buffer (Verdict ν ε)
  | .done value used => do
      let b ← get
      if used > b.size.toNat then throw .overuse
      else
        InPlace.consume used.toUInt64
        return .settled (.value value)
  | .reject error => return .settled (.failed (.rejection error))
  | .more hint => do
      let b ← get
      if b.nextRead hint readSize = 0 then return .settled (.failed .overflow)
      else return .starved (b.nextRead hint readSize)

/-- Shows the window to a parser once. -/
def look (b : Buffer) (parser : Parser ν ε) (readSize : UInt64) :
    Except Fault (Verdict ν ε × Buffer) :=
  b.judge readSize (parser b.window)

/-- Shows the window to a parser once, in place. -/
def InPlace.look (parser : Parser ν ε) (readSize : UInt64) : Mutation Buffer (Verdict ν ε) := do
  let b ← get
  InPlace.judge readSize (parser b.window)

@[simp]
theorem nextRead_none (b : Buffer) (readSize : UInt64) :
    b.nextRead none readSize = min readSize b.headroom := rfl

@[simp]
theorem judge_reject (b : Buffer) (readSize : UInt64) (error : ε) :
    b.judge readSize (.reject error : Outcome ν ε) =
      .ok (.settled (.failed (.rejection error)), b) := rfl

/-- A parser that uses more than the window holds is found out before anything is consumed. -/
theorem judge_overuse {b : Buffer} {readSize : UInt64} {value : ν} {used : Nat}
    (hmore : b.size.toNat < used) :
    b.judge readSize (.done value used : Outcome ν ε) = .error .overuse := by
  simp [judge, hmore]

/-- What a parser claims to have used is tested before anything is consumed, and what passes that
test is in the window. -/
theorem InPlace.attempts_judge (readSize : UInt64) (outcome : Outcome ν ε) :
    (InPlace.judge readSize outcome).Attempts fun b => b.judge readSize outcome := by
  intro b
  cases outcome with
  | done value used =>
      simp only [InPlace.judge, Buffer.judge, EStateM.run_bind, EStateM.run_get]
      by_cases hmore : used > b.size.toNat
      · rw [if_pos hmore, if_pos hmore]
        rfl
      have hused : used < 2 ^ 64 := Nat.lt_of_le_of_lt (Nat.le_of_not_lt hmore) b.size.toNat_lt
      have hheld : b.consume used.toUInt64 = .ok (b.discard used.toUInt64) := by
        rw [consume_eq_ok_iff, UInt64.le_iff_toNat_le, UInt64.toNat_ofNat_of_lt' hused]
        exact ⟨Nat.le_of_not_lt hmore, rfl⟩
      rw [if_neg hmore, if_neg hmore, EStateM.run_bind, attempts_consume]
      simp only [hheld]
      rfl
  | reject error => rfl
  | more hint =>
      simp only [InPlace.judge, Buffer.judge, EStateM.run_bind, EStateM.run_get]
      by_cases hfull : b.nextRead hint readSize = 0
      · rw [if_pos hfull, if_pos hfull]
        rfl
      · rw [if_neg hfull, if_neg hfull]
        rfl

theorem InPlace.attempts_look (parser : Parser ν ε) (readSize : UInt64) :
    (InPlace.look parser readSize).Attempts fun b => b.look parser readSize :=
  fun b => attempts_judge readSize (parser b.window) b

end Buffer

end StreamParse
