import StreamParse.Buffer.Basic
import StreamParse.Mutation

/-!
# Buffers in place

The operations of a buffer that can meet a fault, one assignment after another.  Each tests all that
it has to test before it changes anything, an allocation included.  So each is an attempt: what it
leaves behind a fault is the buffer that it found.
-/

namespace StreamParse.Buffer.InPlace

/-- A new allocation, if it is granted. -/
def allocate [Allocator] (capacity : UInt64) : Mutation Buffer Storage :=
  if Allocator.grants capacity.toNat then pure .blank else throw .outOfMemory

/-- Finds room for `n` bytes behind the window; a request for none counts as one for one. -/
def reserve [Allocator] (n : UInt64) : Mutation Buffer Area := do
  let n := max n 1
  let b ← get
  if n > b.limit ∨ b.size > b.limit - n then throw .overLimit
  else if b.room ≥ n then return ⟨b.start + b.size, n⟩
  else if b.capacity ≥ b.size + n then
    modify fun b => { b with storage := b.storage.write 0 b.window }
    modify fun b => { b with start := 0 }
    return ⟨b.size, n⟩
  else
    let block ← allocate (b.grownCapacity n)
    modify fun b => { b with storage := block.write 0 b.window }
    modify fun b => { b with start := 0 }
    modify fun b' => { b' with capacity := b.grownCapacity n }
    return ⟨b.size, n⟩

/-- Drops `n` bytes from the front of the window, which has to hold that many. -/
def consume (n : UInt64) : Mutation Buffer Unit := do
  let b ← get
  if n > b.size then throw .pastWindow
  else if n < b.size then
    modify fun b => { b with start := b.start + n }
    modify fun b => { b with size := b.size - n }
  else
    modify fun b => { b with start := 0 }
    modify fun b => { b with size := 0 }

def setLimit (limit : UInt64) : Mutation Buffer Unit := do
  let b ← get
  if limit < b.size then throw .limitBelowSize
  else modify fun b => { b with limit }

/-- What is copied into a new allocation is all that it holds. -/
theorem write_blank (bytes : List UInt8) : Storage.blank.write 0 bytes = .ofList bytes := by
  simp [Storage.blank, Storage.write, Storage.ofList, List.rightpad]

/-- Nothing is moved, and nothing is replaced, before the room is certain to be there. -/
theorem attempts_reserve [Allocator] (n : UInt64) :
    (reserve n).Attempts fun b => b.reserve n := by
  intro b
  simp only [reserve, Buffer.reserve, placement, EStateM.run_bind, EStateM.run_get]
  by_cases hlimit : max n 1 > b.limit ∨ b.size > b.limit - max n 1
  · rw [if_pos hlimit, if_pos hlimit]
    rfl
  rw [if_neg hlimit, if_neg hlimit]
  by_cases hroom : b.room ≥ max n 1
  · rw [if_pos hroom, if_pos hroom]
    rfl
  rw [if_neg hroom, if_neg hroom]
  by_cases hfront : b.capacity ≥ b.size + max n 1
  · rw [if_pos hfront, if_pos hfront]
    simp only [EStateM.run_bind, EStateM.run_modify, EStateM.run_pure]
    change _ = EStateM.Result.ok (Area.mk (0 + b.size) (max n 1)) (b.place .front)
    rw [UInt64.zero_add]
    rfl
  rw [if_neg hfront, if_neg hfront]
  by_cases hgranted : Allocator.grants (b.grownCapacity (max n 1)).toNat = true
  · rw [if_pos hgranted]
    simp only [allocate, if_pos hgranted, EStateM.run_bind, EStateM.run_modify, EStateM.run_pure,
      write_blank]
    change _ = EStateM.Result.ok (Area.mk (0 + b.size) (max n 1))
      (b.place (.fresh (b.grownCapacity (max n 1))))
    rw [UInt64.zero_add]
    rfl
  · rw [if_neg hgranted]
    simp only [allocate, if_neg hgranted, EStateM.run_bind]
    rfl

theorem attempts_consume (n : UInt64) :
    (consume n).Attempts fun b => (b.consume n).map fun b => ((), b) := by
  intro b
  simp only [consume, Buffer.consume, Buffer.discard, EStateM.run_bind, EStateM.run_get]
  by_cases hpast : n > b.size
  · rw [if_pos hpast, if_pos hpast]
    rfl
  rw [if_neg hpast, if_neg hpast]
  by_cases hfewer : n < b.size
  · rw [if_pos hfewer, if_pos hfewer]
    rfl
  · rw [if_neg hfewer, if_neg hfewer]
    rfl

theorem attempts_setLimit (limit : UInt64) :
    (setLimit limit).Attempts fun b => (b.setLimit limit).map fun b => ((), b) := by
  intro b
  simp only [setLimit, Buffer.setLimit, EStateM.run_bind, EStateM.run_get]
  by_cases hbelow : limit < b.size
  · rw [if_pos hbelow, if_pos hbelow]
    rfl
  · rw [if_neg hbelow, if_neg hbelow]
    rfl

end StreamParse.Buffer.InPlace
