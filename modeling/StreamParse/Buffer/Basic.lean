import StreamParse.Allocator
import StreamParse.Fault
import StreamParse.Storage

/-!
# Buffers

A buffer holds the bytes that were read and not yet consumed.  They lie in one allocation, behind one
another, and are called the window.  Bytes enter behind the window and leave at its front:

* `reserve` finds room behind the window, `fill` writes into that room, and `commit` adds bytes of it
  to the window;
* `consume` drops bytes from the front.

When the room behind the window is too small, the window first moves to the front of the allocation,
and only an allocation that is too small as a whole is replaced.  Sizes are machine words, and a
buffer never holds more of an allocation than its capacity.
-/

namespace StreamParse

/-- Room behind the window, into which bytes may be written. -/
structure Area where
  offset : UInt64
  size : UInt64
  deriving DecidableEq, Repr

structure Buffer where
  /-- Where the window begins. -/
  start : UInt64 := 0
  /-- The number of bytes in the window. -/
  size : UInt64 := 0
  /-- The size of the allocation. -/
  capacity : UInt64 := 0
  /-- The largest size that `reserve` lets the window grow to. -/
  limit : UInt64 := 0xffffffffffffffff
  storage : Storage := .blank
  deriving DecidableEq, Repr

namespace Buffer

/-- An empty buffer without an allocation. -/
def ofLimit (limit : UInt64) : Buffer := { limit := limit }

/-- An empty buffer whose limit is the largest word. -/
def unlimited : Buffer := {}

instance : Inhabited Buffer := ⟨unlimited⟩

/-- The bytes that were read and not yet consumed. -/
def window (b : Buffer) : List UInt8 := b.storage.read b.start.toNat b.size.toNat

/-- The bytes of the allocation that lie behind the window. -/
def room (b : Buffer) : UInt64 := b.capacity - (b.start + b.size)

/-- The capacity of the allocation that takes `n` bytes behind the window: twice the old one, or
more if that is still too small.  Once the old one is more than half of the limit, the new one is the
limit, so that doubling never leaves the machine word. -/
def grownCapacity (b : Buffer) (n : UInt64) : UInt64 :=
  if b.capacity > b.limit / 2 then b.limit else max (b.size + n) (2 * b.capacity)

/-- Where room for more bytes comes from. -/
inductive Placement where
  /-- The room behind the window is large enough. -/
  | behind
  /-- The window moves to the front of the allocation. -/
  | front
  /-- The window moves to a new allocation. -/
  | fresh (capacity : UInt64)
  deriving DecidableEq, Repr

/-- Chooses the room for `n` bytes.  The limit is tested by subtraction, because the sum of the
window's size and `n` need not be a machine word. -/
def placement [Allocator] (b : Buffer) (n : UInt64) : Except Fault Placement :=
  if n > b.limit ∨ b.size > b.limit - n then .error .overLimit
  else if b.room ≥ n then .ok .behind
  else if b.capacity ≥ b.size + n then .ok .front
  else if Allocator.grants (b.grownCapacity n).toNat then .ok (.fresh (b.grownCapacity n))
  else .error .outOfMemory

/-- Moves the window to where the placement puts it.  Bytes that lay outside the window stay behind
when the window moves within its allocation, and are lost with the allocation. -/
def place (b : Buffer) : Placement → Buffer
  | .behind => b
  | .front => { b with start := 0, storage := b.storage.write 0 b.window }
  | .fresh capacity =>
      { b with start := 0, capacity := capacity, storage := .ofList b.window }

/-- The number of bytes that a placement makes the buffer copy. -/
def Placement.moved (b : Buffer) : Placement → Nat
  | .behind => 0
  | .front => b.size.toNat
  | .fresh _ => b.size.toNat

/-- Finds room for `n` bytes behind the window; a request for none counts as one for one. -/
def reserve [Allocator] (b : Buffer) (n : UInt64) : Except Fault (Area × Buffer) := do
  let n := max n 1
  let b := b.place (← b.placement n)
  return (⟨b.start + b.size, n⟩, b)

/-- Writes `bytes` to the front of the area, as many as it takes. -/
def fill (b : Buffer) (area : Area) (bytes : List UInt8) : Buffer :=
  { b with storage := b.storage.write area.offset.toNat (bytes.take area.size.toNat) }

/-- Adds `n` bytes behind the window to it, or all of them where there are fewer. -/
def commit (b : Buffer) (n : UInt64) : Buffer :=
  { b with size := b.size + min n b.room }

/-- An empty window begins at the front of the allocation. -/
def clear (b : Buffer) : Buffer :=
  { b with start := 0, size := 0 }

/-- Drops `n` bytes from the front of the window, or all of them where there are fewer. -/
def discard (b : Buffer) (n : UInt64) : Buffer :=
  if n < b.size then { b with start := b.start + n, size := b.size - n } else b.clear

/-- Drops `n` bytes from the front of the window, which has to hold that many. -/
def consume (b : Buffer) (n : UInt64) : Except Fault Buffer :=
  if n > b.size then .error .pastWindow else .ok (b.discard n)

def setLimit (b : Buffer) (limit : UInt64) : Except Fault Buffer :=
  if limit < b.size then .error .limitBelowSize else .ok { b with limit := limit }

/-- What remains of a buffer whose bytes and allocation were moved to another one. -/
def emptied (b : Buffer) : Buffer :=
  { b with start := 0, size := 0, capacity := 0, storage := .blank }

/-- Reserves room for the bytes, writes them, and commits `n`.  A committed byte that was not written
shows what the allocation held before. -/
def append [Allocator] (b : Buffer) (bytes : List UInt8) (n : UInt64) :
    Except Fault (Area × Buffer) := do
  let (area, b) ← b.reserve bytes.length.toUInt64
  return (area, (b.fill area bytes).commit n)

@[simp]
theorem length_window (b : Buffer) : b.window.length = b.size.toNat := by
  simp [window]

@[simp]
theorem window_ofLimit (limit : UInt64) : (ofLimit limit).window = [] := by
  simp [window, ofLimit]

@[simp]
theorem window_clear (b : Buffer) : b.clear.window = [] := by
  simp [window, clear]

/-- Moving the window leaves its bytes as they are. -/
@[simp]
theorem window_place (b : Buffer) (placement : Placement) :
    (b.place placement).window = b.window := by
  have hlength := b.length_window
  cases placement with
  | behind => rfl
  | front =>
      change (b.storage.write 0 b.window).read 0 b.size.toNat = b.window
      rw [← hlength, Storage.read_write_self]
  | fresh capacity =>
      change (Storage.ofList b.window).read 0 b.size.toNat = b.window
      rw [← hlength, Storage.read_ofList]

@[simp]
theorem size_place (b : Buffer) (placement : Placement) : (b.place placement).size = b.size := by
  cases placement <;> rfl

@[simp]
theorem limit_place (b : Buffer) (placement : Placement) :
    (b.place placement).limit = b.limit := by
  cases placement <;> rfl

@[simp]
theorem limit_emptied (b : Buffer) : b.emptied.limit = b.limit := rfl

/-- A buffer that was moved is as good as new. -/
theorem emptied_eq (b : Buffer) : b.emptied = ofLimit b.limit := rfl

section Reserve

variable [Allocator]

theorem reserve_eq_ok {b b' : Buffer} {n : UInt64} {area : Area}
    (h : b.reserve n = .ok (area, b')) :
    ∃ placement, b.placement (max n 1) = .ok placement ∧ b' = b.place placement ∧
      area = ⟨b'.start + b'.size, max n 1⟩ := by
  rw [reserve] at h
  cases hplacement : b.placement (max n 1) with
  | error fault => simp [hplacement, bind, Except.bind] at h
  | ok placement =>
      simp only [hplacement, bind, Except.bind, pure, Except.pure, Except.ok.injEq,
        Prod.mk.injEq] at h
      obtain ⟨rfl, rfl⟩ := h
      exact ⟨placement, rfl, rfl, rfl⟩

/-- Reserving room does not change the window. -/
theorem window_reserve {b b' : Buffer} {n : UInt64} {area : Area}
    (h : b.reserve n = .ok (area, b')) : b'.window = b.window := by
  obtain ⟨placement, _, rfl, _⟩ := reserve_eq_ok h
  exact window_place b placement

/-- The area is exactly as large as was asked for. -/
theorem size_of_reserve {b b' : Buffer} {n : UInt64} {area : Area}
    (h : b.reserve n = .ok (area, b')) : area.size = max n 1 := by
  obtain ⟨_, _, _, rfl⟩ := reserve_eq_ok h
  rfl

end Reserve

/-- Discarding drops bytes from the front of the window and touches no others. -/
theorem window_discard {b : Buffer} {n : UInt64}
    (hwraps : b.start.toNat + b.size.toNat < 0x1_0000_0000_0000_0000) :
    (b.discard n).window = b.window.drop n.toNat := by
  rw [discard]
  split
  · next hlt =>
    have hlt : n.toNat < b.size.toNat := UInt64.lt_iff_toNat_lt.mp hlt
    change b.storage.read (b.start + n).toNat (b.size - n).toNat = _
    rw [UInt64.toNat_sub_of_le _ _ (UInt64.le_iff_toNat_le.mpr (by omega)), UInt64.toNat_add,
      Nat.mod_eq_of_lt (by omega), window, Storage.drop_read _ (by omega)]
  · next hge =>
    have hge : b.size.toNat ≤ n.toNat := by simpa [UInt64.lt_iff_toNat_lt] using hge
    rw [window_clear, List.drop_of_length_le (by simpa using hge)]

theorem consume_eq_ok_iff {b b' : Buffer} {n : UInt64} :
    b.consume n = .ok b' ↔ n ≤ b.size ∧ b' = b.discard n := by
  rw [consume]
  split
  · next hgt =>
    have hgt : ¬ n ≤ b.size := UInt64.not_le.mpr hgt
    simp [hgt]
  · next hle =>
    have hle : n ≤ b.size := UInt64.not_lt.mp hle
    simp [hle, eq_comm]

theorem consume_eq_error_iff {b : Buffer} {n : UInt64} {fault : Fault} :
    b.consume n = .error fault ↔ b.size < n ∧ fault = .pastWindow := by
  rw [consume]
  split
  · next hgt => simp [hgt, eq_comm]
  · next hle => simp [hle]

end Buffer

end StreamParse
