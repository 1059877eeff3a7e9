import StreamParse.Proofs.Turn

/-!
# Buffers as byte queues

A byte queue has bytes, a capacity and a limit, and nothing else: no place where the bytes begin, and
no memory behind them.  A buffer answers every history of commands as the byte queue does that has its
window, its capacity and its limit, whichever of its placements makes room and whichever allocations
are granted.  So where the window lies in its allocation, and what the allocation holds besides, is
never seen.

A commit takes bytes that were written into the room that was found.  Which bytes these are the user
of a queue knows, and the queue does not, so they are kept beside it.
-/

namespace StreamParse

open Buffer (Command)

/-- All that can be seen after a command. -/
structure Observation where
  answer : Except Fault (Option UInt64)
  window : List UInt8
  size : Nat
  capacity : Nat
  limit : Nat

structure ByteQueue where
  bytes : List UInt8 := []
  capacity : Nat := 0
  limit : Nat
  deriving DecidableEq, Repr

namespace ByteQueue

/-- The capacity that takes `n` more bytes. -/
def grown (queue : ByteQueue) (n : Nat) : Nat :=
  if queue.limit / 2 < queue.capacity then queue.limit
  else max (queue.bytes.length + n) (2 * queue.capacity)

/-- Finds room for `n` bytes, or for one where `n` is zero.  The bytes stay as they are. -/
def reserve [Allocator] (queue : ByteQueue) (n : Nat) : Except Fault ByteQueue :=
  if queue.limit < queue.bytes.length + max n 1 then .error .overLimit
  else if queue.bytes.length + max n 1 ≤ queue.capacity then .ok queue
  else if Allocator.grants (queue.grown (max n 1)) then
    .ok { queue with capacity := queue.grown (max n 1) }
  else .error .outOfMemory

/-- Takes in `n` of the bytes that were written. -/
def take (queue : ByteQueue) (written : List UInt8) (n : UInt64) : ByteQueue :=
  { queue with bytes := queue.bytes ++ written.take n.toNat }

/-- What a command attempts when these bytes are written and not yet committed. -/
def perform [Allocator] (queue : ByteQueue) (written : List UInt8) :
    Command → Except Fault (Option UInt64 × ByteQueue)
  | .reserve n _ => do return (some (max n 1), ← queue.reserve n.toNat)
  | .append bytes n => do
      return (some (max bytes.length.toUInt64 1), (← queue.reserve bytes.length).take bytes n)
  | .commit n => .ok (none, queue.take written n)
  | .consume n =>
      if queue.bytes.length < n.toNat then .error .pastWindow
      else .ok (none, { queue with bytes := queue.bytes.drop n.toNat })
  | .setLimit limit =>
      if limit.toNat < queue.bytes.length then .error .limitBelowSize
      else .ok (none, { queue with limit := limit.toNat })
  | .clear => .ok (none, { queue with bytes := [] })

/-- What is left of the written bytes behind a command.  A limit may be set between finding room and
committing; the room is lost when bytes leave the queue. -/
def left (written : List UInt8) : Command → List UInt8
  | .reserve _ bytes => bytes
  | .append bytes n => bytes.drop n.toNat
  | .commit n => written.drop n.toNat
  | .setLimit _ => written
  | .consume _ => []
  | .clear => []

/-- No more is written than there is room for, and no more is committed than was written. -/
def Honest (written : List UInt8) : Command → Prop
  | .reserve n bytes => bytes.length ≤ max n.toNat 1
  | .append bytes n => bytes.length < UInt64.size ∧ n.toNat ≤ bytes.length
  | .commit n => n.toNat ≤ written.length
  | _ => True

instance (written : List UInt8) (command : Command) : Decidable (Honest written command) := by
  cases command <;> unfold Honest <;> infer_instance

/-- A byte queue in use. -/
structure InUse where
  queue : ByteQueue
  /-- What was written into the room behind the bytes and is not yet committed. -/
  written : List UInt8 := []

namespace InUse

/-- A new queue under a limit. -/
def ofLimit (limit : Nat) : InUse := { queue := { limit } }

/-- The answer of a command, and what the queue is then.  A command that is refused changes nothing. -/
def step [Allocator] (use : InUse) (command : Command) :
    Except Fault (Option UInt64) × InUse :=
  match use.queue.perform use.written command with
  | .ok (answer, queue) => (.ok answer, { queue, written := left use.written command })
  | .error fault => (.error fault, use)

/-- Every command of a history is honest. -/
def Honest (use : InUse) : List (Allocator × Command) → Prop
  | [] => True
  | (allocator, command) :: calls =>
      ByteQueue.Honest use.written command ∧ (@step allocator use command).2.Honest calls

instance decidableHonest (use : InUse) :
    (calls : List (Allocator × Command)) → Decidable (use.Honest calls)
  | [] => .isTrue trivial
  | (allocator, command) :: calls =>
      have := decidableHonest (@step allocator use command).2 calls
      inferInstanceAs (Decidable (_ ∧ _))

def observe (served : Except Fault (Option UInt64) × InUse) : Observation where
  answer := served.1
  window := served.2.queue.bytes
  size := served.2.queue.bytes.length
  capacity := served.2.queue.capacity
  limit := served.2.queue.limit

/-- What is seen of a queue through a history of commands, each with the allocator that it meets. -/
def observations (use : InUse) : List (Allocator × Command) → List Observation
  | [] => []
  | (allocator, command) :: calls =>
      observe (@step allocator use command) :: (@step allocator use command).2.observations calls

end InUse

end ByteQueue

namespace Buffer

def observe (served : Except Fault (Option UInt64) × Buffer) : Observation where
  answer := served.1
  window := served.2.window
  size := served.2.size.toNat
  capacity := served.2.capacity.toNat
  limit := served.2.limit.toNat

/-- What is seen of a buffer through a history of commands, each with the allocator that it meets. -/
def observations (b : Buffer) : List (Allocator × Command) → List Observation
  | [] => []
  | (allocator, command) :: calls =>
      observe (@step allocator b command) :: (@step allocator b command).2.observations calls

/-- What remains of a buffer when its storage is left aside. -/
def queue (b : Buffer) : ByteQueue where
  bytes := b.window
  capacity := b.capacity.toNat
  limit := b.limit.toNat

/-! ## Finding room -/

theorem toNat_grownCapacity {b : Buffer} {n : UInt64}
    (hlimit : b.size.toNat + n.toNat ≤ b.limit.toNat) :
    (b.grownCapacity n).toNat = b.queue.grown n.toNat := by
  rw [grownCapacity_eq hlimit, ByteQueue.grown, ← length_window]
  rfl

/-- The limit is tested without leaving the machine word. -/
theorem overLimit_iff {b : Buffer} {n : UInt64} :
    (n > b.limit ∨ b.size > b.limit - n) ↔ b.limit.toNat < b.size.toNat + n.toNat := by
  have hn : n > b.limit ↔ b.limit.toNat < n.toNat := UInt64.lt_iff_toNat_lt
  have hsize : b.size > b.limit - n ↔ (b.limit - n).toNat < b.size.toNat :=
    UInt64.lt_iff_toNat_lt
  rw [hn, hsize]
  by_cases hfits : n.toNat ≤ b.limit.toNat
  · rw [Word.toNat_sub hfits]
    omega
  · omega

/-- The choice of a placement, in numbers. -/
theorem placement_eq [Allocator] (b : Buffer) (n : UInt64) :
    b.placement n =
      if b.limit.toNat < b.size.toNat + n.toNat then .error .overLimit
      else if n ≤ b.room then .ok .behind
      else if b.size.toNat + n.toNat ≤ b.capacity.toNat then .ok .front
      else if Allocator.grants (b.queue.grown n.toNat) then .ok (.fresh (b.grownCapacity n))
      else .error .outOfMemory := by
  have hbound := b.limit.toNat_lt
  rw [placement]
  by_cases hlimit : b.limit.toNat < b.size.toNat + n.toNat
  · rw [if_pos hlimit, if_pos (overLimit_iff.mpr hlimit)]
  · have hfront : b.size + n ≤ b.capacity ↔ b.size.toNat + n.toNat ≤ b.capacity.toNat := by
      rw [UInt64.le_iff_toNat_le, Word.toNat_add (by omega)]
    have hgrown := toNat_grownCapacity (Nat.le_of_not_lt hlimit)
    rw [if_neg hlimit, if_neg (mt overLimit_iff.mp hlimit)]
    simp only [ge_iff_le, hfront, ← hgrown]

/-- Making room changes no more than the capacity. -/
theorem queue_place (b : Buffer) (placement : Placement) :
    (b.place placement).queue =
      { b.queue with capacity := (b.place placement).capacity.toNat } := by
  rw [queue, queue, window_place, limit_place]

/-- Room is found, or refused, as the byte queue finds it. -/
theorem queue_reserve [Allocator] {b : Buffer} (valid : b.Valid) (n : UInt64) :
    b.queue.reserve n.toNat = (b.reserve n).map fun found => found.2.queue := by
  have hn : (max n 1).toNat = max n.toNat 1 := Word.toNat_max n 1
  have hsize : b.queue.bytes.length = b.size.toNat := b.length_window
  rw [reserve, ByteQueue.reserve, placement_eq, ← hn, hsize]
  change (if b.limit.toNat < b.size.toNat + (max n 1).toNat then _ else
    if b.size.toNat + (max n 1).toNat ≤ b.capacity.toNat then _ else _) = _
  by_cases hlimit : b.limit.toNat < b.size.toNat + (max n 1).toNat
  · rw [if_pos hlimit, if_pos hlimit]
    rfl
  rw [if_neg hlimit, if_neg hlimit]
  by_cases hroom : max n 1 ≤ b.room
  · -- What fits behind the window fits into the allocation.
    have hfits : b.size.toNat + (max n 1).toNat ≤ b.capacity.toNat := by
      have hroom := UInt64.le_iff_toNat_le.mp hroom
      have hwindow := valid.fits
      rw [valid.toNat_room] at hroom
      omega
    rw [if_pos hroom, if_pos hfits]
    rfl
  rw [if_neg hroom]
  by_cases hfront : b.size.toNat + (max n 1).toNat ≤ b.capacity.toNat
  · rw [if_pos hfront, if_pos hfront]
    exact congrArg Except.ok (b.queue_place .front).symm
  rw [if_neg hfront, if_neg hfront]
  by_cases hgranted : Allocator.grants (b.queue.grown (max n 1).toNat)
  · rw [if_pos hgranted, if_pos hgranted]
    rw [← toNat_grownCapacity (Nat.le_of_not_lt hlimit)]
    exact congrArg Except.ok (b.queue_place (.fresh (b.grownCapacity (max n 1)))).symm
  · rw [if_neg hgranted, if_neg hgranted]
    rfl

/-! ## Committing what was written -/

/-- The allocation holds these bytes right behind the window. -/
structure Written (b : Buffer) (bytes : List UInt8) : Prop where
  fits : b.start.toNat + b.size.toNat + bytes.length ≤ b.capacity.toNat
  stored : b.storage.read (b.start.toNat + b.size.toNat) bytes.length = bytes

/-- What is written into room that was found lies right behind the window. -/
theorem Valid.written [Allocator] {b b' : Buffer} {n : UInt64} {area : Area} {bytes : List UInt8}
    (valid : b.Valid) (h : b.reserve n = .ok (area, b'))
    (hbytes : bytes.length ≤ (max n 1).toNat) : (b'.fill area bytes).Written bytes := by
  obtain ⟨_, hoffset, harea⟩ := valid.reserve h
  rw [← size_of_reserve h] at hbytes
  refine ⟨?_, ?_⟩
  · change b'.start.toNat + b'.size.toNat + bytes.length ≤ b'.capacity.toNat
    omega
  · change (b'.storage.write area.offset.toNat (bytes.take area.size.toNat)).read
      (b'.start.toNat + b'.size.toNat) bytes.length = bytes
    rw [List.take_of_length_le hbytes, hoffset, Storage.read_write_self]

theorem Valid.written_nil {b : Buffer} (valid : b.Valid) : b.Written [] where
  fits := valid.fits
  stored := List.eq_nil_of_length_eq_zero (b.storage.length_read _ 0)

/-- A commit takes the front of what was written into the window, and leaves the rest written. -/
theorem Written.commit {b : Buffer} {bytes : List UInt8} {count : UInt64} (valid : b.Valid)
    (written : b.Written bytes) (hcount : count.toNat ≤ bytes.length) :
    (b.commit count).queue = b.queue.take bytes count ∧
      (b.commit count).Written (bytes.drop count.toNat) := by
  have hfits := written.fits
  have hroom := valid.toNat_room
  have hsize : (b.commit count).size.toNat = b.size.toNat + count.toNat := by
    rw [valid.toNat_size_commit]
    omega
  have hstored := written.stored
  constructor
  · have hwindow : (b.commit count).window = b.window ++ bytes.take count.toNat := by
      change b.storage.read b.start.toNat (b.commit count).size.toNat = _
      rw [hsize, Storage.read_add, ← Storage.take_read b.storage hcount, hstored]
      rfl
    change ByteQueue.mk (b.commit count).window _ _ = _
    rw [hwindow]
    rfl
  · refine ⟨?_, ?_⟩
    · change b.start.toNat + (b.commit count).size.toNat + _ ≤ b.capacity.toNat
      rw [hsize, List.length_drop]
      omega
    · change b.storage.read (b.start.toNat + (b.commit count).size.toNat) _ = _
      rw [hsize, List.length_drop, ← Nat.add_assoc, ← Storage.drop_read b.storage hcount, hstored]

/-- Bytes that are written into room behind the window are not seen. -/
theorem queue_fill {b : Buffer} {area : Area}
    (hoffset : area.offset.toNat = b.start.toNat + b.size.toNat) (bytes : List UInt8) :
    (b.fill area bytes).queue = b.queue := by
  have hwindow : (b.fill area bytes).window = b.window := by
    change (b.storage.write area.offset.toNat _).read b.start.toNat b.size.toNat = _
    rw [Storage.read_write_of_le (Nat.le_of_eq hoffset.symm)]
    rfl
  rw [queue, hwindow]
  rfl

theorem Valid.queue_discard {b : Buffer} (valid : b.Valid) (n : UInt64) :
    (b.discard n).queue = { b.queue with bytes := b.queue.bytes.drop n.toNat } := by
  have hcapacity : (b.discard n).capacity = b.capacity := by
    rw [Buffer.discard]
    split <;> rfl
  rw [queue, valid.window_discard, limit_discard, hcapacity]
  rfl

/-! ## One command -/

section Commands

variable [Allocator] {b : Buffer} {bytes : List UInt8} {command : Command}

/-- A buffer answers an honest command as its byte queue does, and has the bytes, the capacity and the
limit of the byte queue behind it. -/
theorem queue_perform (valid : b.Valid) (written : b.Written bytes)
    (honest : ByteQueue.Honest bytes command) :
    ((b.perform command).map fun found => (found.1, found.2.queue)) =
      b.queue.perform bytes command := by
  have hsize : b.queue.bytes.length = b.size.toNat := b.length_window
  cases command with
  | reserve n bytes =>
      rw [perform, ByteQueue.perform, queue_reserve valid]
      cases hreserve : b.reserve n with
      | error fault => rfl
      | ok found =>
          change Except.ok (some found.1.size, (found.2.fill found.1 bytes).queue) = _
          rw [queue_fill (valid.reserve hreserve).2.1, size_of_reserve hreserve]
          rfl
  | append bytes n =>
      have hlength : bytes.length.toUInt64.toNat = bytes.length := Word.toNat_ofNat honest.1
      have hreserves := queue_reserve valid bytes.length.toUInt64
      rw [hlength] at hreserves
      rw [perform, ByteQueue.perform, append, hreserves]
      cases hreserve : b.reserve bytes.length.toUInt64 with
      | error fault => rfl
      | ok found =>
          have fits : bytes.length ≤ (max bytes.length.toUInt64 1).toNat := by
            rw [Word.toNat_max, hlength]
            exact Nat.le_max_left _ _
          have filled := (valid.reserve hreserve).1.fill found.1 bytes
          change Except.ok (some found.1.size, ((found.2.fill found.1 bytes).commit n).queue) = _
          rw [((valid.written hreserve fits).commit filled honest.2).1,
            queue_fill (valid.reserve hreserve).2.1, size_of_reserve hreserve]
          rfl
  | commit n =>
      exact congrArg (fun queue => Except.ok (none, queue)) (written.commit valid honest).1
  | consume n =>
      rw [perform, ByteQueue.perform, consume, hsize]
      by_cases hpast : b.size.toNat < n.toNat
      · rw [if_pos hpast, if_pos (UInt64.lt_iff_toNat_lt.mpr hpast)]
        rfl
      · rw [if_neg hpast, if_neg (mt UInt64.lt_iff_toNat_lt.mp hpast)]
        exact congrArg (fun queue => Except.ok (none, queue)) (valid.queue_discard n)
  | setLimit limit =>
      rw [perform, ByteQueue.perform, Buffer.setLimit, hsize]
      by_cases hbelow : limit.toNat < b.size.toNat
      · rw [if_pos hbelow, if_pos (UInt64.lt_iff_toNat_lt.mpr hbelow)]
        rfl
      · rw [if_neg hbelow, if_neg (mt UInt64.lt_iff_toNat_lt.mp hbelow)]
        rfl
  | clear =>
      change Except.ok (none, b.clear.queue) = _
      rw [queue, window_clear]
      rfl

/-- What is left of the written bytes stays where it was written. -/
theorem Written.perform {b' : Buffer} {answer : Option UInt64} (written : b.Written bytes)
    (valid : b.Valid) (honest : ByteQueue.Honest bytes command)
    (h : b.perform command = .ok (answer, b')) : b'.Written (ByteQueue.left bytes command) := by
  cases command with
  | reserve n bytes =>
      rw [Buffer.perform] at h
      cases hreserve : b.reserve n with
      | error fault =>
          rw [hreserve] at h
          cases h
      | ok found =>
          rw [hreserve] at h
          cases h
          exact valid.written hreserve (by rw [Word.toNat_max]; exact honest)
  | append bytes n =>
      rw [Buffer.perform, Buffer.append] at h
      cases hreserve : b.reserve bytes.length.toUInt64 with
      | error fault =>
          rw [hreserve] at h
          cases h
      | ok found =>
          rw [hreserve] at h
          cases h
          have fits : bytes.length ≤ (max bytes.length.toUInt64 1).toNat := by
            rw [Word.toNat_max, Word.toNat_ofNat honest.1]
            exact Nat.le_max_left _ _
          have filled := (valid.reserve hreserve).1.fill found.1 bytes
          exact ((valid.written hreserve fits).commit filled honest.2).2
  | commit n =>
      cases h
      exact (written.commit valid honest).2
  | consume n =>
      have consumed := valid.perform h
      exact consumed.written_nil
  | setLimit limit =>
      rw [Buffer.perform, Buffer.setLimit] at h
      split at h <;> cases h
      exact ⟨written.fits, written.stored⟩
  | clear =>
      cases h
      exact (valid_clear b).written_nil

/-- A buffer holds what a byte queue in use holds. -/
structure Holds (b : Buffer) (use : ByteQueue.InUse) : Prop where
  valid : b.Valid
  queue : b.queue = use.queue
  written : b.Written use.written

/-- A command is answered alike, and what is held behind it is the same again. -/
theorem Holds.step {use : ByteQueue.InUse} (holds : b.Holds use)
    (honest : ByteQueue.Honest use.written command) :
    (b.step command).1 = (use.step command).1 ∧
      (b.step command).2.Holds (use.step command).2 := by
  have hqueue := queue_perform holds.valid holds.written honest
  rw [holds.queue] at hqueue
  rw [ByteQueue.InUse.step, ← hqueue]
  cases hperform : b.perform command with
  | error fault =>
      rw [step_of_error hperform]
      exact ⟨rfl, holds⟩
  | ok found =>
      rw [step_of_ok hperform]
      exact ⟨rfl, holds.valid.perform hperform, rfl,
        holds.written.perform holds.valid honest hperform⟩

end Commands

/-! ## Every history -/

theorem observe_eq {served : Except Fault (Option UInt64) × Buffer}
    {served' : Except Fault (Option UInt64) × ByteQueue.InUse} (hanswer : served.1 = served'.1)
    (holds : served.2.Holds served'.2) : observe served = ByteQueue.InUse.observe served' := by
  have hsize : served'.2.queue.bytes.length = served.2.size.toNat := by
    rw [← holds.queue]
    exact served.2.length_window
  rw [observe, ByteQueue.InUse.observe, hanswer, hsize, ← holds.queue]
  rfl

/-- Through every honest history nothing is seen of a buffer but its byte queue. -/
theorem Holds.observations {b : Buffer} {use : ByteQueue.InUse} (holds : b.Holds use)
    {calls : List (Allocator × Command)} (honest : use.Honest calls) :
    b.observations calls = use.observations calls := by
  induction calls generalizing b use with
  | nil => rfl
  | cons call calls ih =>
      obtain ⟨allocator, command⟩ := call
      obtain ⟨hanswer, holds'⟩ := holds.step honest.1
      rw [Buffer.observations, ByteQueue.InUse.observations, observe_eq hanswer holds',
        ih holds' honest.2]

/-- The byte queue of a buffer into whose room nothing is written yet. -/
def inUse (b : Buffer) : ByteQueue.InUse := { queue := b.queue }

theorem Valid.holds {b : Buffer} (valid : b.Valid) : b.Holds b.inUse where
  valid := valid
  queue := rfl
  written := valid.written_nil

theorem inUse_ofLimit (limit : UInt64) :
    (ofLimit limit).inUse = ByteQueue.InUse.ofLimit limit.toNat := by
  rw [inUse, queue, window_ofLimit]
  rfl

/-- Through every honest history a new buffer, under whatever limit, is seen to be a byte queue.  So
is every buffer in order, and two of them with the same window, capacity and limit are seen to be the
same.  Each command of the history may meet another allocator. -/
theorem observations_eq_queue (calls : List (Allocator × Command)) :
    (∀ limit : UInt64, (ByteQueue.InUse.ofLimit limit.toNat).Honest calls →
      (ofLimit limit).observations calls =
        (ByteQueue.InUse.ofLimit limit.toNat).observations calls) ∧
    ((ByteQueue.InUse.ofLimit (UInt64.size - 1)).Honest calls →
      unlimited.observations calls =
        (ByteQueue.InUse.ofLimit (UInt64.size - 1)).observations calls) ∧
    (∀ b : Buffer, b.Valid → b.inUse.Honest calls →
      b.observations calls = b.inUse.observations calls) ∧
    ∀ left right : Buffer, left.Valid → right.Valid → left.window = right.window →
      left.capacity = right.capacity → left.limit = right.limit → left.inUse.Honest calls →
      left.observations calls = right.observations calls := by
  refine ⟨fun limit honest => ?_, fun honest => ?_, fun b valid honest => ?_, ?_⟩
  · rw [← inUse_ofLimit] at honest ⊢
    exact (valid_ofLimit limit).holds.observations honest
  · exact valid_unlimited.holds.observations honest
  · exact valid.holds.observations honest
  · intro left right hleft hright hwindow hcapacity hlimit honest
    have hsame : left.inUse = right.inUse := by
      rw [inUse, inUse, queue, queue, hwindow, hcapacity, hlimit]
    rw [hleft.holds.observations honest, hsame]
    rw [hsame] at honest
    exact (hright.holds.observations honest).symm

/-- Commands that find room behind the window, at the front of the allocation and in a new one, with
limits that are set before what was written is committed, and commands that are refused. -/
def throughAllPlacements : List (Allocator × Command) :=
  [.reserve 4 [1, 2, 3, 4], .setLimit 8, .commit 2, .commit 2, .consume 3, .append [5, 6] 1,
    .reserve 5 [7, 8], .setLimit 3, .commit 1, .reserve 5 [9], .consume 9, .setLimit 1, .clear,
    .setLimit 3, .reserve 0 []].map fun command => (.ample, command)

theorem throughAllPlacements_seen_as_queue :
    (ByteQueue.InUse.ofLimit 8).Honest throughAllPlacements ∧
      (ofLimit 8).observations throughAllPlacements =
        (ByteQueue.InUse.ofLimit 8).observations throughAllPlacements ∧
      unlimited.observations [(⟨fun _ => false⟩, .reserve 1 [1]), (.ample, .append [2] 1)] =
        (ByteQueue.InUse.ofLimit (UInt64.size - 1)).observations
          [(⟨fun _ => false⟩, .reserve 1 [1]), (.ample, .append [2] 1)] := by
  have honest : (ByteQueue.InUse.ofLimit 8).Honest throughAllPlacements := by decide
  exact ⟨honest, (observations_eq_queue throughAllPlacements).1 8 honest,
    (observations_eq_queue _).2.1 (by decide)⟩

/-- Room that the limit allows is refused where the allocation for it is not to be had. -/
theorem unlimited_lacks_memory :
    (ByteQueue.InUse.ofLimit (UInt64.size - 1)).Honest
        [(.ample, .reserve 0x2000000000000000 [])] ∧
      unlimited.window.length + max 0x2000000000000000 1 ≤ unlimited.limit.toNat ∧
      (unlimited.observations [(.ample, .reserve 0x2000000000000000 [])]).map Observation.answer =
        [.error .outOfMemory] ∧
      unlimited.observations [(.ample, .reserve 0x2000000000000000 [])] ≠
        (ByteQueue.InUse.ofLimit (UInt64.size - 1)).observations
          [(⟨fun _ => true⟩, .reserve 0x2000000000000000 [])] := by
  refine ⟨by decide, by decide, rfl, fun heq => ?_⟩
  have hanswers := congrArg (List.map Observation.answer) heq
  exact absurd hanswers nofun

end Buffer

end StreamParse
