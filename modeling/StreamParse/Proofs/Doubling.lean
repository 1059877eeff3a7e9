import Mathlib.Order.Bounds.Defs
import StreamParse.Proofs.Allocation
import StreamParse.Proofs.Growth
import StreamParse.Proofs.Parser.Sized

/-!
# How a long value is reached

A parser that knows what it is missing says so at each look, and a large hint reaches no further
than the capacity.  A parse that begins with an empty buffer therefore fills the allocation with each
read and doubles it for the next, until what is missing fits into one more read.  So the number of
reads is logarithmic in the length of the value.

The hint, the reach of the hint and the capacity all change from read to read.  What they have in
common is that the window is as large as the allocation before each read, and how large that is
after so many reads is known.
-/

namespace StreamParse

/-- The size of the allocation when so many reads have filled it. -/
def brim (base : Nat) : (reads : Nat) → Nat
  | 0 => 0
  | reads + 1 => base * 2 ^ reads

/-- The first read brings the base size, and each further read as much as there is. -/
theorem brim_succ (base reads : Nat) :
    brim base (reads + 1) = brim base reads + max base (brim base reads) := by
  cases reads with
  | zero => simp [brim]
  | succ reads =>
      have hbase : base ≤ base * 2 ^ reads := Nat.le_mul_of_pos_right base (Nat.two_pow_pos reads)
      change base * 2 ^ (reads + 1) = base * 2 ^ reads + max base (base * 2 ^ reads)
      rw [Nat.pow_succ, ← Nat.mul_assoc, Nat.max_eq_right hbase, Nat.mul_two]

theorem baseSize_pos (readSize : UInt64) : 0 < baseSize readSize :=
  Nat.lt_of_lt_of_le (by decide) (Nat.le_max_right _ _)

namespace Source

/-- A source of one chunk that cuts no read short. -/
structure Whole (source : Source) (chunk : List UInt8) : Prop where
  chunks : source.chunks = [chunk]
  cap : source.cap = none
  injections : source.injections = []

variable {source : Source} {chunk : List UInt8}

/-- A read takes what there is room for. -/
theorem Whole.delivery (whole : source.Whole chunk) (room : Nat) :
    (source.read room).1 = { bytes := chunk.take room } := by
  have hnone : source.injection? (source.reads + 1) = none := by
    rw [injection?, whole.injections]
    rfl
  rw [read_of_none room hnone, draw]
  simp only [whole.chunks, allowance, whole.cap]

/-- While there is no room for all of the chunk, the rest of it stays. -/
theorem Whole.read (whole : source.Whole chunk) {room : Nat} (hroom : room < chunk.length) :
    (source.read room).2.Whole (chunk.drop room) where
  chunks := by
    have hnone : source.injection? (source.reads + 1) = none := by
      rw [injection?, whole.injections]
      rfl
    have hleft : (chunk.drop room).isEmpty = false := by
      rw [← Bool.not_eq_true, List.isEmpty_iff, List.drop_eq_nil_iff]
      exact Nat.not_le.mpr hroom
    rw [read_of_none room hnone, draw]
    simp [whole.chunks, allowance, whole.cap, hleft]
  cap := by rw [cap_read, whole.cap]
  injections := by rw [injections_read, whole.injections]

end Source

namespace Buffer

/-- A buffer that so many reads have filled, each to the last byte of its allocation. -/
structure Brimming (readSize : UInt64) (reads : Nat) (b : Buffer) : Prop where
  filling : b.Filling
  full : b.size = b.capacity
  size : b.size.toNat = brim (baseSize readSize) reads
  obtained : b.capacity.toNat < Allocator.unobtainable

variable {ν ε : Type} {b : Buffer} {readSize : UInt64} {reads missing : Nat}

/-- There is nothing to allocate, or the allocation is as large as a read may ask for whatever was
received. -/
theorem Brimming.reaches (brimming : b.Brimming readSize reads) :
    b.size = 0 ∨ baseSize readSize ≤ b.size.toNat := by
  cases reads with
  | zero => exact .inl (UInt64.toNat_inj.mp brimming.size)
  | succ reads =>
      right
      rw [brimming.size]
      exact Nat.le_mul_of_pos_right _ (Nat.two_pow_pos reads)

/-- The size when one more read has filled the allocation. -/
theorem Brimming.brim_succ (brimming : b.Brimming readSize reads) :
    brim (baseSize readSize) (reads + 1) =
      b.size.toNat + max (baseSize readSize) b.size.toNat := by
  rw [StreamParse.brim_succ, brimming.size]

theorem Brimming.size_lt (brimming : b.Brimming readSize reads) : b.size.toNat < 2 ^ 60 := by
  rw [brimming.full]
  exact brimming.obtained

theorem Brimming.toNat_limit (brimming : b.Brimming readSize reads) :
    b.limit.toNat = 2 ^ 64 - 1 := by
  rw [brimming.filling.limit]
  rfl

/-- The limit never cuts down what a read asks for. -/
theorem Brimming.toNat_nextRead (brimming : b.Brimming readSize reads) (missing : Nat) :
    (b.nextRead (some missing) readSize).toNat =
      max readSize.toNat (min missing (max (baseSize readSize) b.size.toNat)) := by
  have happetite := b.appetite_some missing readSize
  have hword := (b.appetite (some missing) readSize).toNat_lt
  have hbase : readSize.toNat ≤ baseSize readSize := Nat.le_max_left _ _
  have hsize := brimming.size_lt
  have hlimit := brimming.toNat_limit
  rw [← brimming.full] at happetite
  rw [nextRead, headroom, Word.toNat_min, Word.toNat_sub (by omega), happetite]
  rcases brimming.reaches with hempty | hreached
  · have hzero : b.size.toNat = 0 := congrArg UInt64.toNat hempty
    omega
  · omega

theorem Brimming.nextRead_pos (brimming : b.Brimming readSize reads) (hread : readSize ≠ 0)
    (missing : Nat) : 0 < (b.nextRead (some missing) readSize).toNat := by
  have hpos : readSize.toNat ≠ 0 := fun hzero => hread (UInt64.toNat_inj.mp hzero)
  rw [brimming.toNat_nextRead]
  omega

/-- Room for the next read takes a new allocation, which one more read fills at most.  It is found
unless an allocation of that size is more than a machine grants. -/
theorem Brimming.obtains (brimming : b.Brimming readSize reads) (hread : readSize ≠ 0)
    (missing : Nat) :
    (∃ area next, b.reserve (b.nextRead (some missing) readSize) = .ok (area, next) ∧
      b.Provides (b.nextRead (some missing) readSize).toNat area next) ∨
    (b.reserve (b.nextRead (some missing) readSize) = .error .outOfMemory ∧
      Allocator.unobtainable ≤ brim (baseSize readSize) (reads + 1)) := by
  have hpos := brimming.nextRead_pos hread missing
  have hamount := brimming.toNat_nextRead missing
  have hsize := brimming.size_lt
  have hwithin : b.size.toNat ≤ b.limit.toNat := by
    rw [brimming.toNat_limit]
    omega
  have hlimit := b.size_add_nextRead_le (some missing) readSize hwithin
  rcases brimming.filling.valid.provides_or_refused hpos hlimit with
    hprovided | ⟨_, hrefused, hreserve⟩
  · exact .inl hprovided
  · refine .inr ⟨hreserve, ?_⟩
    have hcapacity : b.capacity.toNat = b.size.toNat := by rw [brimming.full]
    have hbase : readSize.toNat ≤ baseSize readSize := Nat.le_max_left _ _
    rw [Allocator.grants, Allocator.ample, decide_eq_true_iff, prescribed] at hrefused
    rw [brimming.brim_succ]
    omega

/-- What was obtained stays obtainable: a new allocation is one that was granted. -/
theorem obtained_reserve {next : Buffer} {n : UInt64} {area : Area}
    (hobtained : b.capacity.toNat < Allocator.unobtainable)
    (hreserve : b.reserve n = .ok (area, next)) :
    next.capacity.toNat < Allocator.unobtainable := by
  obtain ⟨placement, hplacement, rfl, rfl⟩ := reserve_eq_ok hreserve
  obtain ⟨_, hplaced⟩ := placement_eq_ok hplacement
  cases placement with
  | behind | front => exact hobtained
  | fresh capacity => exact of_decide_eq_true hplaced.2

/-- Where more is missing than a hint reaches, the next read asks for as much as it reaches, and is
given an allocation of just that and the window. -/
theorem Brimming.doubles (brimming : b.Brimming readSize reads)
    (hmissing : max (baseSize readSize) b.size.toNat ≤ missing) {area : Area} {next : Buffer}
    (provides : b.Provides (b.nextRead (some missing) readSize).toNat area next) :
    area.size.toNat = max (baseSize readSize) b.size.toNat ∧
      next.capacity.toNat = brim (baseSize readSize) (reads + 1) := by
  have hbase : readSize.toNat ≤ baseSize readSize := Nat.le_max_left _ _
  have hpos := baseSize_pos readSize
  have hword : baseSize readSize < 2 ^ 64 :=
    Nat.max_lt.mpr ⟨readSize.toNat_lt, defaultReadSize.toNat_lt⟩
  have hamount : (b.nextRead (some missing) readSize).toNat =
      max (baseSize readSize) b.size.toNat := by
    rw [brimming.toNat_nextRead]
    omega
  have hcapacity : b.capacity.toNat = b.size.toNat := by rw [brimming.full]
  have hsize := brimming.size_lt
  have hlimit := brimming.toNat_limit
  have hgrown := (provides.fresh (by omega)).1
  refine ⟨provides.offered.trans hamount, ?_⟩
  rw [hgrown, prescribed, hamount, brimming.brim_succ]
  rcases brimming.reaches with hempty | hreached
  · have hzero : b.size.toNat = 0 := congrArg UInt64.toNat hempty
    omega
  · omega

end Buffer

namespace Event

variable {ν ε : Type}

/-- The parser is shown the window of this buffer when so many reads are done. -/
def ShownAfter (transcript : List (Event ν ε)) (reads : Nat) (buffer : Buffer) : Prop :=
  ∃ before outcome after, transcript = before ++ .look buffer outcome :: after ∧
    (deliveries before).length = reads

theorem shownAfter_zero (buffer : Buffer) (outcome : Outcome ν ε) (after : List (Event ν ε)) :
    ShownAfter (.look buffer outcome :: after) 0 buffer :=
  ⟨[], outcome, after, rfl, rfl⟩

/-- What is shown later comes after one read more. -/
theorem ShownAfter.cons {transcript : List (Event ν ε)} {reads : Nat} {buffer : Buffer}
    (hshown : ShownAfter transcript reads buffer) (first : Buffer) (outcome : Outcome ν ε)
    (delivery : Delivery) :
    ShownAfter (.look first outcome :: .read delivery :: transcript) (reads + 1) buffer := by
  obtain ⟨before, outcome', after, rfl, rfl⟩ := hshown
  exact ⟨.look first outcome :: .read delivery :: before, outcome', after, rfl, rfl⟩

end Event

namespace Feed

variable {readSize : UInt64} {length : Nat} {chunk : List UInt8}

/-- What a parse of so many bytes comes to. -/
abbrev FixedRun := Run (List UInt8) BadByte (Except Fault (Result (List UInt8) BadByte))

/-- A parse of so many bytes at the front of a chunk that goes on after so many reads: it comes to
its value after the least number of reads that reach the length, and each look before that finds a
full allocation. -/
structure Doubles (readSize : UInt64) (length : Nat) (chunk : List UInt8) (reads : Nat)
    (run : FixedRun) : Prop where
  answer : run.answer = some (.ok (.value (chunk.take length)))
  least : IsLeast { enough | reads < enough ∧ length ≤ brim (baseSize readSize) enough }
    (reads + (Event.deliveries run.transcript).length)
  full : ∀ further, further < (Event.deliveries run.transcript).length →
    ∃ buffer, Event.ShownAfter run.transcript further buffer ∧
      buffer.window = chunk.take (brim (baseSize readSize) (reads + further)) ∧
      buffer.Brimming readSize (reads + further)

theorem Doubles.obtained {reads : Nat} {run : FixedRun}
    (doubles : Doubles readSize length chunk reads run) :
    run.answer ≠ some (.error .outOfMemory) := by
  rw [doubles.answer]
  exact nofun

/-- A feed of one chunk after so many reads that have each filled the allocation. -/
structure Midway (readSize : UInt64) (chunk : List UInt8) (reads : Nat) (feed : Feed) : Prop where
  brimming : feed.buffer.Brimming readSize reads
  window : feed.buffer.window = chunk.take (brim (baseSize readSize) reads)
  whole : feed.source.Whole (chunk.drop (brim (baseSize readSize) reads))

variable {feed : Feed} {reads : Nat} {area : Area} {buffer : Buffer}

/-- A read that succeeds takes the next bytes of the chunk, as many as the area holds. -/
theorem Midway.read (mid : feed.Midway readSize chunk reads) (hread : readSize ≠ 0)
    {parser : Parser (List UInt8) BadByte}
    (hturn : feed.buffer.turn readSize (parser feed.buffer.window) = (.reads area, buffer)) :
    (receive { feed with buffer } area).1.code.failed = false ∧
      (receive { feed with buffer } area).2.buffer.window =
        chunk.take (brim (baseSize readSize) reads + area.size.toNat) := by
  have hdelivery : (receive { feed with buffer } area).1 =
      { bytes := (chunk.drop (brim (baseSize readSize) reads)).take area.size.toNat } :=
    mid.whole.delivery area.size.toNat
  have hreads : Reads parser readSize feed _ _ := .intro hturn
  refine ⟨by rw [hdelivery]; rfl, ?_⟩
  rw [hreads.window hread mid.brimming.filling.valid, mid.window, hdelivery, List.take_add]

/-- While the chunk goes on behind the allocation that a read fills, the feed is midway again. -/
theorem Midway.next (mid : feed.Midway readSize chunk reads) {hint : Option Nat}
    (hreserve : feed.buffer.reserve (feed.buffer.nextRead hint readSize) = .ok (area, buffer))
    (hwindow : (receive { feed with buffer } area).2.buffer.window =
      chunk.take (brim (baseSize readSize) reads + area.size.toNat))
    (harea : area.size.toNat = max (baseSize readSize) feed.buffer.size.toNat)
    (hcapacity : buffer.capacity.toNat = brim (baseSize readSize) (reads + 1))
    (hlong : brim (baseSize readSize) (reads + 1) < chunk.length) :
    (receive { feed with buffer } area).2.Midway readSize chunk (reads + 1) := by
  have hfilled : brim (baseSize readSize) reads + area.size.toNat =
      brim (baseSize readSize) (reads + 1) := by
    rw [mid.brimming.brim_succ, harea, mid.brimming.size]
  obtain ⟨valid, hstart, hlimit⟩ := (mid.brimming.filling.reserve hreserve).1
  rw [hfilled] at hwindow
  have hsize : (receive { feed with buffer } area).2.buffer.size.toNat =
      brim (baseSize readSize) (reads + 1) := by
    rw [← Buffer.length_window, hwindow, List.length_take]
    exact Nat.min_eq_left (Nat.le_of_lt hlong)
  have hobtained := Buffer.obtained_reserve mid.brimming.obtained hreserve
  refine ⟨⟨?_, ?_, hsize, hobtained⟩, hwindow, ?_⟩
  · exact ⟨@valid_receive { feed with buffer } valid area, hstart, hlimit⟩
  · exact UInt64.toNat_inj.mp (hsize.trans hcapacity.symm)
  · have hroom : area.size.toNat < (chunk.drop (brim (baseSize readSize) reads)).length := by
      rw [List.length_drop]
      omega
    have hwhole := mid.whole.read hroom
    rw [List.drop_drop, hfilled] at hwhole
    exact hwhole

/-- A read that fills the allocation and does not reach the length is one of the reads before the
last. -/
theorem Doubles.cons {run : FixedRun} (doubles : Doubles readSize length chunk (reads + 1) run)
    (mid : feed.Midway readSize chunk reads)
    (hbeyond : brim (baseSize readSize) (reads + 1) < length)
    (outcome : Outcome (List UInt8) BadByte) (delivery : Delivery) :
    Doubles readSize length chunk reads
      (run.after [.look feed.buffer outcome, .read delivery]) where
  answer := doubles.answer
  least := by
    have hcount : (Event.deliveries (run.after
        [.look feed.buffer outcome, .read delivery]).transcript).length =
        (Event.deliveries run.transcript).length + 1 := rfl
    rw [hcount, Nat.add_comm _ 1, ← Nat.add_assoc]
    obtain ⟨⟨hless, hreaches⟩, hlower⟩ := doubles.least
    refine ⟨⟨Nat.lt_of_succ_lt hless, hreaches⟩,
      fun enough ⟨hmore, henough⟩ => hlower ⟨?_, henough⟩⟩
    -- The very next read is not enough, so what is enough comes behind it.
    refine Nat.lt_of_le_of_ne hmore fun heq => ?_
    rw [← heq] at henough
    exact Nat.not_le.mpr hbeyond henough
  full := by
    intro further hfurther
    cases further with
    | zero => exact ⟨feed.buffer, Event.shownAfter_zero _ _ _, mid.window, mid.brimming⟩
    | succ further =>
        obtain ⟨buffer, hshown, hwindow, brimming⟩ :=
          doubles.full further (Nat.lt_of_succ_lt_succ hfurther)
        rw [Nat.add_right_comm] at hwindow brimming
        exact ⟨buffer, hshown.cons _ _ _, hwindow, brimming⟩

end Feed

end StreamParse
