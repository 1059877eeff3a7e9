import StreamParse.Buffer.Valid

/-!
# Checked arithmetic

A sum of machine words wraps silently.  Here every command is carried out a second time with
arithmetic that gives nothing as soon as a sum, a difference or a double leaves the machine word; the
order of the tests is kept, so that a difference is only taken where the tests before it let it be
reached.  The assertion that a grown allocation takes the window and the new bytes gives nothing, too,
where it fails.

In a valid buffer the checked commands always give something, and it is what the commands themselves
give: no word wraps and no assertion fails, whatever the arguments are.
-/

namespace StreamParse

namespace Word

/-- The sum, where it is a machine word. -/
def add? (left right : UInt64) : Option UInt64 :=
  if left.toNat + right.toNat < 0x1_0000_0000_0000_0000 then some (left + right) else none

/-- The difference, where it is not below zero. -/
def sub? (left right : UInt64) : Option UInt64 :=
  if right.toNat ≤ left.toNat then some (left - right) else none

/-- Twice a word, where that is a machine word. -/
def double? (word : UInt64) : Option UInt64 :=
  if 2 * word.toNat < 0x1_0000_0000_0000_0000 then some (2 * word) else none

theorem add?_eq_some {left right : UInt64}
    (hlt : left.toNat + right.toNat < 0x1_0000_0000_0000_0000) :
    add? left right = some (left + right) :=
  if_pos hlt

theorem sub?_eq_some {left right : UInt64} (hle : right.toNat ≤ left.toNat) :
    sub? left right = some (left - right) :=
  if_pos hle

theorem double?_eq_some {word : UInt64} (hlt : 2 * word.toNat < 0x1_0000_0000_0000_0000) :
    double? word = some (2 * word) :=
  if_pos hlt

end Word

namespace Buffer

/-! ## The commands with checked arithmetic -/

def room? (b : Buffer) : Option UInt64 := do
  Word.sub? b.capacity (← Word.add? b.start b.size)

/-- The next allocation when `wanted` bytes are to be held.  Only a capacity of at most half the limit
is doubled. -/
def nextCapacity? (b : Buffer) (wanted : UInt64) : Option UInt64 :=
  if b.capacity > b.limit / 2 then some b.limit
  else (Word.double? b.capacity).map (max wanted)

/-- Asserts that the next allocation takes what is wanted. -/
def grownCapacity? (b : Buffer) (n : UInt64) : Option UInt64 := do
  let wanted ← Word.add? b.size n
  let grown ← b.nextCapacity? wanted
  if wanted ≤ grown then some grown else none

def placement? [Allocator] (b : Buffer) (n : UInt64) : Option (Except Fault Placement) :=
  if n > b.limit then some (.error .overLimit)
  else do
    let allowed ← Word.sub? b.limit n
    if b.size > allowed then return .error .overLimit
    else if (← b.room?) ≥ n then return .ok .behind
    else if b.capacity ≥ (← Word.add? b.size n) then return .ok .front
    else
      let grown ← b.grownCapacity? n
      if Allocator.grants grown.toNat then return .ok (.fresh grown)
      else return .error .outOfMemory

def reserve? [Allocator] (b : Buffer) (n : UInt64) : Option (Except Fault (Area × Buffer)) := do
  match ← b.placement? (max n 1) with
  | .error fault => return .error fault
  | .ok placement =>
      let b := b.place placement
      return .ok (⟨← Word.add? b.start b.size, max n 1⟩, b)

def commit? (b : Buffer) (n : UInt64) : Option Buffer := do
  return { b with size := ← Word.add? b.size (min n (← b.room?)) }

def consume? (b : Buffer) (n : UInt64) : Option (Except Fault Buffer) :=
  if n > b.size then some (.error .pastWindow)
  else if n < b.size then do
    return .ok { b with start := ← Word.add? b.start n, size := ← Word.sub? b.size n }
  else some (.ok b.clear)

/-- Carries out one command with checked arithmetic.  A limit is set and a buffer is cleared without
any. -/
def perform? [Allocator] (b : Buffer) : Command → Option (Except Fault (Option UInt64 × Buffer))
  | .reserve n bytes => do
      match ← b.reserve? n with
      | .error fault => return .error fault
      | .ok (area, b) => return .ok (some area.size, b.fill area bytes)
  | .append bytes n => do
      match ← b.reserve? bytes.length.toUInt64 with
      | .error fault => return .error fault
      | .ok (area, b) => return .ok (some area.size, ← (b.fill area bytes).commit? n)
  | .commit n => do return .ok (none, ← b.commit? n)
  | .consume n => do return (← b.consume? n).map fun b => (none, b)
  | .setLimit limit => some ((b.setLimit limit).map fun b => (none, b))
  | .clear => some (.ok (none, b.clear))

/-! ## Valid buffers -/

theorem Valid.room?_eq {b : Buffer} (valid : b.Valid) : b.room? = some b.room := by
  have hend : b.start.toNat + b.size.toNat < 0x1_0000_0000_0000_0000 :=
    Nat.lt_of_le_of_lt valid.fits b.capacity.toNat_lt
  have hle : (b.start + b.size).toNat ≤ b.capacity.toNat := by
    rw [valid.toNat_end]
    exact valid.fits
  rw [room?, Word.add?_eq_some hend]
  exact Word.sub?_eq_some hle

/-- Twice the capacity is at most the limit where it is computed. -/
theorem nextCapacity?_eq (b : Buffer) (n : UInt64) :
    b.nextCapacity? (b.size + n) = some (b.grownCapacity n) := by
  have hbound := b.limit.toNat_lt
  rw [nextCapacity?, grownCapacity]
  split
  · rfl
  · next hsmall =>
    have hhalf : b.capacity.toNat ≤ b.limit.toNat / 2 := by
      simpa [UInt64.lt_iff_toNat_lt] using hsmall
    rw [Word.double?_eq_some (by omega)]
    rfl

/-- The assertion holds: what is grown takes the window and the new bytes. -/
theorem grownCapacity?_eq {b : Buffer} {n : UInt64}
    (hlimit : b.size.toNat + n.toNat ≤ b.limit.toNat) :
    b.grownCapacity? n = some (b.grownCapacity n) := by
  have hsum : b.size.toNat + n.toNat < 0x1_0000_0000_0000_0000 :=
    Nat.lt_of_le_of_lt hlimit b.limit.toNat_lt
  have hassertion : b.size + n ≤ b.grownCapacity n := by
    rw [UInt64.le_iff_toNat_le, Word.toNat_add hsum]
    exact size_add_le_grownCapacity hlimit
  simp only [grownCapacity?, Word.add?_eq_some hsum, nextCapacity?_eq, Option.bind_eq_bind,
    Option.bind_some, if_pos hassertion]

/-- The window and the new bytes are only added up once they are known to stay within the limit. -/
theorem Valid.placement?_eq [Allocator] {b : Buffer} (valid : b.Valid) (n : UInt64) :
    b.placement? n = some (b.placement n) := by
  rw [placement?, Buffer.placement]
  by_cases hn : n > b.limit
  · simp only [hn, true_or, if_true]
  have hle : n.toNat ≤ b.limit.toNat := UInt64.le_iff_toNat_le.mp (UInt64.not_lt.mp hn)
  simp only [hn, if_false, false_or, Word.sub?_eq_some hle, Option.bind_eq_bind, Option.bind_some]
  by_cases hover : b.size > b.limit - n
  · simp only [if_pos hover, Option.pure_def]
  have hwithin : b.size.toNat ≤ (b.limit - n).toNat :=
    UInt64.le_iff_toNat_le.mp (UInt64.not_lt.mp hover)
  rw [Word.toNat_sub hle] at hwithin
  have hbound := b.limit.toNat_lt
  have hsum : b.size.toNat + n.toNat < 0x1_0000_0000_0000_0000 := by omega
  have hgrown : b.grownCapacity? n = some (b.grownCapacity n) := grownCapacity?_eq (by omega)
  simp only [if_neg hover, valid.room?_eq, Word.add?_eq_some hsum, hgrown, Option.bind_some,
    Option.pure_def]
  repeat' split
  all_goals rfl

theorem Valid.reserve?_eq [Allocator] {b : Buffer} (valid : b.Valid) (n : UInt64) :
    b.reserve? n = some (b.reserve n) := by
  rw [reserve?, valid.placement?_eq]
  cases hplacement : b.placement (max n 1) with
  | error fault => simp [Buffer.reserve, hplacement, bind, Except.bind]
  | ok placement =>
      have hreserve : b.reserve n =
          .ok (⟨(b.place placement).start + (b.place placement).size, max n 1⟩,
            b.place placement) := by
        simp [Buffer.reserve, hplacement, bind, Except.bind, pure, Except.pure]
      have placed : (b.place placement).Valid := (valid.reserve hreserve).1
      have hend : (b.place placement).start.toNat + (b.place placement).size.toNat <
          0x1_0000_0000_0000_0000 :=
        Nat.lt_of_le_of_lt placed.fits (b.place placement).capacity.toNat_lt
      simp only [Option.bind_eq_bind, Option.bind_some, Word.add?_eq_some hend, hreserve,
        Option.pure_def]

/-- No more is committed than there is room for, so the window still ends inside the allocation. -/
theorem Valid.commit?_eq {b : Buffer} (valid : b.Valid) (n : UInt64) :
    b.commit? n = some (b.commit n) := by
  have hroom := valid.toNat_room
  have hfits := valid.fits
  have hcapacity := b.capacity.toNat_lt
  have hsum : b.size.toNat + (min n b.room).toNat < 0x1_0000_0000_0000_0000 := by
    rw [Word.toNat_min]
    omega
  rw [commit?, valid.room?_eq]
  simp only [Option.bind_eq_bind, Option.bind_some, Word.add?_eq_some hsum]
  rfl

theorem Valid.consume?_eq {b : Buffer} (valid : b.Valid) (n : UInt64) :
    b.consume? n = some (b.consume n) := by
  rw [consume?, Buffer.consume, Buffer.discard]
  by_cases hpast : n > b.size
  · simp only [if_pos hpast]
  by_cases hfewer : n < b.size
  · have hlt : n.toNat < b.size.toNat := UInt64.lt_iff_toNat_lt.mp hfewer
    have hfits := valid.fits
    have hcapacity := b.capacity.toNat_lt
    simp only [if_neg hpast, if_pos hfewer, Option.bind_eq_bind, Option.bind_some,
      Word.add?_eq_some (show b.start.toNat + n.toNat < 0x1_0000_0000_0000_0000 by omega),
      Word.sub?_eq_some (Nat.le_of_lt hlt)]
    rfl
  · simp only [if_neg hpast, if_neg hfewer]

/-- In a valid buffer no word wraps and no assertion fails, whatever is asked of it. -/
theorem Valid.perform?_eq [Allocator] {b : Buffer} (valid : b.Valid) (command : Command) :
    b.perform? command = some (b.perform command) := by
  cases command with
  | reserve n bytes =>
      rw [perform?, Buffer.perform, valid.reserve?_eq]
      cases b.reserve n <;> rfl
  | append bytes n =>
      rw [perform?, Buffer.perform, Buffer.append, valid.reserve?_eq]
      cases hreserve : b.reserve bytes.length.toUInt64 with
      | error fault => rfl
      | ok reserved =>
          have filled : (reserved.2.fill reserved.1 bytes).Valid :=
            (valid.reserve hreserve).1.fill _ _
          simp only [Option.bind_eq_bind, Option.bind_some, filled.commit?_eq]
          rfl
  | commit n =>
      rw [perform?, valid.commit?_eq]
      rfl
  | consume n =>
      rw [perform?, valid.consume?_eq]
      rfl
  | setLimit limit => rfl
  | clear => rfl

/-- The checks do find a wrap: no such buffer is valid. -/
example : ({ start := 0xffffffffffffffff, size := 2, capacity := 16 } : Buffer).commit? 1 = none := by
  decide

end Buffer

end StreamParse
