import StreamParse.Buffer.Command
import StreamParse.Word

/-!
# Valid buffers

In a valid buffer the window lies inside the allocation, and an empty window lies at its front.  A new
buffer is valid, and every operation keeps it so, refused ones included.  In a valid buffer no machine
word overflows: the room that `reserve` finds lies behind the window and inside the allocation, and
what was written there and committed is what the window gains.
-/

namespace StreamParse

namespace Buffer

structure Valid (b : Buffer) : Prop where
  fits : b.start.toNat + b.size.toNat ≤ b.capacity.toNat
  origin : b.size = 0 → b.start = 0

theorem valid_ofLimit (limit : UInt64) : (ofLimit limit).Valid :=
  ⟨Nat.zero_le _, fun _ => rfl⟩

theorem valid_unlimited : unlimited.Valid :=
  ⟨Nat.zero_le _, fun _ => rfl⟩

theorem valid_emptied (b : Buffer) : b.emptied.Valid := by
  rw [emptied_eq]
  exact valid_ofLimit b.limit

theorem valid_clear (b : Buffer) : b.clear.Valid :=
  ⟨Nat.zero_le _, fun _ => rfl⟩

theorem Valid.fill {b : Buffer} (valid : b.Valid) (area : Area) (bytes : List UInt8) :
    (b.fill area bytes).Valid :=
  ⟨valid.fits, valid.origin⟩

/-- The window ends where the numbers say. -/
theorem Valid.toNat_end {b : Buffer} (valid : b.Valid) :
    (b.start + b.size).toNat = b.start.toNat + b.size.toNat :=
  Word.toNat_add (Nat.lt_of_le_of_lt valid.fits b.capacity.toNat_lt)

/-- The room behind the window is what the window leaves of the allocation. -/
theorem Valid.toNat_room {b : Buffer} (valid : b.Valid) :
    b.room.toNat = b.capacity.toNat - (b.start.toNat + b.size.toNat) := by
  have hle : (b.start + b.size).toNat ≤ b.capacity.toNat := by
    rw [valid.toNat_end]
    exact valid.fits
  rw [room, Word.toNat_sub hle, valid.toNat_end]

/-- Committing adds what there is room for. -/
theorem Valid.toNat_size_commit {b : Buffer} (valid : b.Valid) (n : UInt64) :
    (b.commit n).size.toNat = b.size.toNat + min n.toNat b.room.toNat := by
  have hfits := valid.fits
  have hroom := valid.toNat_room
  have hcapacity := b.capacity.toNat_lt
  change (b.size + min n b.room).toNat = _
  rw [Word.toNat_add, Word.toNat_min]
  rw [Word.toNat_min]
  omega

theorem Valid.commit {b : Buffer} (valid : b.Valid) (n : UInt64) : (b.commit n).Valid where
  fits := by
    have hfits := valid.fits
    have hroom := valid.toNat_room
    rw [valid.toNat_size_commit n]
    change b.start.toNat + _ ≤ b.capacity.toNat
    omega
  origin := by
    intro hempty
    have hsize := valid.toNat_size_commit n
    rw [hempty] at hsize
    have hzero : b.size.toNat = 0 := Nat.eq_zero_of_add_eq_zero_right hsize.symm
    exact valid.origin (UInt64.toNat_inj.mp hzero)

theorem Valid.discard {b : Buffer} (valid : b.Valid) (n : UInt64) : (b.discard n).Valid := by
  rw [Buffer.discard]
  split
  · next hlt =>
    have hlt : n.toNat < b.size.toNat := UInt64.lt_iff_toNat_lt.mp hlt
    have hfits := valid.fits
    have hcapacity := b.capacity.toNat_lt
    have hsize : (b.size - n).toNat = b.size.toNat - n.toNat := Word.toNat_sub (by omega)
    refine ⟨?_, fun hempty => ?_⟩
    · change (b.start + n).toNat + (b.size - n).toNat ≤ b.capacity.toNat
      rw [Word.toNat_add (by omega), hsize]
      omega
    · have hzero : (b.size - n).toNat = 0 := congrArg UInt64.toNat hempty
      omega
  · exact valid_clear b

/-- A grown allocation takes the window and the new bytes. -/
theorem size_add_le_grownCapacity {b : Buffer} {n : UInt64}
    (hlimit : b.size.toNat + n.toNat ≤ b.limit.toNat) :
    b.size.toNat + n.toNat ≤ (b.grownCapacity n).toNat := by
  have hbound := b.limit.toNat_lt
  rw [grownCapacity]
  split
  · exact hlimit
  · rw [Word.toNat_max, Word.toNat_add (by omega)]
    exact Nat.le_max_left _ _

/-- Bytes that were written behind the window and committed are what the window gains. -/
theorem Valid.window_commit_fill {b : Buffer} (valid : b.Valid) {area : Area} {bytes : List UInt8}
    (hoffset : area.offset.toNat = b.start.toNat + b.size.toNat)
    (harea : area.offset.toNat + area.size.toNat ≤ b.capacity.toNat)
    (hbytes : bytes.length ≤ area.size.toNat) :
    ((b.fill area bytes).commit bytes.length.toUInt64).window = b.window ++ bytes := by
  have hcapacity := b.capacity.toNat_lt
  have hlength : bytes.length.toUInt64.toNat = bytes.length := Word.toNat_ofNat (by omega)
  have hroom : (b.fill area bytes).room.toNat =
      b.capacity.toNat - (b.start.toNat + b.size.toNat) := (valid.fill area bytes).toNat_room
  have hsize : ((b.fill area bytes).commit bytes.length.toUInt64).size.toNat =
      b.size.toNat + bytes.length := by
    rw [(valid.fill area bytes).toNat_size_commit, hlength, hroom]
    change b.size.toNat + _ = _
    omega
  change (b.storage.write area.offset.toNat (bytes.take area.size.toNat)).read b.start.toNat _ = _
  rw [hsize, List.take_of_length_le hbytes, Storage.read_add, hoffset, Storage.read_write_self,
    Storage.read_write_of_le (Nat.le_refl _)]
  rfl

theorem Valid.consume {b b' : Buffer} {n : UInt64} (valid : b.Valid)
    (h : b.consume n = .ok b') : b'.Valid := by
  obtain ⟨_, rfl⟩ := consume_eq_ok_iff.mp h
  exact valid.discard n

theorem Valid.setLimit {b b' : Buffer} {limit : UInt64} (valid : b.Valid)
    (h : b.setLimit limit = .ok b') : b'.Valid := by
  rw [Buffer.setLimit] at h
  split at h
  · cases h
  · cases h
    exact ⟨valid.fits, valid.origin⟩

/-- Discarding drops bytes from the front of the window. -/
theorem Valid.window_discard {b : Buffer} (valid : b.Valid) (n : UInt64) :
    (b.discard n).window = b.window.drop n.toNat :=
  Buffer.window_discard (Nat.lt_of_le_of_lt valid.fits b.capacity.toNat_lt)

section Requests

variable [Allocator]

/-- What a placement promises: the limit is kept, and an allocation that is made is
granted and large enough. -/
theorem placement_eq_ok {b : Buffer} {n : UInt64} {placement : Placement}
    (h : b.placement n = .ok placement) :
    b.size.toNat + n.toNat ≤ b.limit.toNat ∧
      (match placement with
        | .behind => n ≤ b.room
        | .front => b.size + n ≤ b.capacity
        | .fresh capacity =>
            capacity = b.grownCapacity n ∧ Allocator.grants capacity.toNat = true) := by
  rw [Buffer.placement] at h
  split at h
  · cases h
  · next hlimit =>
    have hlimits := not_or.mp hlimit
    have hn : n.toNat ≤ b.limit.toNat := UInt64.le_iff_toNat_le.mp (UInt64.not_lt.mp hlimits.1)
    have hsize : b.size.toNat ≤ (b.limit - n).toNat :=
      UInt64.le_iff_toNat_le.mp (UInt64.not_lt.mp hlimits.2)
    rw [Word.toNat_sub hn] at hsize
    refine ⟨by omega, ?_⟩
    split at h
    · next hroom => cases h; exact hroom
    · split at h
      · next hfront => cases h; exact hfront
      · split at h
        · next hgranted => cases h; exact ⟨rfl, hgranted⟩
        · cases h

/-- The room that was reserved lies behind the window and inside the allocation. -/
theorem Valid.reserve {b b' : Buffer} {n : UInt64} {area : Area} (valid : b.Valid)
    (h : b.reserve n = .ok (area, b')) :
    b'.Valid ∧ area.offset.toNat = b'.start.toNat + b'.size.toNat ∧
      area.offset.toNat + area.size.toNat ≤ b'.capacity.toNat := by
  obtain ⟨placement, hplacement, rfl, rfl⟩ := reserve_eq_ok h
  obtain ⟨hlimit, hplaced⟩ := placement_eq_ok hplacement
  have hbound := b.limit.toNat_lt
  have hfits := valid.fits
  cases placement with
  | behind =>
      have hroom := UInt64.le_iff_toNat_le.mp hplaced
      rw [valid.toNat_room] at hroom
      refine ⟨valid, valid.toNat_end, ?_⟩
      change (b.start + b.size).toNat + (max n 1).toNat ≤ b.capacity.toNat
      rw [valid.toNat_end]
      omega
  | front =>
      have hfront : b.size.toNat + (max n 1).toNat ≤ b.capacity.toNat := by
        rw [← Word.toNat_add (by omega)]
        exact UInt64.le_iff_toNat_le.mp hplaced
      have valid' : (b.place .front).Valid :=
        ⟨by show 0 + b.size.toNat ≤ b.capacity.toNat; omega, fun _ => rfl⟩
      refine ⟨valid', valid'.toNat_end, ?_⟩
      change (0 + b.size).toNat + (max n 1).toNat ≤ b.capacity.toNat
      rw [UInt64.zero_add]
      exact hfront
  | fresh capacity =>
      obtain ⟨rfl, _⟩ := hplaced
      have hgrown := size_add_le_grownCapacity hlimit
      have valid' : (b.place (.fresh (b.grownCapacity (max n 1)))).Valid :=
        ⟨by show 0 + b.size.toNat ≤ (b.grownCapacity (max n 1)).toNat; omega, fun _ => rfl⟩
      refine ⟨valid', valid'.toNat_end, ?_⟩
      change (0 + b.size).toNat + (max n 1).toNat ≤ (b.grownCapacity (max n 1)).toNat
      rw [UInt64.zero_add]
      exact hgrown

theorem Valid.append {b b' : Buffer} {bytes : List UInt8} {n : UInt64} {area : Area}
    (valid : b.Valid) (h : b.append bytes n = .ok (area, b')) : b'.Valid := by
  rw [Buffer.append] at h
  cases hreserve : b.reserve bytes.length.toUInt64 with
  | error fault => simp [hreserve, bind, Except.bind] at h
  | ok reserved =>
      simp only [hreserve, bind, Except.bind, pure, Except.pure, Except.ok.injEq,
        Prod.mk.injEq] at h
      obtain ⟨rfl, rfl⟩ := h
      exact ((valid.reserve hreserve).1.fill _ _).commit n

theorem Valid.perform {b b' : Buffer} {command : Command} {answer : Option UInt64}
    (valid : b.Valid) (h : b.perform command = .ok (answer, b')) : b'.Valid := by
  cases command with
  | reserve n bytes =>
      rw [Buffer.perform] at h
      cases hreserve : b.reserve n with
      | error fault => simp [hreserve, bind, Except.bind] at h
      | ok reserved =>
          simp only [hreserve, bind, Except.bind, pure, Except.pure, Except.ok.injEq,
            Prod.mk.injEq] at h
          obtain ⟨_, rfl⟩ := h
          exact (valid.reserve hreserve).1.fill _ _
  | append bytes n =>
      rw [Buffer.perform] at h
      cases happend : b.append bytes n with
      | error fault => simp [happend, bind, Except.bind] at h
      | ok appended =>
          simp only [happend, bind, Except.bind, pure, Except.pure, Except.ok.injEq,
            Prod.mk.injEq] at h
          obtain ⟨_, rfl⟩ := h
          exact valid.append happend
  | commit n =>
      cases h
      exact valid.commit n
  | consume n =>
      rw [Buffer.perform] at h
      cases hconsume : b.consume n with
      | error fault => simp [hconsume, Except.map] at h
      | ok consumed =>
          simp only [hconsume, Except.map, Except.ok.injEq, Prod.mk.injEq] at h
          obtain ⟨_, rfl⟩ := h
          exact valid.consume hconsume
  | setLimit limit =>
      rw [Buffer.perform] at h
      cases hset : b.setLimit limit with
      | error fault => simp [hset, Except.map] at h
      | ok set =>
          simp only [hset, Except.map, Except.ok.injEq, Prod.mk.injEq] at h
          obtain ⟨_, rfl⟩ := h
          exact valid.setLimit hset
  | clear =>
      cases h
      exact valid_clear b

theorem Valid.step {b : Buffer} (valid : b.Valid) (command : Command) :
    (b.step command).2.Valid := by
  cases h : b.perform command with
  | error fault =>
      rw [step_of_error h]
      exact valid
  | ok answered =>
      rw [step_of_ok h]
      exact valid.perform h

/-- A valid buffer stays valid through every history. -/
theorem Valid.run {b : Buffer} (valid : b.Valid) (commands : List Command) :
    (b.run commands).Valid := by
  induction commands generalizing b with
  | nil => exact valid
  | cons command commands ih => exact ih (valid.step command)

end Requests

end Buffer

end StreamParse
