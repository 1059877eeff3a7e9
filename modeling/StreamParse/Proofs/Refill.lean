import StreamParse.Proofs.Allocation
import StreamParse.Proofs.Growth
import StreamParse.Proofs.Reactor.Limits

/-!
# What a refill asks for, and what it gets

Five numbers decide how many bytes the next read asks for: the hint, the read size, the default read
size, the capacity and the room that the limit leaves.  They are mixed by nested maxima and minima of
machine words, but between a window and its limit nothing wraps, and the result is the larger of the
read size and the hint, where the hint counts as far as it reaches, cut down to the room.

Such a read is never refused because of the limit.  The allocation that is made for it is at most twice
as large as the hint reaches, whether it is a double, or just what is needed, or the limit: a window
that fits into its allocation and a read that asks for no more than the reach come to no more than
that, and the limit only makes it smaller.
-/

namespace StreamParse

namespace Buffer

/-- The furthest that a hint reaches, as a number. -/
def reach (b : Buffer) (readSize : UInt64) : Nat :=
  max readSize.toNat (max defaultReadSize.toNat b.capacity.toNat)

/-- The bytes by which the window may still grow. -/
def spare (b : Buffer) : Nat := b.limit.toNat - b.size.toNat

theorem capacity_le_reach (b : Buffer) (readSize : UInt64) :
    b.capacity.toNat ≤ b.reach readSize :=
  Nat.le_trans (Nat.le_max_right _ _) (Nat.le_max_right _ _)

theorem readSize_le_reach (b : Buffer) (readSize : UInt64) :
    readSize.toNat ≤ b.reach readSize :=
  Nat.le_max_left _ _

/-- A read without a hint asks for as much as one with the least hint. -/
theorem toNat_appetite (b : Buffer) (hint : Option Nat) (readSize : UInt64) :
    (b.appetite hint readSize).toNat =
      max readSize.toNat (min (hint.getD 0) (b.reach readSize)) := by
  cases hint with
  | none => simp [appetite]
  | some missing => rw [appetite_some, baseSize, reach, Nat.max_assoc, Option.getD_some]

/-- What the next read asks for, as a number. -/
theorem Within.toNat_nextRead {b : Buffer} (within : b.Within) (hint : Option Nat)
    (readSize : UInt64) :
    (b.nextRead hint readSize).toNat =
      min (max readSize.toNat (min (hint.getD 0) (b.reach readSize))) b.spare := by
  have hspare : b.headroom.toNat = b.spare := Word.toNat_sub within
  rw [Buffer.toNat_nextRead, toNat_appetite, hspare]

/-- The bounds of what the next read asks for. -/
structure Apportions (b : Buffer) (hint : Option Nat) (readSize : UInt64) : Prop where
  le_reach : (b.nextRead hint readSize).toNat ≤ b.reach readSize
  le_spare : (b.nextRead hint readSize).toNat ≤ b.spare
  readSize_le : min readSize.toNat b.spare ≤ (b.nextRead hint readSize).toNat
  hint_le : ∀ missing ∈ hint,
    min missing (min (b.reach readSize) b.spare) ≤ (b.nextRead hint readSize).toNat
  nothing : b.nextRead hint readSize = 0 ↔ b.spare = 0
  /-- A hint that is no larger than the read size is as good as none. -/
  idle : ∀ missing ∈ hint, missing ≤ readSize.toNat →
    b.nextRead hint readSize = b.nextRead none readSize

theorem Within.apportions {b : Buffer} (within : b.Within) (hint : Option Nat)
    {readSize : UInt64} (hread : readSize ≠ 0) : b.Apportions hint readSize := by
  have hamount := within.toNat_nextRead hint readSize
  have hreach := b.readSize_le_reach readSize
  have hpos : readSize.toNat ≠ 0 := fun hzero => hread (UInt64.toNat_inj.mp hzero)
  constructor
  case nothing =>
    rw [← UInt64.toNat_inj, hamount]
    change _ = 0 ↔ _
    omega
  case hint_le =>
    rintro missing rfl
    rw [hamount, Option.getD_some]
    omega
  case idle =>
    rintro missing rfl hsmall
    rw [← UInt64.toNat_inj, hamount, within.toNat_nextRead, Option.getD_some, Option.getD_none]
    omega
  all_goals omega

/-- A larger hint, or a larger read size, never asks for less. -/
theorem Within.nextRead_mono {b : Buffer} (within : b.Within) {hint hint' : Option Nat}
    {readSize readSize' : UInt64} (hhint : hint.getD 0 ≤ hint'.getD 0)
    (hsize : readSize ≤ readSize') : b.nextRead hint readSize ≤ b.nextRead hint' readSize' := by
  have hsize := UInt64.le_iff_toNat_le.mp hsize
  rw [UInt64.le_iff_toNat_le, within.toNat_nextRead, within.toNat_nextRead, reach, reach]
  omega

variable [Allocator]

/-- What comes of a request for room within the limit. -/
inductive Obtains (b : Buffer) (n : UInt64) (most : Nat) : Except Fault (Area × Buffer) → Prop
  | room {area : Area} {next : Buffer} (hsize : area.size = n)
      (hcapacity : next.capacity.toNat ≤ most) : Obtains b n most (.ok (area, next))
  | nothing (hsmall : b.capacity.toNat < b.size.toNat + n.toNat)
      (hrefused : ¬ Allocator.grants (b.prescribed n.toNat) = true) :
      Obtains b n most (.error .outOfMemory)

/-- Room within the limit is found, unless the allocation that it takes is not to be had. -/
theorem Valid.obtains {b : Buffer} (valid : b.Valid) {n : UInt64} (hpos : 0 < n.toNat)
    (hlimit : b.size.toNat + n.toNat ≤ b.limit.toNat) :
    b.Obtains n (max (b.size.toNat + n.toNat) (2 * b.capacity.toNat)) (b.reserve n) := by
  rcases valid.provides_or_refused hpos hlimit with
    ⟨area, next, hreserve, provides⟩ | ⟨hsmall, hrefused, hreserve⟩
  · rw [hreserve]
    exact .room (UInt64.toNat_inj.mp provides.offered) provides.capacity_le
  · rw [hreserve]
    exact .nothing hsmall hrefused

theorem Obtains.weaken {b : Buffer} {n : UInt64} {most more : Nat}
    {reserved : Except Fault (Area × Buffer)} (obtains : b.Obtains n most reserved)
    (hle : most ≤ more) : b.Obtains n more reserved := by
  cases obtains with
  | room hsize hcapacity => exact .room hsize (Nat.le_trans hcapacity hle)
  | nothing hsmall hrefused => exact .nothing hsmall hrefused

/-- A refill obtains room in an allocation that is at most twice as large as a hint reaches. -/
theorem Valid.obtains_nextRead {b : Buffer} (valid : b.Valid) (within : b.Within)
    (hint : Option Nat) (readSize : UInt64) (hsome : b.nextRead hint readSize ≠ 0) :
    b.Obtains (b.nextRead hint readSize) (2 * b.reach readSize)
      (b.reserve (b.nextRead hint readSize)) := by
  have hamount := within.toNat_nextRead hint readSize
  have hpos : (b.nextRead hint readSize).toNat ≠ 0 :=
    fun hzero => hsome (UInt64.toNat_inj.mp hzero)
  have hfits := valid.fits
  have hcapacity := b.capacity_le_reach readSize
  have hreach := b.readSize_le_reach readSize
  refine (valid.obtains (Nat.pos_of_ne_zero hpos) ?_).weaken ?_
  · exact b.size_add_nextRead_le hint readSize within
  · omega

end Buffer

namespace Reactor

variable {ν ε : Type} {reactor : Reactor ν ε}

/-- Whatever a reactor was asked before, a refill of each of its buffers whose window is within the
limit is bounded from both sides, for every hint and every read size but zero.  What it asks for is no
more than the room that the limit leaves and than the largest of the read size, the default read size
and the capacity; no less than the read size and the hint where these allow it; and none only if there
is no room.  A larger hint or read size never makes it less, and a hint that is no larger than the read
size makes no difference.  The limit does not refuse it room, and the allocation in which it finds room
is at most twice the largest of the three. -/
theorem refills_bounded [Allocator] (intact : reactor.Intact) (history : List (Request ν ε)) :
    (reactor.after history).EveryBuffer fun b => b.size.toNat ≤ b.limit.toNat →
      ∀ (hint : Option Nat) (readSize : UInt64), readSize ≠ 0 →
        b.Apportions hint readSize ∧
        (∀ (hint' : Option Nat) (readSize' : UInt64), hint.getD 0 ≤ hint'.getD 0 →
          readSize ≤ readSize' → b.nextRead hint readSize ≤ b.nextRead hint' readSize') ∧
        (b.nextRead hint readSize ≠ 0 →
          b.Obtains (b.nextRead hint readSize) (2 * b.reach readSize)
            (b.reserve (b.nextRead hint readSize))) := by
  refine (intact.after history).imp fun b valid within hint readSize hread => ?_
  refine ⟨Buffer.Within.apportions within hint hread, fun hint' readSize' hhint hsize => ?_,
    fun hsome => valid.obtains_nextRead within hint readSize hsome⟩
  exact Buffer.Within.nextRead_mono within hhint hsize

/-- Three bytes in an allocation of just over half of the limit. -/
def pastHalf : List (Request Unit Unit) :=
  [.addBuffer (some 20001), .buffer 0 (.reserve 10001 []), .buffer 0 (.write [1, 2, 3])]

/-- A hint that reaches as far as the capacity makes the allocation as large as the limit. -/
theorem refill_past_half_bounded :
    (Reactor.after {} pastHalf).buffers.map (fun b => (b.size, b.capacity, b.limit)) =
      [(3, 10001, 20001)] ∧
    ∀ b ∈ (Reactor.after {} pastHalf).buffers,
      b.nextRead (some 15000) 16 = 10001 ∧ b.nextRead none 16 ≤ b.nextRead (some 15000) 16 ∧
      b.Apportions (some 15000) 16 ∧
      b.Obtains 10001 20002 (b.reserve 10001) ∧
      (b.reserve 10001).toOption.map (fun found => found.2.capacity) = some 20001 := by
  refine ⟨by decide, fun b hmem => ?_⟩
  have intact : Intact ({} : Reactor Unit Unit) := ⟨nofun, nofun⟩
  have hstate : ∀ b ∈ (Reactor.after {} pastHalf).buffers,
      b.size.toNat ≤ b.limit.toNat ∧ b.nextRead (some 15000) 16 = 10001 ∧ b.reach 16 = 10001 ∧
        (b.reserve 10001).toOption.map (fun found => found.2.capacity) = some 20001 := by
    decide
  obtain ⟨within, hamount, hreach, hgrown⟩ := hstate b hmem
  have bounded := (refills_bounded intact pastHalf).listed b hmem within
  obtain ⟨apportions, -, obtains⟩ := bounded (some 15000) 16 (by decide)
  have hless := (bounded none 16 (by decide)).2.1 (some 15000) 16 (by decide) (by decide)
  rw [hamount, hreach] at obtains
  exact ⟨hamount, hless, apportions, obtains (by decide), hgrown⟩

end Reactor

end StreamParse
