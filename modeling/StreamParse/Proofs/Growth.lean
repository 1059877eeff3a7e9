import StreamParse.Proofs.Buffer.ByteQueue
import StreamParse.Proofs.Reactor.Integrity

/-!
# How an allocation grows

Room for new bytes is looked for in three places: behind the window, in the whole of the allocation,
and in a new one.  A new allocation is twice the old one, or what the window and the new bytes need
where that is more, and it is cut down to the limit.

The double need not be a machine word, so it is not computed where it would have to be cut down: a
capacity of more than half of the limit is replaced by the limit at once.  Both rules come to the same
capacity, also for an odd limit, whose half is rounded, and for a limit that was set below the
capacity, where there is never anything to grow.
-/

namespace StreamParse

namespace Buffer

/-- The capacity that takes `wanted` more bytes where the allocation is too small for them. -/
def prescribed (b : Buffer) (wanted : Nat) : Nat :=
  min (max (b.size.toNat + wanted) (2 * b.capacity.toNat)) b.limit.toNat

/-- Half of the limit tells whether a double has to be cut down. -/
theorem toNat_grownCapacity_eq_prescribed {b : Buffer} {n : UInt64}
    (hlimit : b.size.toNat + n.toNat ≤ b.limit.toNat) :
    (b.grownCapacity n).toNat = b.prescribed n.toNat := by
  rw [grownCapacity_eq hlimit, prescribed]
  split <;> omega

/-- Room for `wanted` bytes as the policy finds it: the area that is offered, and the buffer that it
is an area of. -/
structure Provides (b : Buffer) (wanted : Nat) (area : Area) (next : Buffer) : Prop where
  offered : area.size.toNat = wanted
  behind : area.offset.toNat = next.start.toNat + next.size.toNat
  inside : area.offset.toNat + area.size.toNat ≤ next.capacity.toNat
  window : next.window = b.window
  limit : next.limit = b.limit
  /-- What fits behind the window leaves everything where it is. -/
  tail : wanted ≤ b.capacity.toNat - (b.start.toNat + b.size.toNat) →
    next.capacity = b.capacity ∧ next.start = b.start
  /-- What fits into the allocation otherwise moves the window to its front. -/
  front : b.capacity.toNat - (b.start.toNat + b.size.toNat) < wanted →
    b.size.toNat + wanted ≤ b.capacity.toNat → next.capacity = b.capacity ∧ next.start = 0
  /-- What does not fit into the allocation makes a new one, with the window at its front. -/
  fresh : b.capacity.toNat < b.size.toNat + wanted →
    next.capacity.toNat = b.prescribed wanted ∧ next.start = 0

/-- However room is provided, the allocation is no larger than its double, or than what is needed. -/
theorem Provides.capacity_le {b next : Buffer} {wanted : Nat} {area : Area}
    (provides : b.Provides wanted area next) :
    next.capacity.toNat ≤ max (b.size.toNat + wanted) (2 * b.capacity.toNat) := by
  by_cases hsmall : b.capacity.toNat < b.size.toNat + wanted
  · rw [(provides.fresh hsmall).1, prescribed]
    exact Nat.min_le_left _ _
  · have hsame : next.capacity = b.capacity := by
      by_cases htail : wanted ≤ b.capacity.toNat - (b.start.toNat + b.size.toNat)
      · exact (provides.tail htail).1
      · exact (provides.front (Nat.lt_of_not_le htail) (Nat.le_of_not_lt hsmall)).1
    rw [hsame]
    omega

/-- Only a request for none counts as one for one. -/
theorem max_one_of_pos {n : UInt64} (hpos : 0 < n.toNat) : max n 1 = n := by
  rw [← UInt64.toNat_inj, Word.toNat_max]
  exact Nat.max_eq_left hpos

variable [Allocator]

/-- The choice of a placement, by the policy. -/
theorem Valid.placement_eq_policy {b : Buffer} (valid : b.Valid) {n : UInt64}
    (hlimit : b.size.toNat + n.toNat ≤ b.limit.toNat) :
    b.placement n =
      if n.toNat ≤ b.capacity.toNat - (b.start.toNat + b.size.toNat) then .ok .behind
      else if b.size.toNat + n.toNat ≤ b.capacity.toNat then .ok .front
      else if Allocator.grants (b.prescribed n.toNat) then .ok (.fresh (b.grownCapacity n))
      else .error .outOfMemory := by
  have hroom : n ≤ b.room ↔ n.toNat ≤ b.capacity.toNat - (b.start.toNat + b.size.toNat) := by
    rw [UInt64.le_iff_toNat_le, valid.toNat_room]
  rw [placement_eq, if_neg (Nat.not_lt.mpr hlimit), ← toNat_grownCapacity hlimit,
    toNat_grownCapacity_eq_prescribed hlimit]
  simp only [hroom]

theorem reserve_of_placement {b : Buffer} {n : UInt64} {placement : Placement}
    (hplacement : b.placement (max n 1) = .ok placement) :
    b.reserve n =
      .ok (⟨(b.place placement).start + (b.place placement).size, max n 1⟩, b.place placement) := by
  simp [reserve, hplacement, bind, Except.bind, pure, Except.pure]

theorem reserve_of_refused {b : Buffer} {n : UInt64} {fault : Fault}
    (hplacement : b.placement (max n 1) = .error fault) : b.reserve n = .error fault := by
  simp [reserve, hplacement, bind, Except.bind]

/-- Room within the limit is found by the policy, unless it takes a new allocation and one of the
prescribed size is not to be had. -/
theorem Valid.reserve_provides {b : Buffer} (valid : b.Valid) {n : UInt64}
    (hlimit : b.size.toNat + max n.toNat 1 ≤ b.limit.toNat)
    (hgranted : b.capacity.toNat < b.size.toNat + max n.toNat 1 →
      Allocator.grants (b.prescribed (max n.toNat 1)) = true) :
    ∃ area next, b.reserve n = .ok (area, next) ∧ b.Provides (max n.toNat 1) area next := by
  have hwanted : (max n 1).toNat = max n.toNat 1 := Word.toNat_max n 1
  have hfits := valid.fits
  rw [← hwanted] at hlimit hgranted ⊢
  have hpolicy := valid.placement_eq_policy hlimit
  obtain ⟨placement, hplacement⟩ : ∃ placement, b.placement (max n 1) = .ok placement := by
    rw [hpolicy]
    split
    · exact ⟨_, rfl⟩
    · split
      · exact ⟨_, rfl⟩
      · next hsmall =>
        rw [if_pos (hgranted (Nat.lt_of_not_le hsmall))]
        exact ⟨_, rfl⟩
  have hreserve := reserve_of_placement hplacement
  obtain ⟨_, hbehind, hinside⟩ := valid.reserve hreserve
  rw [hplacement] at hpolicy
  refine ⟨_, _, hreserve, {
    offered := rfl
    behind := hbehind
    inside := hinside
    window := b.window_place placement
    limit := b.limit_place placement
    tail := fun htail => ?tail
    front := fun hnot hfront => ?front
    fresh := fun hsmall => ?fresh }⟩
  case tail =>
    rw [if_pos htail] at hpolicy
    cases hpolicy
    exact ⟨rfl, rfl⟩
  case front =>
    rw [if_neg (Nat.not_le.mpr hnot), if_pos hfront] at hpolicy
    cases hpolicy
    exact ⟨rfl, rfl⟩
  case fresh =>
    rw [if_neg (by omega), if_neg (Nat.not_le.mpr hsmall), if_pos (hgranted hsmall)] at hpolicy
    cases hpolicy
    exact ⟨toNat_grownCapacity_eq_prescribed hlimit, rfl⟩

/-- Where a new allocation is needed and not granted, no room is found. -/
theorem Valid.reserve_of_not_granted {b : Buffer} (valid : b.Valid) {n : UInt64}
    (hlimit : b.size.toNat + max n.toNat 1 ≤ b.limit.toNat)
    (hsmall : b.capacity.toNat < b.size.toNat + max n.toNat 1)
    (hrefused : ¬ Allocator.grants (b.prescribed (max n.toNat 1)) = true) :
    b.reserve n = .error .outOfMemory := by
  have hwanted : (max n 1).toNat = max n.toNat 1 := Word.toNat_max n 1
  rw [← hwanted] at hlimit hsmall hrefused
  apply reserve_of_refused
  rw [valid.placement_eq_policy hlimit, if_neg (by omega), if_neg (by omega), if_neg hrefused]

/-- Room within the limit is provided, or it takes a new allocation that is not to be had. -/
theorem Valid.provides_or_refused {b : Buffer} (valid : b.Valid) {n : UInt64} (hpos : 0 < n.toNat)
    (hlimit : b.size.toNat + n.toNat ≤ b.limit.toNat) :
    (∃ area next, b.reserve n = .ok (area, next) ∧ b.Provides n.toNat area next) ∨
      (b.capacity.toNat < b.size.toNat + n.toNat ∧
        ¬ Allocator.grants (b.prescribed n.toNat) = true ∧ b.reserve n = .error .outOfMemory) := by
  have hone : max n.toNat 1 = n.toNat := Nat.max_eq_left hpos
  have hprovides := @Valid.reserve_provides _ b valid n
  have hrefuses := @Valid.reserve_of_not_granted _ b valid n
  rw [hone] at hprovides hrefuses
  by_cases hgranted : b.capacity.toNat < b.size.toNat + n.toNat →
      Allocator.grants (b.prescribed n.toNat) = true
  · exact .inl (hprovides hlimit hgranted)
  · obtain ⟨hsmall, hrefused⟩ := Classical.not_imp.mp hgranted
    exact .inr ⟨hsmall, hrefused, hrefuses hlimit hsmall hrefused⟩

end Buffer

namespace Reactor

variable {ν ε : Type} {reactor : Reactor ν ε}

section Requests

variable [Allocator]

/-- Whatever a reactor was asked before, each of its buffers makes room for `n` bytes within its limit
by the policy, a request for none counting as one for one.  It computes what it needs for this without
a word that wraps, and it fails only where a new allocation of the prescribed size is not granted. -/
theorem room_follows_policy (intact : reactor.Intact) (history : List (Request ν ε)) :
    (reactor.after history).EveryBuffer fun b => ∀ n : UInt64,
      b.size.toNat + max n.toNat 1 ≤ b.limit.toNat →
      (b.capacity.toNat < b.size.toNat + max n.toNat 1 →
        Allocator.grants (b.prescribed (max n.toNat 1)) = true) →
      ∃ area next, b.reserve n = .ok (area, next) ∧ b.reserve? n = some (.ok (area, next)) ∧
        b.Provides (max n.toNat 1) area next := by
  refine (intact.after history).imp fun b valid n hlimit hgranted => ?_
  obtain ⟨area, next, hreserve, provides⟩ := valid.reserve_provides hlimit hgranted
  refine ⟨area, next, hreserve, ?_, provides⟩
  rw [valid.reserve?_eq, hreserve]

end Requests

/-- A buffer under an odd limit that was filled twice and then read from: there is room for one byte
behind its window, and for five in its allocation. -/
def halfRead : List (Request Unit Unit) :=
  [.addBuffer (some 21), .buffer 0 (.write [1, 2, 3, 4, 5, 6]),
    .buffer 0 (.write [7, 8, 9, 10, 11]), .buffer 0 (.consume 4)]

theorem halfRead_follows_policy :
    (Reactor.after {} halfRead).buffers.map (fun b => (b.start, b.size, b.capacity, b.limit)) =
      [(4, 7, 12, 21)] ∧
    ∀ b ∈ (Reactor.after {} halfRead).buffers,
      (∃ area next, b.reserve 0 = .ok (area, next) ∧ area.size = 1 ∧ next.start = b.start ∧
        next.capacity = b.capacity) ∧
      (∃ area next, b.reserve 4 = .ok (area, next) ∧ area.size = 4 ∧ next.start = 0 ∧
        next.capacity = b.capacity) ∧
      ∃ area next, b.reserve 6 = .ok (area, next) ∧ area.size = 6 ∧ next.start = 0 ∧
        next.capacity = b.limit := by
  refine ⟨by decide, fun b hmem => ?_⟩
  have intact : Intact ({} : Reactor Unit Unit) := ⟨nofun, nofun⟩
  have policy := (room_follows_policy intact halfRead).listed b hmem
  have hstate : ∀ b ∈ (Reactor.after {} halfRead).buffers,
      b.start = 4 ∧ b.size = 7 ∧ b.capacity = 12 ∧ b.limit = 21 := by decide
  obtain ⟨hstart, hsize, hcapacity, hlimit⟩ := hstate b hmem
  simp only [hstart, hsize, hcapacity, hlimit, Buffer.prescribed] at policy ⊢
  refine ⟨?_, ?_, ?_⟩
  · obtain ⟨area, next, hreserve, _, provides⟩ := policy 0 (by decide) (by decide)
    obtain ⟨hcapacity', hstart'⟩ := provides.tail (by rw [hcapacity, hstart, hsize]; decide)
    exact ⟨area, next, hreserve, UInt64.toNat_inj.mp provides.offered, hstart'.trans hstart,
      hcapacity'.trans hcapacity⟩
  · obtain ⟨area, next, hreserve, _, provides⟩ := policy 4 (by decide) (by decide)
    obtain ⟨hcapacity', hstart'⟩ := provides.front
      (by rw [hcapacity, hstart, hsize]; decide) (by rw [hcapacity, hsize]; decide)
    exact ⟨area, next, hreserve, UInt64.toNat_inj.mp provides.offered, hstart',
      hcapacity'.trans hcapacity⟩
  · obtain ⟨area, next, hreserve, _, provides⟩ := policy 6 (by decide) (fun _ => by decide)
    obtain ⟨hcapacity', hstart'⟩ := provides.fresh (by rw [hcapacity, hsize]; decide)
    refine ⟨area, next, hreserve, UInt64.toNat_inj.mp provides.offered, hstart',
      UInt64.toNat_inj.mp (hcapacity'.trans ?_)⟩
    rw [Buffer.prescribed, hsize, hcapacity, hlimit]
    rfl

end Reactor

end StreamParse
