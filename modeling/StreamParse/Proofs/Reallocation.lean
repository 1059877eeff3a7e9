import Mathlib.Algebra.Group.Nat.Defs
import StreamParse.Proofs.Allocation
import StreamParse.Proofs.Growth
import StreamParse.Proofs.Reactor.Limits

/-!
# How often a buffer is reallocated

A new allocation is at least twice the old one, or it is as large as the limit.  The step to the limit
need not double anything, but it is taken once: a buffer that has all that its limit allows never asks
for more.  So the capacity of a buffer whose limit stays as it is grows by a factor of two from one
new allocation to the next, with the first and the last of them left aside, and their number is at
most the logarithm of the limit and two.

What a command moves is decided by the placement that it chooses, so the placements of a history are
made visible first.
-/

namespace StreamParse

namespace Buffer

/-! ## The placements of a history -/

/-- The bytes that a command asks room for, if it asks for any. -/
def Command.wanted? : Command → Option UInt64
  | .reserve n _ => some n
  | .append bytes _ => some bytes.length.toUInt64
  | _ => none

section Histories

variable [Allocator]

/-- Where a command finds room, if it asks for room and is not refused. -/
def placed? (b : Buffer) (command : Command) : Option Placement :=
  command.wanted?.bind fun n => (b.placement (max n 1)).toOption

/-- The commands of a history, each with the buffer that it is given to. -/
def trail (b : Buffer) : List Command → List (Buffer × Command)
  | [] => []
  | command :: commands => (b, command) :: (b.step command).2.trail commands

/-- Whether a command moves the window to a new allocation. -/
def reallocates (b : Buffer) (command : Command) : Bool :=
  match b.placed? command with
  | some (.fresh _) => true
  | _ => false

/-- The number of new allocations in a history. -/
def reallocations (b : Buffer) (commands : List Command) : Nat :=
  (b.trail commands).countP fun given => given.1.reallocates given.2

theorem reallocations_cons (b : Buffer) (command : Command) (commands : List Command) :
    b.reallocations (command :: commands) =
      (b.step command).2.reallocations commands + if b.reallocates command then 1 else 0 :=
  List.countP_cons

theorem placed?_of_placement {b : Buffer} {command : Command} {n : UInt64} {placement : Placement}
    (hwanted : command.wanted? = some n) (hplacement : b.placement (max n 1) = .ok placement) :
    b.placed? command = some placement := by
  rw [placed?, hwanted, Option.bind_some, hplacement]
  rfl

theorem placed?_of_refused {b : Buffer} {command : Command} {n : UInt64} {fault : Fault}
    (hwanted : command.wanted? = some n) (hplacement : b.placement (max n 1) = .error fault) :
    b.placed? command = none := by
  rw [placed?, hwanted, Option.bind_some, hplacement]
  rfl

theorem placement_of_placed? {b : Buffer} {command : Command} {placement : Placement}
    (hplaced : b.placed? command = some placement) :
    ∃ n, b.placement n = .ok placement := by
  obtain ⟨n, _, hplacement⟩ := Option.bind_eq_some_iff.mp hplaced
  cases hchoice : b.placement (max n 1) with
  | error fault =>
      rw [hchoice] at hplacement
      cases hplacement
  | ok other =>
      rw [hchoice] at hplacement
      cases hplacement
      exact ⟨max n 1, hchoice⟩

/-! ## What a command does -/

/-- The effect of a command on a buffer, with the placement that it chooses.  A command that is refused
leaves the buffer as it is. -/
inductive Effect (b : Buffer) : Command → Option Placement → Buffer → Prop
  | refused (command : Command) : Effect b command none b
  | reserved {n : UInt64} {placement : Placement} (bytes : List UInt8)
      (hplacement : b.placement (max n 1) = .ok placement) :
      Effect b (.reserve n bytes) (some placement)
        ((b.place placement).fill
          ⟨(b.place placement).start + (b.place placement).size, max n 1⟩ bytes)
  | appended {bytes : List UInt8} {placement : Placement} (n : UInt64)
      (hplacement : b.placement (max bytes.length.toUInt64 1) = .ok placement) :
      Effect b (.append bytes n) (some placement)
        (((b.place placement).fill
          ⟨(b.place placement).start + (b.place placement).size, max bytes.length.toUInt64 1⟩
          bytes).commit n)
  | committed (n : UInt64) : Effect b (.commit n) none (b.commit n)
  | consumed {n : UInt64} (hle : n ≤ b.size) : Effect b (.consume n) none (b.discard n)
  | limited {limit : UInt64} (hle : b.size ≤ limit) :
      Effect b (.setLimit limit) none { b with limit }
  | cleared : Effect b .clear none b.clear

theorem step_effect (b : Buffer) (command : Command) :
    b.Effect command (b.placed? command) (b.step command).2 := by
  cases command with
  | reserve n bytes =>
      cases hplacement : b.placement (max n 1) with
      | error fault =>
          rw [placed?_of_refused rfl hplacement,
            step_of_error (perform_reserve_of_error (reserve_of_refused hplacement))]
          exact .refused _
      | ok placement =>
          rw [placed?_of_placement rfl hplacement,
            step_reserve_of_ok (reserve_of_placement hplacement)]
          exact .reserved bytes hplacement
  | append bytes n =>
      cases hplacement : b.placement (max bytes.length.toUInt64 1) with
      | error fault =>
          rw [placed?_of_refused rfl hplacement,
            step_of_error (perform_append_of_error (reserve_of_refused hplacement))]
          exact .refused _
      | ok placement =>
          rw [placed?_of_placement rfl hplacement,
            step_append_of_ok (reserve_of_placement hplacement)]
          exact .appended n hplacement
  | commit n => exact .committed n
  | consume n =>
      by_cases hpast : n > b.size
      · rw [step_of_error (perform_consume_of_gt hpast)]
        exact .refused _
      · rw [step_consume_of_le hpast]
        exact .consumed (UInt64.not_lt.mp hpast)
  | setLimit limit =>
      by_cases hbelow : limit < b.size
      · rw [step_of_error (perform_setLimit_of_lt hbelow)]
        exact .refused _
      · rw [step_setLimit_of_le hbelow]
        exact .limited (UInt64.not_lt.mp hbelow)
  | clear => exact .cleared

/-- A command has the capacity of the placement that it chooses. -/
theorem capacity_step (b : Buffer) (command : Command) :
    (b.step command).2.capacity =
      (b.placed? command).elim b.capacity fun placement => (b.place placement).capacity := by
  have effect := b.step_effect command
  generalize b.placed? command = placed?, (b.step command).2 = next at effect ⊢
  cases effect with
  | consumed hle => exact b.capacity_discard _
  | _ => rfl

/-! ## One new allocation -/

/-- A new allocation is larger than the old one and within the limit, and it is twice as large or all
that the limit allows. -/
theorem fresh_of_placed? {b : Buffer} {command : Command} {capacity : UInt64}
    (hplaced : b.placed? command = some (.fresh capacity)) :
    (b.step command).2.capacity = capacity ∧ b.capacity.toNat < capacity.toNat ∧
      capacity.toNat ≤ b.limit.toNat ∧
      (capacity = b.limit ∨ 2 * b.capacity.toNat ≤ capacity.toNat) := by
  obtain ⟨n, hplacement⟩ := placement_of_placed? hplaced
  obtain ⟨hlimit, rfl, _⟩ := placement_eq_ok hplacement
  have hsmall := lt_of_placement_fresh hplacement
  have hgrown := grownCapacity_eq hlimit
  have hstep : (b.step command).2.capacity = b.grownCapacity n := by
    rw [capacity_step, hplaced]
    rfl
  refine ⟨hstep, ?_, ?_, ?_⟩
  · exact Nat.lt_of_lt_of_le hsmall (size_add_le_grownCapacity hlimit)
  · rw [hgrown]
    split <;> omega
  · split at hgrown
    · exact .inl (UInt64.toNat_inj.mp hgrown)
    · right
      rw [hgrown]
      exact Nat.le_max_right _ _

/-- Every other command leaves the allocation as it is. -/
theorem capacity_step_of_not_reallocates {b : Buffer} {command : Command}
    (hnot : b.reallocates command = false) : (b.step command).2.capacity = b.capacity := by
  rw [reallocates] at hnot
  rw [capacity_step]
  split at hnot
  · cases hnot
  · next hother =>
    cases hplaced : b.placed? command with
    | none => rfl
    | some placement =>
        cases placement with
        | fresh capacity => exact absurd hplaced (hother capacity)
        | _ => rfl

theorem exists_fresh_of_reallocates {b : Buffer} {command : Command}
    (hreallocates : b.reallocates command = true) :
    ∃ capacity, b.placed? command = some (.fresh capacity) := by
  rw [reallocates] at hreallocates
  split at hreallocates
  · next capacity hplaced => exact ⟨capacity, hplaced⟩
  · cases hreallocates

/-- So a new allocation is seen, and nothing else changes the capacity. -/
theorem reallocates_iff {b : Buffer} {command : Command} :
    b.reallocates command = true ↔ (b.step command).2.capacity ≠ b.capacity := by
  constructor
  · intro hreallocates hsame
    obtain ⟨capacity, hplaced⟩ := exists_fresh_of_reallocates hreallocates
    obtain ⟨hcapacity, hgrows, _⟩ := fresh_of_placed? hplaced
    rw [← hcapacity, hsame] at hgrows
    exact Nat.lt_irrefl _ hgrows
  · intro hchanged
    cases hreallocates : b.reallocates command with
    | true => rfl
    | false => exact absurd (capacity_step_of_not_reallocates hreallocates) hchanged

/-! ## Histories under one limit -/

/-- The commands that do not set the limit. -/
def Command.keepsLimit : Command → Bool
  | .setLimit _ => false
  | _ => true

theorem limit_step {b : Buffer} {command : Command} (hkeeps : command.keepsLimit = true) :
    (b.step command).2.limit = b.limit := by
  have effect := b.step_effect command
  generalize b.placed? command = placed?, (b.step command).2 = next at effect ⊢
  cases effect with
  | reserved | appended => exact b.limit_place _
  | consumed hle => exact b.limit_discard _
  | limited hle => cases hkeeps
  | _ => rfl

/-- After so many new allocations under a limit the capacity has been doubled by each of them, the
first one aside, and aside from one more when it has come to the limit. -/
structure Geometric (limit : UInt64) (count : Nat) (b : Buffer) : Prop where
  limited : b.limit = limit
  roomy : b.Roomy
  reach : count ≠ 0 → 2 ^ count ≤ 4 * b.capacity.toNat
  pace : count ≠ 0 → b.capacity.toNat < limit.toNat → 2 ^ count ≤ 2 * b.capacity.toNat

omit [Allocator] in
theorem geometric_ofLimit (limit : UInt64) : Geometric limit 0 (ofLimit limit) where
  limited := rfl
  roomy := Nat.zero_le _
  reach := fun hne => absurd rfl hne
  pace := fun hne => absurd rfl hne

variable {limit : UInt64} {count : Nat} {b : Buffer}

theorem Geometric.step (geometric : Geometric limit count b) {command : Command}
    (hkeeps : command.keepsLimit = true) :
    Geometric limit (count + if b.reallocates command then 1 else 0) (b.step command).2 := by
  have hlimited : (b.step command).2.limit = limit := (limit_step hkeeps).trans geometric.limited
  have hreach := geometric.reach
  have hpace := geometric.pace
  cases hreallocates : b.reallocates command with
  | false =>
      have hcapacity := capacity_step_of_not_reallocates hreallocates
      have hroomy : (b.step command).2.Roomy := by
        rw [Roomy, hcapacity, limit_step hkeeps]
        exact geometric.roomy
      refine ⟨hlimited, hroomy, ?_, ?_⟩ <;> rw [hcapacity]
      · exact hreach
      · exact hpace
  | true =>
      obtain ⟨capacity, hplaced⟩ := exists_fresh_of_reallocates hreallocates
      obtain ⟨hcapacity, hgrows, hwithin, hdoubles⟩ := fresh_of_placed? hplaced
      have hroomy : (b.step command).2.Roomy := by
        rw [Roomy, hcapacity, limit_step hkeeps]
        exact hwithin
      rw [geometric.limited] at hwithin hdoubles
      -- There is only something to grow while the capacity is below the limit.
      have hslow : 2 ^ count ≤ 2 * b.capacity.toNat ∨ count = 0 := by
        by_cases hzero : count = 0
        · exact .inr hzero
        · exact .inl (hpace hzero (Nat.lt_of_lt_of_le hgrows hwithin))
      have hpower : 2 ^ (count + 1) = 2 * 2 ^ count := Nat.pow_succ'
      refine ⟨hlimited, hroomy, fun _ => ?_, fun _ hbelow => ?_⟩
      · rw [hcapacity]
        change 2 ^ (count + 1) ≤ _
        rcases hslow with hslow | rfl
        · omega
        · rw [hpower]
          omega
      · rw [hcapacity] at hbelow ⊢
        have hdouble : 2 * b.capacity.toNat ≤ capacity.toNat := by
          rcases hdoubles with rfl | hdouble
          · exact absurd hbelow (Nat.lt_irrefl _)
          · exact hdouble
        change 2 ^ (count + 1) ≤ _
        rcases hslow with hslow | rfl
        · omega
        · rw [hpower]
          omega

theorem Geometric.run (geometric : Geometric limit count b) {commands : List Command}
    (hkeeps : ∀ command ∈ commands, command.keepsLimit = true) :
    Geometric limit (count + b.reallocations commands) (b.run commands) := by
  induction commands generalizing b count with
  | nil => exact geometric
  | cons command commands ih =>
      have hstep := geometric.step (hkeeps command List.mem_cons_self)
      have hrest := ih hstep fun other hmem => hkeeps other (List.mem_cons_of_mem command hmem)
      rw [Nat.add_assoc, Nat.add_comm (ite _ _ _), ← reallocations_cons] at hrest
      exact hrest

/-- A capacity never decreases. -/
theorem capacity_le_step (command : Command) :
    b.capacity.toNat ≤ (b.step command).2.capacity.toNat := by
  cases hreallocates : b.reallocates command with
  | false =>
      have hsame := capacity_step_of_not_reallocates hreallocates
      exact Nat.le_of_eq (congrArg UInt64.toNat hsame.symm)
  | true =>
      obtain ⟨capacity, hplaced⟩ := exists_fresh_of_reallocates hreallocates
      obtain ⟨hcapacity, hgrows, _⟩ := fresh_of_placed? hplaced
      rw [hcapacity]
      exact Nat.le_of_lt hgrows

theorem capacity_le_run (b : Buffer) (commands : List Command) :
    b.capacity.toNat ≤ (b.run commands).capacity.toNat := by
  induction commands generalizing b with
  | nil => exact Nat.le_refl _
  | cons command commands ih => exact Nat.le_trans (capacity_le_step command) (ih _)

/-- A buffer that has all that its limit allows is not reallocated any more. -/
theorem reallocations_of_full (hfull : b.capacity = b.limit) {commands : List Command}
    (hkeeps : ∀ command ∈ commands, command.keepsLimit = true) : b.reallocations commands = 0 := by
  induction commands generalizing b with
  | nil => rfl
  | cons command commands ih =>
      have hnot : b.reallocates command = false := by
        rw [Bool.eq_false_iff]
        intro hreallocates
        obtain ⟨capacity, hplaced⟩ := exists_fresh_of_reallocates hreallocates
        obtain ⟨_, hgrows, hwithin, _⟩ := fresh_of_placed? hplaced
        rw [hfull] at hgrows
        exact absurd hgrows (Nat.not_lt.mpr hwithin)
      have hnext : (b.step command).2.capacity = (b.step command).2.limit := by
        rw [capacity_step_of_not_reallocates hnot, hfull,
          limit_step (hkeeps command List.mem_cons_self)]
      rw [reallocations_cons, hnot, ih hnext fun other hmem =>
        hkeeps other (List.mem_cons_of_mem command hmem)]
      rfl

/-- Through every history under one limit, refused commands included, a buffer's capacity stays within
the limit and never decreases.  It changes with each new allocation and at no other time, a new
allocation is twice the old one or the limit, and behind one that is the limit there is no other.  So
the capacity is at least two to the number of new allocations less two, and their number is at most
the logarithm of the limit and two. -/
theorem reallocations_geometric (limit : UInt64) {commands : List Command}
    (hkeeps : ∀ command ∈ commands, command.keepsLimit = true) :
    ((ofLimit limit).run commands).capacity ≤ limit ∧
    (∀ command,
      (((ofLimit limit).run commands).reallocates command = true ↔
        (((ofLimit limit).run commands).step command).2.capacity ≠
          ((ofLimit limit).run commands).capacity) ∧
      (((ofLimit limit).run commands).reallocates command = true →
        (((ofLimit limit).run commands).step command).2.capacity = limit ∨
          2 * ((ofLimit limit).run commands).capacity.toNat ≤
            (((ofLimit limit).run commands).step command).2.capacity.toNat)) ∧
    (∀ later : List Command,
      ((ofLimit limit).run commands).capacity ≤ ((ofLimit limit).run (commands ++ later)).capacity ∧
      (((ofLimit limit).run commands).capacity = limit →
        (∀ command ∈ later, command.keepsLimit = true) →
        ((ofLimit limit).run commands).reallocations later = 0)) ∧
    (2 ≤ (ofLimit limit).reallocations commands →
      2 ^ ((ofLimit limit).reallocations commands - 2) ≤
        ((ofLimit limit).run commands).capacity.toNat) ∧
    (ofLimit limit).reallocations commands ≤ limit.toNat.log2 + 2 := by
  have geometric := (geometric_ofLimit limit).run hkeeps
  rw [Nat.zero_add] at geometric
  have hlimited := geometric.limited
  have hwithin := geometric.roomy
  rw [Roomy, hlimited] at hwithin
  have hpower : 2 ≤ (ofLimit limit).reallocations commands →
      2 ^ ((ofLimit limit).reallocations commands - 2) ≤
        ((ofLimit limit).run commands).capacity.toNat := by
    intro htwo
    have hreach := geometric.reach (Nat.ne_of_gt (Nat.lt_of_lt_of_le Nat.two_pos htwo))
    obtain ⟨count, hcount⟩ := Nat.exists_eq_add_of_le htwo
    rw [hcount, Nat.pow_add] at hreach
    rw [hcount, Nat.add_sub_cancel_left]
    exact Nat.le_of_mul_le_mul_left hreach (by decide)
  refine ⟨UInt64.le_iff_toNat_le.mpr hwithin,
    fun command => ⟨reallocates_iff, fun hreallocates => ?_⟩,
    fun later => ⟨?_, fun hfull hlater => ?_⟩, hpower, ?_⟩
  · obtain ⟨capacity, hplaced⟩ := exists_fresh_of_reallocates hreallocates
    obtain ⟨hcapacity, _, _, hdoubles⟩ := fresh_of_placed? hplaced
    rw [hlimited] at hdoubles
    rw [hcapacity]
    exact hdoubles
  · rw [run_append]
    exact UInt64.le_iff_toNat_le.mpr (capacity_le_run _ later)
  · exact reallocations_of_full (hfull.trans hlimited.symm) hlater
  · by_cases htwo : 2 ≤ (ofLimit limit).reallocations commands
    · have hreached := Nat.le_trans (hpower htwo) hwithin
      have hne : limit.toNat ≠ 0 :=
        Nat.ne_of_gt (Nat.lt_of_lt_of_le (Nat.two_pow_pos _) hreached)
      have hlog := (Nat.le_log2 hne).mpr hreached
      omega
    · omega

end Histories

/-- Single bytes under an odd limit, with room reserved, refused and cleared in between. -/
def growing : List Command :=
  [.write [1], .reserve 0 [], .commit 9, .write [3], .reserve 30 [], .write [4, 5], .consume 1,
    .commit 0xffffffffffffffff, .consume 40, .write [6], .write [7], .reserve 2 [], .clear]

/-- Of its five new allocations the last one is the limit and not a double. -/
theorem growing_to_odd_limit_geometric :
    (ofLimit 11).reallocations growing = 5 ∧
      ((ofLimit 11).run growing).capacity = 11 ∧
      2 ^ ((ofLimit 11).reallocations growing - 2) ≤ 11 ∧
      (ofLimit 11).reallocations growing ≤ Nat.log2 11 + 2 := by
  have hkeeps : ∀ command ∈ growing, command.keepsLimit = true := by decide
  obtain ⟨_, _, _, hpower, hlog⟩ := reallocations_geometric 11 hkeeps
  have hcapacity : ((ofLimit 11).run growing).capacity = 11 := by decide
  rw [hcapacity] at hpower
  exact ⟨by decide, hcapacity, hpower (by decide), hlog⟩

end Buffer

end StreamParse
