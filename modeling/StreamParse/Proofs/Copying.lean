import StreamParse.Proofs.Reallocation

/-!
# How much is copied

The window is copied when it moves to a new allocation, and when it moves to the front of the one that
it has.  The first is paid for by the bytes that are written: capacities double, so all windows that
were ever carried to a new allocation have no more bytes together than the last allocation, and that
has at most twice the bytes that were written.

The second is not paid for.  The window moves to the front whenever the allocation is large enough as
a whole, however small the gap in front of the window is.  A window that fills its allocation, but for
the byte that was just consumed, moves as a whole for each byte that is written, so what is copied may
grow with the square of what is written.  It does not grow faster than that, and it grows in
proportion as long as no window moves over a gap that is smaller than itself: the bytes of the gap
were written once, and they pay for the move.
-/

namespace StreamParse

namespace Buffer

section Measures

variable [Allocator]

/-! ## What a history comes to -/

/-- The bytes that a command copies. -/
def copies (b : Buffer) (command : Command) : Nat :=
  (b.placed? command).elim 0 (Placement.moved b)

/-- The bytes that a command copies to a new allocation. -/
def carries (b : Buffer) (command : Command) : Nat :=
  if b.reallocates command then b.copies command else 0

/-- A window that moves to the front is no larger than the gap before it. -/
def Spares (b : Buffer) (command : Command) : Prop :=
  b.placed? command = some .front → b.size.toNat ≤ b.start.toNat

instance (b : Buffer) (command : Command) : Decidable (b.Spares command) :=
  inferInstanceAs (Decidable (_ → _))

/-- The sum of what is measured at each command of a history. -/
def tally (measure : Buffer → Command → Nat) (b : Buffer) (commands : List Command) : Nat :=
  (b.trail commands).foldr (fun given sum => measure given.1 given.2 + sum) 0

theorem tally_cons (measure : Buffer → Command → Nat) (b : Buffer) (command : Command)
    (commands : List Command) :
    tally measure b (command :: commands) =
      measure b command + tally measure (b.step command).2 commands := rfl

theorem tally_append (measure : Buffer → Command → Nat) (b : Buffer)
    (before after : List Command) :
    tally measure b (before ++ after) =
      tally measure b before + tally measure (b.run before) after := by
  induction before generalizing b with
  | nil => exact (Nat.zero_add _).symm
  | cons command before ih =>
      rw [List.cons_append, tally_cons, tally_cons, ih, Nat.add_assoc, run_cons]

/-- A command that writes one byte or more and commits them all, or one that consumes. -/
def Command.feeds : Command → Bool
  | .append bytes n => n == bytes.length.toUInt64 && n != 0
  | .consume _ => true
  | _ => false

/-! ## One command -/

/-- The buffer behind a write of `n` bytes that found room by a placement. -/
structure Wrote (b : Buffer) (placement : Placement) (n : UInt64) (next : Buffer) : Prop where
  valid : next.Valid
  start : next.start = (b.place placement).start
  size : next.size.toNat = b.size.toNat + n.toNat
  capacity : next.capacity = (b.place placement).capacity
  limit : next.limit = b.limit

/-- A write that finds room takes in all of its bytes. -/
theorem Valid.wrote {b : Buffer} (valid : b.Valid) {bytes : List UInt8} {n : UInt64}
    (hlength : bytes.length.toUInt64 = n) (hpos : 0 < n.toNat) {placement : Placement}
    (hplacement : b.placement n = .ok placement) :
    b.placed? (.append bytes n) = some placement ∧ b.taken (.append bytes n) = n.toNat ∧
      b.Wrote placement n (b.step (.append bytes n)).2 := by
  have hmax := max_one_of_pos hpos
  have hplacement' : b.placement (max n 1) = .ok placement := hmax.symm ▸ hplacement
  have hreserve := reserve_of_placement hplacement'
  obtain ⟨placed, hbehind, hinside⟩ := valid.reserve hreserve
  rw [hmax] at hreserve hbehind hinside
  have filled := placed.fill ⟨(b.place placement).start + (b.place placement).size, n⟩ bytes
  have hroom : min n.toNat (b.place placement).room.toNat = n.toNat := by
    rw [placed.toNat_room]
    change _ + n.toNat ≤ _ at hinside
    omega
  rw [← hlength] at hreserve
  refine ⟨placed?_of_placement (congrArg some hlength) hplacement', ?_, ?_⟩
  · rw [taken, hreserve]
    exact hroom
  · rw [step_append_of_ok hreserve]
    refine ⟨(placed.fill _ _).commit n, rfl, ?_, rfl, b.limit_place placement⟩
    rw [(placed.fill _ _).toNat_size_commit]
    change (b.place placement).size.toNat + min n.toNat (b.place placement).room.toNat = _
    rw [hroom, size_place]

/-- What a command that feeds does to a buffer: the placement that it chooses, the bytes that it adds,
and the buffer behind it. -/
inductive Feeding (b : Buffer) : Option Placement → Nat → Buffer → Prop
  | refused : Feeding b none 0 b
  | consumed (n : UInt64) : Feeding b none 0 (b.discard n)
  | written {n : UInt64} {placement : Placement} {next : Buffer} (hpos : 0 < n.toNat)
      (hplacement : b.placement n = .ok placement) (wrote : b.Wrote placement n next) :
      Feeding b (some placement) n.toNat next

theorem Valid.feeding {b : Buffer} (valid : b.Valid) {command : Command}
    (hfeeds : command.feeds = true) :
    b.Feeding (b.placed? command) (b.taken command) (b.step command).2 := by
  cases command with
  | append bytes n =>
      obtain ⟨hlength, hne⟩ := Bool.and_eq_true_iff.mp hfeeds
      have hlength : bytes.length.toUInt64 = n := (beq_iff_eq.mp hlength).symm
      have hpos : 0 < n.toNat := Nat.pos_of_ne_zero fun hzero =>
        bne_iff_ne.mp hne (UInt64.toNat_inj.mp hzero)
      cases hplacement : b.placement n with
      | error fault =>
          have hasks : (Command.append bytes n).wanted? = some n := congrArg some hlength
          have hplacement' : b.placement (max n 1) = .error fault :=
            (max_one_of_pos hpos).symm ▸ hplacement
          have hreserve := reserve_of_refused hplacement'
          rw [← hlength] at hreserve
          rw [placed?_of_refused hasks hplacement',
            step_of_error (perform_append_of_error hreserve), taken, hreserve]
          exact .refused
      | ok placement =>
          obtain ⟨hplaced, htaken, wrote⟩ := valid.wrote hlength hpos hplacement
          rw [hplaced, htaken]
          exact .written hpos hplacement wrote
  | consume n =>
      have effect := b.step_effect (.consume n)
      generalize b.placed? (.consume n) = placed?, (b.step (.consume n)).2 = next at effect ⊢
      cases effect with
      | refused => exact .refused
      | consumed hle => exact .consumed n
  | _ => cases hfeeds

end Measures

/-- The gap in front of the window and the window lose together what the window loses. -/
theorem Valid.end_discard_le {b : Buffer} (valid : b.Valid) (n : UInt64) :
    (b.discard n).start.toNat + (b.discard n).size.toNat ≤ b.start.toNat + b.size.toNat := by
  have hfits := valid.fits
  have hcapacity := b.capacity.toNat_lt
  rw [Buffer.discard]
  split
  · next hlt =>
    have hlt : n.toNat < b.size.toNat := UInt64.lt_iff_toNat_lt.mp hlt
    change (b.start + n).toNat + (b.size - n).toNat ≤ _
    rw [Word.toNat_add (by omega), Word.toNat_sub (Nat.le_of_lt hlt)]
    omega
  · exact Nat.zero_le _

/-! ## What is paid for -/

/-- A window of so many bytes is paid for by the growth of the square of what was appended. -/
theorem square_pays {moved appended n copied : Nat} (hmoved : moved ≤ appended) (hpos : 0 < n)
    (hcopied : 2 * copied ≤ appended * appended) :
    2 * (copied + moved) ≤ (appended + n) * (appended + n) := by
  have hleft : appended ≤ appended * n := Nat.le_mul_of_pos_right appended hpos
  have hright : appended ≤ n * appended := Nat.le_mul_of_pos_left appended hpos
  simp only [Nat.add_mul, Nat.mul_add]
  omega

/-- How a buffer stands after a history that has appended, carried to new allocations and copied so
many bytes.  An allocation that is all that the limit allows need not be a double, but it is the last
one. -/
structure Paid (appended carried copied : Nat) (b : Buffer) : Prop where
  valid : b.Valid
  held : b.start.toNat + b.size.toNat ≤ appended
  allocated : b.capacity.toNat ≤ 2 * appended
  carried_le : carried ≤ 2 * appended
  reserved : b.capacity.toNat < b.limit.toNat → carried ≤ b.capacity.toNat
  copied_le : 2 * copied ≤ appended * appended

theorem paid_unlimited : Paid 0 0 0 unlimited where
  valid := valid_unlimited
  held := Nat.le_refl _
  allocated := Nat.le_refl _
  carried_le := Nat.le_refl _
  reserved := fun _ => Nat.le_refl _
  copied_le := Nat.le_refl _

section Histories

variable [Allocator]

/-- A new allocation is the double, or what is needed, or all that the limit allows. -/
theorem capacity_of_placement_fresh {b : Buffer} {n capacity : UInt64}
    (hplacement : b.placement n = .ok (.fresh capacity)) :
    b.size.toNat + n.toNat ≤ b.limit.toNat ∧
      capacity.toNat ≤ max (b.size.toNat + n.toNat) (2 * b.capacity.toNat) ∧
      (capacity.toNat < b.limit.toNat →
        max (b.size.toNat + n.toNat) (2 * b.capacity.toNat) ≤ capacity.toNat) := by
  obtain ⟨hwithin, rfl, _⟩ := placement_eq_ok hplacement
  have hgrown := grownCapacity_eq hwithin
  rw [hgrown]
  split <;> omega

variable {b : Buffer} {appended carried copied : Nat}

theorem Paid.step (paid : Paid appended carried copied b) {command : Command}
    (hfeeds : command.feeds = true) :
    Paid (appended + b.taken command) (carried + b.carries command) (copied + b.copies command)
      (b.step command).2 := by
  have feeding := paid.valid.feeding hfeeds
  obtain ⟨valid, hheld, hallocated, hcarried, hreserved, hcopied⟩ := paid
  rw [carries, reallocates, copies]
  generalize b.placed? command = placed?, b.taken command = gained, (b.step command).2 = next
    at feeding ⊢
  cases feeding with
  | refused => exact ⟨valid, hheld, hallocated, hcarried, hreserved, hcopied⟩
  | consumed n =>
      have hend := valid.end_discard_le n
      refine ⟨valid.discard n, Nat.le_trans hend hheld, ?_, hcarried, ?_, hcopied⟩
      · rw [capacity_discard]
        exact hallocated
      · rw [capacity_discard, limit_discard]
        exact hreserved
  | @written n placement _ hpos hplacement wrote =>
      have hstart := congrArg UInt64.toNat wrote.start
      have hcapacity := congrArg UInt64.toNat wrote.capacity
      have hsize := wrote.size
      have hfits := valid.fits
      have hmoved : placement.moved b ≤ b.size.toNat := by
        cases placement with
        | behind => exact Nat.zero_le _
        | _ => exact Nat.le_refl _
      have hsquare : 2 * (copied + placement.moved b) ≤
          (appended + n.toNat) * (appended + n.toNat) :=
        square_pays (Nat.le_trans hmoved (Nat.le_of_add_left_le hheld)) hpos hcopied
      cases placement with
      | behind =>
          change next.start.toNat = b.start.toNat at hstart
          change next.capacity.toNat = b.capacity.toNat at hcapacity
          refine ⟨wrote.valid, ?_, ?_, Nat.le_trans hcarried ?_, ?_, hsquare⟩
          · omega
          · omega
          · omega
          · rw [hcapacity, wrote.limit]
            exact hreserved
      | front =>
          change next.start.toNat = 0 at hstart
          change next.capacity.toNat = b.capacity.toNat at hcapacity
          refine ⟨wrote.valid, ?_, ?_, Nat.le_trans hcarried ?_, ?_, hsquare⟩
          · omega
          · omega
          · omega
          · rw [hcapacity, wrote.limit]
            exact hreserved
      | fresh capacity =>
          change next.start.toNat = 0 at hstart
          change next.capacity.toNat = capacity.toNat at hcapacity
          have hsmall := lt_of_placement_fresh hplacement
          obtain ⟨hwithin, hgrown, hdouble⟩ := capacity_of_placement_fresh hplacement
          have hcarried' := hreserved (Nat.lt_of_lt_of_le hsmall hwithin)
          refine ⟨wrote.valid, ?_, ?_, ?_, fun hbelow => ?_, hsquare⟩
          · omega
          · omega
          · change carried + b.size.toNat ≤ _
            omega
          · rw [hcapacity, wrote.limit] at hbelow
            have hgrown' := hdouble hbelow
            change carried + b.size.toNat ≤ _
            omega

theorem Paid.run (paid : Paid appended carried copied b) {commands : List Command}
    (hfeeds : ∀ command ∈ commands, command.feeds = true) :
    Paid (appended + tally taken b commands) (carried + tally carries b commands)
      (copied + tally copies b commands) (b.run commands) := by
  induction commands generalizing b appended carried copied with
  | nil => exact paid
  | cons command commands ih =>
      have hstep := paid.step (hfeeds command List.mem_cons_self)
      have hrest := ih hstep fun other hmem => hfeeds other (List.mem_cons_of_mem command hmem)
      rw [Nat.add_assoc, Nat.add_assoc, Nat.add_assoc] at hrest
      exact hrest

/-- Where every window that moves to the front spares its gap, the bytes that were ever in front of a
window pay for what moved there. -/
theorem spared_step (valid : b.Valid) {command : Command} (hfeeds : command.feeds = true)
    (spares : b.Spares command)
    (hspared : copied + (b.start.toNat + b.size.toNat) ≤ appended + carried) :
    copied + b.copies command +
        ((b.step command).2.start.toNat + (b.step command).2.size.toNat) ≤
      appended + b.taken command + (carried + b.carries command) := by
  have feeding := valid.feeding hfeeds
  rw [Spares] at spares
  rw [carries, reallocates, copies]
  generalize b.placed? command = placed?, b.taken command = gained, (b.step command).2 = next
    at feeding spares ⊢
  cases feeding with
  | refused => exact hspared
  | consumed n =>
      have hend := valid.end_discard_le n
      change copied + _ ≤ appended + carried
      omega
  | @written n placement _ hpos hplacement wrote =>
      have hstart := congrArg UInt64.toNat wrote.start
      have hsize := wrote.size
      cases placement with
      | behind =>
          change next.start.toNat = b.start.toNat at hstart
          change copied + _ ≤ appended + n.toNat + carried
          omega
      | front =>
          change next.start.toNat = 0 at hstart
          have hgap := spares rfl
          change copied + b.size.toNat + _ ≤ appended + n.toNat + carried
          omega
      | fresh capacity =>
          change next.start.toNat = 0 at hstart
          change copied + b.size.toNat + _ ≤ appended + n.toNat + (carried + b.size.toNat)
          omega

theorem spared_run (valid : b.Valid) {commands : List Command}
    (hfeeds : ∀ command ∈ commands, command.feeds = true)
    (spares : ∀ given ∈ b.trail commands, given.1.Spares given.2)
    (hspared : copied + (b.start.toNat + b.size.toNat) ≤ appended + carried) :
    copied + tally copies b commands ≤
      appended + tally taken b commands + (carried + tally carries b commands) := by
  induction commands generalizing b appended carried copied with
  | nil => exact Nat.le_of_add_right_le hspared
  | cons command commands ih =>
      have hstep := spared_step valid (hfeeds command List.mem_cons_self)
        (spares _ List.mem_cons_self) hspared
      have hrest := ih (valid.step command)
        (fun other hmem => hfeeds other (List.mem_cons_of_mem command hmem))
        (fun given hmem => spares given (List.mem_cons_of_mem _ hmem)) hstep
      rw [tally_cons, tally_cons, tally_cons]
      omega

/-- Through every history of writes and consumptions of a new buffer without a limit, what is carried
to new allocations is at most twice what is appended, and all that is copied is at most half of the
square of it.  It is at most three times what is appended if no window moves over a gap that is
smaller than itself. -/
theorem copying_within {commands : List Command}
    (hfeeds : ∀ command ∈ commands, command.feeds = true) :
    tally carries unlimited commands ≤ 2 * tally taken unlimited commands ∧
    2 * tally copies unlimited commands ≤
      tally taken unlimited commands * tally taken unlimited commands ∧
    ((∀ given ∈ unlimited.trail commands, given.1.Spares given.2) →
      tally copies unlimited commands ≤ 3 * tally taken unlimited commands) := by
  have paid := paid_unlimited.run hfeeds
  rw [Nat.zero_add, Nat.zero_add, Nat.zero_add] at paid
  refine ⟨paid.carried_le, paid.copied_le, fun spares => ?_⟩
  have hempty : 0 + (unlimited.start.toNat + unlimited.size.toNat) ≤ 0 + 0 := Nat.le_refl _
  have hspared := spared_run valid_unlimited hfeeds spares hempty
  rw [Nat.zero_add, Nat.zero_add, Nat.zero_add] at hspared
  have hcarried := paid.carried_le
  omega

end Histories

/-- Four bytes are written, and the window moves to the front once two are consumed. -/
def writesAndConsumes : List Command :=
  [.write [1, 2, 3, 4], .consume 2, .write [5, 6], .consume 2, .write [7], .consume 2,
    .write [8, 9, 10, 11]]

theorem writes_and_consumes_copy_within :
    tally copies unlimited writesAndConsumes = 5 ∧ tally taken unlimited writesAndConsumes = 11 ∧
      tally carries unlimited writesAndConsumes ≤ 2 * 11 ∧
      tally copies unlimited writesAndConsumes ≤ 3 * 11 := by
  have hfeeds : ∀ command ∈ writesAndConsumes, command.feeds = true := by decide
  have htaken : tally taken unlimited writesAndConsumes = 11 := by decide
  obtain ⟨hcarried, _, hspared⟩ := copying_within hfeeds
  rw [htaken] at hcarried hspared
  exact ⟨by decide, htaken, hcarried, hspared (by decide)⟩

/-! ## What is not paid for -/

/-- A window that fills its allocation, right from its front. -/
structure Brimful (size : Nat) (b : Buffer) : Prop where
  limit : b.limit = unlimited.limit
  start : b.start.toNat = 0
  size_eq : b.size.toNat = size
  capacity : b.capacity.toNat = size

/-- One byte is consumed, and one is written. -/
def slide : List Command := [.consume 1, .write [0]]

/-- A window is filled, and then it slides as often as it has bytes. -/
def fillAndSlide (size : Nat) : List Command :=
  .write (List.replicate size 0) :: (List.replicate size slide).flatten

variable {b : Buffer} {size : Nat}

theorem Brimful.valid (brimful : Brimful size b) (hsize : 2 ≤ size) : b.Valid where
  fits := by
    rw [brimful.start, brimful.size_eq, brimful.capacity]
    omega
  origin := by
    intro hempty
    have hzero := brimful.size_eq
    rw [hempty] at hzero
    change 0 = size at hzero
    omega

theorem fillAndSlide_feeds (hsize : 2 ≤ size) (hword : size < 2 ^ 64) :
    ∀ command ∈ fillAndSlide size, command.feeds = true := by
  intro command hmem
  rcases List.mem_cons.mp hmem with rfl | hmem
  · have hword : size.toUInt64.toNat = size := Word.toNat_ofNat hword
    have hne : size.toUInt64 ≠ 0 := by
      intro hzero
      rw [hzero] at hword
      change 0 = size at hword
      omega
    rw [Command.write, List.length_replicate, Command.feeds, List.length_replicate]
    exact Bool.and_eq_true_iff.mpr ⟨beq_self_eq_true _, bne_iff_ne.mpr hne⟩
  · obtain ⟨round, hround, hcommand⟩ := List.mem_flatten.mp hmem
    rw [List.eq_of_mem_replicate hround] at hcommand
    have hfeeds : ∀ command ∈ slide, command.feeds = true := by decide
    exact hfeeds command hcommand

section Sliding

variable [Allocator]

/-- One byte less leaves a gap of one byte. -/
theorem Brimful.discard (brimful : Brimful size b) (hsize : 2 ≤ size) :
    (b.step (.consume 1)).2 = b.discard 1 ∧ (b.discard 1).start.toNat = 1 ∧
      (b.discard 1).size.toNat = size - 1 ∧ (b.discard 1).capacity.toNat = size := by
  obtain ⟨_, hstart, hsize', hcapacity⟩ := brimful
  have hone : (1 : UInt64) < b.size := by
    rw [UInt64.lt_iff_toNat_lt, hsize']
    exact hsize
  refine ⟨step_consume_of_le (UInt64.not_lt.mpr (UInt64.le_of_lt hone)), ?_, ?_, ?_⟩
  · rw [Buffer.discard, if_pos hone]
    change (b.start + 1).toNat = 1
    rw [Word.toNat_add (by rw [hstart]; decide), hstart]
    rfl
  · rw [Buffer.discard, if_pos hone]
    change (b.size - 1).toNat = size - 1
    rw [Word.toNat_sub (Nat.le_of_lt (UInt64.lt_iff_toNat_lt.mp hone)), hsize']
    rfl
  · rw [capacity_discard, hcapacity]

/-- There is no room for a byte behind what is left, but there is in the allocation as a whole. -/
theorem Brimful.placement (brimful : Brimful size b) (hsize : 2 ≤ size) :
    (b.discard 1).placement 1 = .ok .front := by
  obtain ⟨_, hstart, hleft, hcapacity⟩ := brimful.discard hsize
  have hlimit := (b.limit_discard 1).trans brimful.limit
  have hbound := (b.discard 1).capacity.toNat_lt
  rw [hcapacity] at hbound
  rw [((brimful.valid hsize).discard 1).placement_eq_policy, if_neg, if_pos]
  · rw [hleft, hcapacity]
    change size - 1 + 1 ≤ size
    omega
  · rw [hstart, hleft, hcapacity]
    change ¬ 1 ≤ size - (1 + (size - 1))
    omega
  · rw [hlimit, hleft]
    change size - 1 + 1 ≤ 18446744073709551615
    omega

/-- So the gap of one byte has the rest of the window moved over it. -/
theorem Brimful.slide (brimful : Brimful size b) (hsize : 2 ≤ size) :
    tally copies b slide = size - 1 ∧ tally taken b slide = 1 ∧ Brimful size (b.run slide) := by
  obtain ⟨hconsume, _, hleft, hcapacity⟩ := brimful.discard hsize
  have hlength : [(0 : UInt8)].length.toUInt64 = 1 := rfl
  obtain ⟨hplaced, htaken, wrote⟩ :=
    ((brimful.valid hsize).discard 1).wrote hlength Nat.one_pos (brimful.placement hsize)
  have hcopies : (b.discard 1).copies (.write [0]) = size - 1 := by
    rw [copies, show (b.discard 1).placed? (.write [0]) = some .front from hplaced]
    exact hleft
  have htakes : (b.discard 1).taken (.write [0]) = 1 := htaken
  refine ⟨?_, ?_, ?_⟩
  · rw [Buffer.slide, tally_cons, hconsume, tally_cons, hcopies]
    exact Nat.zero_add _
  · rw [Buffer.slide, tally_cons, hconsume, tally_cons, htakes]
    rfl
  · rw [Buffer.slide, run_cons, hconsume, run_cons, run_nil]
    refine ⟨wrote.limit.trans ((b.limit_discard 1).trans brimful.limit),
      congrArg UInt64.toNat wrote.start, ?_, (congrArg UInt64.toNat wrote.capacity).trans hcapacity⟩
    rw [show ((b.discard 1).step (.write [0])).2.size.toNat = _ from wrote.size, hleft]
    change size - 1 + 1 = size
    omega

theorem Brimful.slides (brimful : Brimful size b) (hsize : 2 ≤ size) (rounds : Nat) :
    tally copies b (List.replicate rounds Buffer.slide).flatten = rounds * (size - 1) ∧
      tally taken b (List.replicate rounds Buffer.slide).flatten = rounds := by
  induction rounds generalizing b with
  | zero => exact ⟨(Nat.zero_mul _).symm, rfl⟩
  | succ rounds ih =>
      obtain ⟨hcopies, htaken, next⟩ := brimful.slide hsize
      obtain ⟨hcopies', htaken'⟩ := ih next
      rw [List.replicate_succ, List.flatten_cons, tally_append, tally_append, hcopies, htaken,
        hcopies', htaken', Nat.succ_mul]
      exact ⟨Nat.add_comm _ _, Nat.add_comm _ _⟩

/-- The first write has an allocation made that is just as large. -/
theorem brimful_write (hsize : 2 ≤ size) (hword : size < 2 ^ 64)
    (hgranted : Allocator.grants size = true) :
    unlimited.copies (.write (List.replicate size 0)) = 0 ∧
      unlimited.taken (.write (List.replicate size 0)) = size ∧
      Brimful size (unlimited.step (.write (List.replicate size 0))).2 := by
  have hword : size.toUInt64.toNat = size := Word.toNat_ofNat hword
  have hlimit : unlimited.size.toNat + size.toUInt64.toNat ≤ unlimited.limit.toNat := by
    rw [hword]
    change 0 + size ≤ 18446744073709551615
    omega
  have hprescribed : unlimited.prescribed size.toUInt64.toNat = size := by
    rw [hword]
    change min (max (0 + size) (2 * 0)) 18446744073709551615 = size
    omega
  have hplacement : unlimited.placement size.toUInt64 =
      .ok (.fresh (unlimited.grownCapacity size.toUInt64)) := by
    rw [valid_unlimited.placement_eq_policy hlimit, hprescribed, hword, if_neg, if_neg, if_pos]
    · exact hgranted
    · change ¬ 0 + size ≤ 0
      omega
    · change ¬ size ≤ 0 - (0 + 0)
      omega
  have hlength : (List.replicate size (0 : UInt8)).length.toUInt64 = size.toUInt64 := by
    rw [List.length_replicate]
  obtain ⟨hplaced, htaken, wrote⟩ := valid_unlimited.wrote hlength (by omega) hplacement
  rw [Command.write, hlength]
  refine ⟨?_, htaken.trans hword, wrote.limit, congrArg UInt64.toNat wrote.start, ?_, ?_⟩
  · rw [copies, hplaced]
    rfl
  · rw [wrote.size, hword]
    exact Nat.zero_add size
  · rw [wrote.capacity]
    change (unlimited.grownCapacity size.toUInt64).toNat = size
    rw [toNat_grownCapacity_eq_prescribed hlimit, hprescribed]

/-- To slide a window copies nearly all of it for every byte that is written. -/
theorem fillAndSlide_copies (hsize : 2 ≤ size) (hword : size < 2 ^ 64)
    (hgranted : Allocator.grants size = true) :
    tally copies unlimited (fillAndSlide size) = size * (size - 1) ∧
      tally taken unlimited (fillAndSlide size) = 2 * size := by
  obtain ⟨hcopies, htaken, brimful⟩ := brimful_write hsize hword hgranted
  obtain ⟨hcopies', htaken'⟩ := brimful.slides hsize size
  rw [fillAndSlide, tally_cons, tally_cons, hcopies, htaken, hcopies', htaken', Nat.two_mul]
  exact ⟨Nat.zero_add _, rfl⟩

end Sliding

/-- What is copied is not in proportion to what is appended, at any rate below a quarter of the least
allocation that no machine grants.  Every window is smaller than that allocation, so a rate as large
as it would bound whatever a write can copy. -/
theorem copying_not_linear :
    ¬ ∃ rate, rate < 0x400000000000000 ∧
      ∀ commands : List Command, (∀ command ∈ commands, command.feeds = true) →
        tally copies unlimited commands ≤ rate * tally taken unlimited commands := by
  rintro ⟨rate, hrate, hlinear⟩
  have hsize : 2 ≤ 2 * rate + 2 := Nat.le_add_left _ _
  have hobtainable : 2 * rate + 2 < Allocator.unobtainable := by
    change _ < 0x1000000000000000
    omega
  have hword : 2 * rate + 2 < 2 ^ 64 := Nat.lt_trans hobtainable (by decide)
  obtain ⟨hcopies, htaken⟩ := fillAndSlide_copies hsize hword (decide_eq_true hobtainable)
  have hle := hlinear _ (fillAndSlide_feeds hsize hword)
  rw [hcopies, htaken] at hle
  have hless : rate * (2 * (2 * rate + 2)) < (2 * rate + 2) * (2 * rate + 2 - 1) := by
    calc
      rate * (2 * (2 * rate + 2)) = (2 * rate + 2) * (2 * rate) := by
        rw [← Nat.mul_assoc, Nat.mul_comm, Nat.mul_comm rate]
      _ < (2 * rate + 2) * (2 * rate + 2 - 1) :=
        Nat.mul_lt_mul_of_pos_left (by omega) (Nat.succ_pos _)
  exact absurd hle (Nat.not_le.mpr hless)

end Buffer

end StreamParse
