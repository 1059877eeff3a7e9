import Mathlib.Algebra.Group.Nat.Defs
import StreamParse.Parser.Scripted
import StreamParse.Proofs.Course

/-!
# How far an allocation runs ahead

A parse that begins with an empty buffer and without a limit allocates before it reads, so there is
always more storage than bytes.  How much more is decided by what the reads ask for.  No turn more
than doubles what the read size, the default read size and the capacity come to, so the allocation
is at most doubled by each read.  Where no hint goes beyond the bytes of the window, or beyond what
a read asks for anyway, the allocation stays within four times the bytes that were received.

A larger hint reaches as far as the capacity, and the capacity is not bounded by the bytes: a source
that gives one byte at a time makes every read double the allocation.
-/

namespace StreamParse

/-- The bytes that a read may ask for whatever was received. -/
def baseSize (readSize : UInt64) : Nat := max readSize.toNat defaultReadSize.toNat

/-- A parser whose hints stay within the bytes that it was shown, and within what a read asks for
anyway. -/
def Parser.Modest {ν ε : Type} (parser : Parser ν ε) (readSize : UInt64) : Prop :=
  ∀ window missing, parser window = .more (some missing) →
    missing ≤ max (baseSize readSize) window.length

namespace Buffer

/-! ## What a read asks for -/

theorem appetite_some (b : Buffer) (missing : Nat) (readSize : UInt64) :
    (b.appetite (some missing) readSize).toNat =
      max readSize.toNat (min missing (max (baseSize readSize) b.capacity.toNat)) := by
  have hreach : (b.hintReach readSize).toNat = max (baseSize readSize) b.capacity.toNat := by
    rw [hintReach, Word.toNat_max, Word.toNat_max, baseSize, Nat.max_assoc]
  have hword : min missing (b.hintReach readSize).toNat < 2 ^ 64 :=
    Nat.lt_of_le_of_lt (Nat.min_le_right _ _) (b.hintReach readSize).toNat_lt
  change (max readSize (min missing (b.hintReach readSize).toNat).toUInt64).toNat = _
  rw [Word.toNat_max, Word.toNat_ofNat hword, hreach]

/-- No read asks for more than the base size, or the capacity where that is larger. -/
theorem appetite_le (b : Buffer) (hint : Option Nat) (readSize : UInt64) :
    (b.appetite hint readSize).toNat ≤ max (baseSize readSize) b.capacity.toNat := by
  have hbase : readSize.toNat ≤ baseSize readSize := Nat.le_max_left _ _
  cases hint with
  | none => exact Nat.le_trans hbase (Nat.le_max_left _ _)
  | some missing =>
      rw [appetite_some]
      omega

/-- Nor does one ask for more than the hint, or the read size where that is larger. -/
theorem appetite_le_hint (b : Buffer) (missing : Nat) (readSize : UInt64) :
    (b.appetite (some missing) readSize).toNat ≤ max readSize.toNat missing := by
  rw [appetite_some]
  omega

/-- What is reserved for a read is no more than the read asks for. -/
theorem reserved_le_appetite (b : Buffer) (hint : Option Nat) {readSize : UInt64}
    (hread : readSize ≠ 0) :
    (max (b.nextRead hint readSize) 1).toNat ≤ (b.appetite hint readSize).toNat := by
  have hpos : readSize.toNat ≠ 0 := fun hzero => hread (UInt64.toNat_inj.mp hzero)
  have happetite := b.readSize_le_appetite hint readSize
  rw [Word.toNat_max, toNat_nextRead]
  change max _ 1 ≤ _
  omega

/-! ## What a turn allocates -/

/-- A new allocation is only made where the old one is too small. -/
theorem lt_of_placement_fresh [Allocator] {b : Buffer} {n capacity : UInt64}
    (h : b.placement n = .ok (.fresh capacity)) :
    b.capacity.toNat < b.size.toNat + n.toNat := by
  have hlimit := (placement_eq_ok h).1
  have hbound := b.limit.toNat_lt
  rw [placement] at h
  split at h
  · cases h
  · split at h
    · cases h
    · split at h
      · cases h
      · next hfront =>
        have hfront := UInt64.lt_iff_toNat_lt.mp (UInt64.not_le.mp hfront)
        rwa [Word.toNat_add (by omega)] at hfront

/-- A buffer that was empty and without a limit, and from which nothing has been consumed. -/
structure Filling (b : Buffer) : Prop where
  valid : b.Valid
  start : b.start = 0
  limit : b.limit = unlimited.limit

theorem filling_unlimited : unlimited.Filling := ⟨valid_unlimited, rfl, rfl⟩

variable [Allocator]

/-- Room is there already, or it is got by an allocation of at most twice the old one, or of just what
is needed where that is more. -/
theorem Filling.reserve {b b' : Buffer} {n : UInt64} {area : Area} (filling : b.Filling)
    (h : b.reserve n = .ok (area, b')) :
    b'.Filling ∧
      (b'.capacity = b.capacity ∨
        b.capacity.toNat < b.size.toNat + (max n 1).toNat ∧
          b'.capacity.toNat ≤
            max (b.size.toNat + (max n 1).toNat) (2 * b.capacity.toNat)) := by
  have valid' := (filling.valid.reserve h).1
  obtain ⟨placement, hplacement, rfl, rfl⟩ := reserve_eq_ok h
  obtain ⟨hlimit, hplaced⟩ := placement_eq_ok hplacement
  cases placement with
  | behind => exact ⟨⟨valid', filling.start, filling.limit⟩, .inl rfl⟩
  | front => exact ⟨⟨valid', rfl, filling.limit⟩, .inl rfl⟩
  | fresh capacity =>
      obtain ⟨rfl, _⟩ := hplaced
      refine ⟨⟨valid', rfl, filling.limit⟩, .inr ⟨lt_of_placement_fresh hplacement, ?_⟩⟩
      change (b.grownCapacity (max n 1)).toNat ≤ _
      rw [grownCapacity_eq hlimit]
      split
      · -- The limit is the largest word, which is less than twice what is more than half of it.
        exact Nat.le_trans (by omega) (Nat.le_max_right _ _)
      · exact Nat.le_refl _

variable {ν ε : Type}

/-- A turn leaves the capacity as it was, or makes an allocation for what the next read asks for. -/
theorem Filling.turn {b : Buffer} (filling : b.Filling) {readSize : UInt64}
    (hread : readSize ≠ 0) (outcome : Outcome ν ε) :
    (b.turn readSize outcome).2.capacity = b.capacity ∨
      ∃ hint amount, outcome = .more hint ∧ amount ≤ (b.appetite hint readSize).toNat ∧
        b.capacity.toNat < b.size.toNat + amount ∧
        (b.turn readSize outcome).2.capacity.toNat ≤
          max (b.size.toNat + amount) (2 * b.capacity.toNat) := by
  have hleads := b.leads hread outcome
  generalize b.turn readSize outcome = turned at hleads
  obtain ⟨turn, next⟩ := turned
  cases hleads with
  | @value value used _ =>
      left
      change (b.discard used.toUInt64).capacity = b.capacity
      exact b.capacity_discard _
  | @reads hint area next _ hreserve =>
      rcases (filling.reserve hreserve).2 with hsame | ⟨hless, hgrown⟩
      · exact .inl hsame
      · exact .inr ⟨hint, _, rfl, b.reserved_le_appetite hint hread, hless, hgrown⟩
  | _ => exact .inl rfl

/-- When so many reads are done, the capacity has been doubled no more often than that. -/
def Doubled (readSize : UInt64) (reads : Nat) (b : Buffer) : Prop :=
  2 * b.capacity.toNat ≤ 2 ^ reads * baseSize readSize ∧ (reads = 0 → b.capacity = 0)

theorem Doubled.turn {b : Buffer} {readSize : UInt64} {reads : Nat} (filling : b.Filling)
    (hread : readSize ≠ 0) (doubled : Doubled readSize reads b) (outcome : Outcome ν ε) :
    (b.turn readSize outcome).2.capacity.toNat ≤ 2 ^ reads * baseSize readSize := by
  obtain ⟨hcapacity, hfirst⟩ := doubled
  rcases filling.turn hread outcome with hsame | ⟨hint, amount, _, hamount, _, hgrown⟩
  · rw [hsame]
    omega
  · have happetite := b.appetite_le hint readSize
    have hsize : b.size.toNat ≤ b.capacity.toNat :=
      Nat.le_trans (Nat.le_add_left _ _) filling.valid.fits
    refine Nat.le_trans hgrown ?_
    cases reads with
    | zero =>
        have hempty : b.capacity.toNat = 0 := by rw [hfirst rfl]; rfl
        omega
    | succ reads =>
        rw [Nat.pow_succ, Nat.mul_comm _ 2, Nat.mul_assoc] at hcapacity ⊢
        have hbase : baseSize readSize ≤ 2 ^ reads * baseSize readSize :=
          Nat.le_mul_of_pos_left _ (Nat.two_pow_pos reads)
        omega

/-- The capacity stays within four times what was received. -/
def Near (readSize : UInt64) (b : Buffer) : Prop :=
  b.capacity.toNat ≤ 4 * max (baseSize readSize) b.size.toNat

theorem Near.turn {b : Buffer} {readSize : UInt64} {parser : Parser ν ε} (filling : b.Filling)
    (hread : readSize ≠ 0) (modest : parser.Modest readSize) (near : Near readSize b) :
    (b.turn readSize (parser b.window)).2.capacity.toNat ≤
      4 * max (baseSize readSize) b.size.toNat := by
  rcases filling.turn hread (parser b.window) with
    hsame | ⟨hint, amount, houtcome, hamount, hless, hgrown⟩
  · rw [hsame]
    exact near
  · have hbase : readSize.toNat ≤ baseSize readSize := Nat.le_max_left _ _
    have hwanted : amount ≤ max (baseSize readSize) b.size.toNat := by
      cases hint with
      | none => exact Nat.le_trans (Nat.le_trans hamount hbase) (Nat.le_max_left _ _)
      | some missing =>
          have hmodest := modest b.window missing houtcome
          have hhint := b.appetite_le_hint missing readSize
          rw [length_window] at hmodest
          omega
    omega

end Buffer

namespace Event

variable {ν ε : Type}

theorem received_append (before after : List (Event ν ε)) :
    received (before ++ after) = received before ++ received after := by
  simp [received, deliveries]

theorem length_deliveries_append (before after : List (Event ν ε)) :
    (deliveries (before ++ after)).length =
      (deliveries before).length + (deliveries after).length := by
  simp [deliveries]

/-- A look of a transcript that begins with a look and a read is the first one, or it comes after
the read. -/
theorem look_of_split {first last : Buffer} {outcome outcome' : Outcome ν ε}
    {delivery : Delivery} {events before after : List (Event ν ε)}
    (hsplit : .look first outcome :: .read delivery :: events =
      before ++ .look last outcome' :: after) :
    (before = [] ∧ first = last ∧ outcome = outcome') ∨
      ∃ rest, before = [.look first outcome, .read delivery] ++ rest ∧
        events = rest ++ .look last outcome' :: after := by
  match before with
  | [] =>
      cases hsplit
      exact .inl ⟨rfl, rfl, rfl⟩
  | [_] => simp at hsplit
  | _ :: _ :: rest =>
      simp only [List.cons_append, List.cons.injEq] at hsplit
      obtain ⟨rfl, rfl, hrest⟩ := hsplit
      exact .inr ⟨rest, rfl, hrest⟩

end Event

namespace Feed

variable {ν ε : Type} {parser : Parser ν ε} {readSize : UInt64}

/-! ## From look to look -/

section Allocations

variable [Allocator]

section Looks

variable {motive : List (Event ν ε) → Feed → Prop}
variable (hreads : ∀ {past feed delivery next}, motive past feed →
  Reads parser readSize feed delivery next →
  motive (past ++ [.look feed.buffer (parser feed.buffer.window), .read delivery]) next)

include hreads

/-- What holds at the first look, and is carried by each read to the next, holds at every look of a
parse. -/
theorem parseWithin_looks (turns : Nat) {past : List (Event ν ε)} {feed : Feed}
    (hfeed : motive past feed) {before after : List (Event ν ε)} {buffer : Buffer}
    {outcome : Outcome ν ε}
    (hsplit : (parseWithin parser readSize turns feed).transcript =
      before ++ .look buffer outcome :: after) :
    outcome = parser buffer.window ∧ ∃ source, motive (past ++ before) { source, buffer } := by
  induction turns generalizing past feed before with
  | zero => simp [parseWithin] at hsplit
  | succ turns ih =>
      rcases hturn : feed.buffer.turn readSize (parser feed.buffer.window) with ⟨turn, next⟩
      cases turn with
      | ended answer =>
          rw [parseWithin_ended turns hturn] at hsplit
          cases before with
          | nil =>
              cases hsplit
              rw [List.append_nil]
              exact ⟨rfl, feed.source, hfeed⟩
          | cons event before => simp at hsplit
      | reads area =>
          have hnext := hreads hfeed (.intro hturn)
          cases hfailed : (receive { feed with buffer := next } area).1.code.failed with
          | true =>
              rw [parseWithin_failed turns hturn hfailed] at hsplit
              rcases Event.look_of_split hsplit with ⟨rfl, rfl, rfl⟩ | ⟨rest, _, hrest⟩
              · rw [List.append_nil]
                exact ⟨rfl, feed.source, hfeed⟩
              · simp at hrest
          | false =>
              rw [parseWithin_received turns hturn hfailed] at hsplit
              rcases Event.look_of_split hsplit with ⟨rfl, rfl, rfl⟩ | ⟨rest, rfl, hrest⟩
              · rw [List.append_nil]
                exact ⟨rfl, feed.source, hfeed⟩
              · rw [← List.append_assoc]
                exact ih hnext hrest

/-- So does the feed that the parse leaves behind, unless that is what the turn behind the last look
has made of it. -/
theorem parseWithin_last (turns : Nat) {past : List (Event ν ε)} {feed : Feed}
    (hfeed : motive past feed) :
    motive (past ++ (parseWithin parser readSize turns feed).transcript)
        (parseWithin parser readSize turns feed).feed ∨
      ∃ before source buffer, motive (past ++ before) { source, buffer } ∧
        (parseWithin parser readSize turns feed).transcript =
          before ++ [.look buffer (parser buffer.window)] ∧
        (parseWithin parser readSize turns feed).feed.buffer =
          (buffer.turn readSize (parser buffer.window)).2 := by
  induction turns generalizing past feed with
  | zero =>
      rw [parseWithin, List.append_nil]
      exact .inl hfeed
  | succ turns ih =>
      rcases hturn : feed.buffer.turn readSize (parser feed.buffer.window) with ⟨turn, next⟩
      cases turn with
      | ended answer =>
          rw [parseWithin_ended turns hturn]
          refine .inr ⟨[], feed.source, feed.buffer, ?_, rfl, ?_⟩
          · rw [List.append_nil]
            exact hfeed
          · rw [hturn]
      | reads area =>
          have hnext := hreads hfeed (.intro hturn)
          cases hfailed : (receive { feed with buffer := next } area).1.code.failed with
          | true =>
              rw [parseWithin_failed turns hturn hfailed]
              exact .inl hnext
          | false =>
              rw [parseWithin_received turns hturn hfailed]
              rcases ih hnext with hlast | ⟨before, source, buffer, hlook, hsplit, hbuffer⟩
              · left
                rw [List.append_assoc] at hlast
                exact hlast
              · rw [List.append_assoc] at hlook
                refine .inr ⟨_, source, buffer, hlook, ?_, hbuffer⟩
                rw [List.append_assoc, ← hsplit]
                rfl

end Looks

/-! ## A whole parse -/

/-- A buffer at a look, by what happened since the parse began with an empty one. -/
structure Fed (parser : Parser ν ε) (readSize : UInt64) (past : List (Event ν ε)) (b : Buffer) :
    Prop where
  filling : b.Filling
  size : b.size.toNat = (Event.received past).length
  doubled : Buffer.Doubled readSize (Event.deliveries past).length b
  near : parser.Modest readSize → Buffer.Near readSize b

omit [Allocator] in
theorem fed_unlimited : Fed parser readSize [] .unlimited where
  filling := Buffer.filling_unlimited
  size := rfl
  doubled := ⟨Nat.zero_le _, fun _ => rfl⟩
  near := fun _ => Nat.zero_le _

/-- A read brings bytes into the allocation that the turn before it has made. -/
theorem Reads.fed {past : List (Event ν ε)} {feed next : Feed} {delivery : Delivery}
    (hread : readSize ≠ 0) (fed : Fed parser readSize past feed.buffer)
    (hreads : Reads parser readSize feed delivery next) :
    Fed parser readSize
      (past ++ [.look feed.buffer (parser feed.buffer.window), .read delivery]) next.buffer := by
  have hcapacity : next.buffer.capacity =
      (feed.buffer.turn readSize (parser feed.buffer.window)).2.capacity := by
    cases hreads with
    | intro hturn => rw [hturn]; rfl
  have hdoubled := fed.doubled.turn fed.filling hread (parser feed.buffer.window)
  have hwindow := congrArg List.length (hreads.window hread fed.filling.valid)
  rw [List.length_append, Buffer.length_window, Buffer.length_window] at hwindow
  refine ⟨?_, ?_, ⟨?_, ?_⟩, ?_⟩
  · have valid := hreads.valid hread fed.filling.valid
    obtain ⟨_, _, _, _, _, hreserve, _, rfl⟩ := hreads.starved hread
    obtain ⟨_, hstart, hlimit⟩ := (fed.filling.reserve hreserve).1
    exact ⟨valid, hstart, hlimit⟩
  · rw [hwindow, fed.size, Event.received_append, List.length_append]
    simp [Event.received, Event.deliveries]
  · rw [hcapacity, Event.length_deliveries_append]
    change 2 * _ ≤ 2 ^ ((Event.deliveries past).length + 1) * _
    rw [Nat.pow_succ, Nat.mul_comm _ 2, Nat.mul_assoc]
    exact Nat.mul_le_mul_left 2 hdoubled
  · intro hzero
    rw [Event.length_deliveries_append] at hzero
    exact absurd hzero (Nat.succ_ne_zero _)
  · intro modest
    have hnear := (fed.near modest).turn fed.filling hread modest
    rw [Buffer.Near, hcapacity, hwindow]
    omega

/-- The bounds on the capacity, by what happened since the parse began with an empty buffer. -/
structure Within (parser : Parser ν ε) (readSize : UInt64) (past : List (Event ν ε))
    (capacity : Nat) : Prop where
  doubled : capacity ≤ 2 ^ (Event.deliveries past).length * baseSize readSize
  near : parser.Modest readSize →
    capacity ≤ 4 * max (baseSize readSize) (Event.received past).length

omit [Allocator] in
theorem Fed.within {past : List (Event ν ε)} {b : Buffer} (fed : Fed parser readSize past b) :
    Within parser readSize past b.capacity.toNat where
  doubled := by
    have hdoubled := fed.doubled.1
    omega
  near := by
    intro modest
    rw [← fed.size]
    exact fed.near modest

theorem Fed.within_turn {past : List (Event ν ε)} {b : Buffer} (hread : readSize ≠ 0)
    (fed : Fed parser readSize past b) :
    Within parser readSize past (b.turn readSize (parser b.window)).2.capacity.toNat where
  doubled := fed.doubled.turn fed.filling hread _
  near := by
    intro modest
    rw [← fed.size]
    exact (fed.near modest).turn fed.filling hread modest

/-- A parse over any source that begins with an empty and unlimited buffer keeps its allocation
within the base size, doubled once for each read, and within four times what was received where the
hints are modest: at each look, while the read behind it is under way, and when the parse is over. -/
theorem parse_within (parser : Parser ν ε) (source : Source) {readSize : UInt64}
    (hread : readSize ≠ 0) :
    (∀ before buffer outcome after,
      (parse { source } parser readSize).transcript = before ++ .look buffer outcome :: after →
      Within parser readSize before buffer.capacity.toNat ∧
        Within parser readSize before (buffer.turn readSize outcome).2.capacity.toNat) ∧
    Within parser readSize (parse { source } parser readSize).transcript
      (parse { source } parser readSize).feed.buffer.capacity.toNat := by
  rw [parse_of_ne_zero _ parser hread]
  have hreads : ∀ {past : List (Event ν ε)} {feed delivery next},
      Fed parser readSize past feed.buffer → Reads parser readSize feed delivery next →
      Fed parser readSize
        (past ++ [.look feed.buffer (parser feed.buffer.window), .read delivery]) next.buffer :=
    fun fed hreads => hreads.fed hread fed
  constructor
  · intro before buffer outcome after hsplit
    obtain ⟨rfl, _, hfed⟩ := parseWithin_looks
      (motive := fun past feed => Fed parser readSize past feed.buffer) hreads _ fed_unlimited
      hsplit
    exact ⟨hfed.within, hfed.within_turn hread⟩
  · rcases parseWithin_last
        (motive := fun past feed => Fed parser readSize past feed.buffer) hreads source.turns
        (show Fed parser readSize [] (Feed.mk source .unlimited).buffer from fed_unlimited) with
      hlast | ⟨before, _, buffer, hlook, hsplit, hbuffer⟩
    · exact hlast.within
    · have hwithin := hlook.within_turn hread
      rw [hbuffer, hsplit]
      refine ⟨?_, ?_⟩
      · rw [Event.length_deliveries_append]
        exact hwithin.doubled
      · rw [Event.received_append]
        simpa [Event.received, Event.deliveries] using hwithin.near

end Allocations

/-- Three bytes, one at a time. -/
def singleBytes : Source := { chunks := [[0x41], [0x42], [0x43]] }

/-- A parser whose hint is four bytes keeps the allocation near its three bytes. -/
theorem small_hint_stays_within :
    (Parser.hinted 4).Modest 1 ∧
      Within (Parser.hinted 4) 1 (parse { source := singleBytes } (Parser.hinted 4) 1).transcript
        (parse { source := singleBytes } (Parser.hinted 4) 1).feed.buffer.capacity.toNat := by
  have modest : (Parser.hinted 4).Modest 1 := by
    intro window missing houtcome
    cases houtcome
    exact Nat.le_trans (by decide : 4 ≤ baseSize 1) (Nat.le_max_left _ _)
  exact ⟨modest, (parse_within (Parser.hinted 4) singleBytes (by decide : (1 : UInt64) ≠ 0)).2⟩

/-- A hint that is as large as there is makes each of three single bytes double the allocation,
which ends up at more than four times what was received or is asked for anyway. -/
theorem largest_hint_outgrows_data :
    (Event.received (parse { source := singleBytes } (Parser.hinted (2 ^ 64 - 1))
        defaultReadSize).transcript).length = 3 ∧
      (parse { source := singleBytes } (Parser.hinted (2 ^ 64 - 1))
        defaultReadSize).feed.buffer.capacity = 65536 ∧
      4 * max (baseSize defaultReadSize) 3 < 65536 := by
  decide

end Feed

end StreamParse
