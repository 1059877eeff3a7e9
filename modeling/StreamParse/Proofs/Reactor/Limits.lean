import StreamParse.Proofs.Course
import StreamParse.Proofs.Reactor.Integrity

/-!
# Windows and their limits

Three operations look at the limit of a buffer.  Room is only reserved where the limit lets the window
grow, and a limit is never set below the window; but what is committed is only cut down to the room
that the allocation has.  So a window stays within its limit exactly as long as no commit takes in more
than the limit leaves, and a buffer whose limit was never set below its capacity is on the safe side.

While the window is within its limit, a parse is never refused room because of it, and a full buffer
ends the parse with an overflow.  Once the window has outgrown the limit, the room that the limit
leaves is a difference below zero, which wraps, and the next parse that asks for more meets a fault.
-/

namespace StreamParse

variable {ν ε : Type}

namespace Buffer

/-- The window is no larger than the limit. -/
def Within (b : Buffer) : Prop := b.size.toNat ≤ b.limit.toNat

/-- The whole allocation is within the limit. -/
def Roomy (b : Buffer) : Prop := b.capacity.toNat ≤ b.limit.toNat

/-- A limit that is set takes in the allocation. -/
def Generous (b : Buffer) : Command → Prop
  | .setLimit limit => b.capacity.toNat ≤ limit.toNat
  | _ => True

instance (b : Buffer) : Decidable b.Within := inferInstanceAs (Decidable (_ ≤ _))

theorem Valid.within_of_roomy {b : Buffer} (valid : b.Valid) (roomy : b.Roomy) : b.Within :=
  Nat.le_trans (Nat.le_trans (Nat.le_add_left _ _) valid.fits) roomy

theorem roomy_discard {b : Buffer} (roomy : b.Roomy) (n : UInt64) : (b.discard n).Roomy := by
  rw [discard]
  split <;> exact roomy

/-- The room that the limit of an outgrown buffer leaves wraps. -/
theorem toNat_headroom_of_outgrown {b : Buffer} (houtgrown : ¬ b.Within) :
    b.headroom.toNat + b.size.toNat = b.limit.toNat + 0x1_0000_0000_0000_0000 := by
  have hover : b.limit.toNat < b.size.toNat := Nat.lt_of_not_le houtgrown
  have hsize := b.size.toNat_lt
  rw [headroom, UInt64.toNat_sub]
  omega

variable [Allocator]

/-- The bytes behind the window that a command adds to it. -/
def taken (b : Buffer) : Command → Nat
  | .commit n => min n.toNat b.room.toNat
  | .append bytes n =>
      match b.reserve bytes.length.toUInt64 with
      | .ok (_, reserved) => min n.toNat reserved.room.toNat
      | .error _ => 0
  | _ => 0

/-- The limit leaves room for what a command adds. -/
def Modest (b : Buffer) (command : Command) : Prop :=
  b.size.toNat + b.taken command ≤ b.limit.toNat

instance (b : Buffer) (command : Command) : Decidable (b.Modest command) :=
  inferInstanceAs (Decidable (_ ≤ _))

/-! ## What a command leaves where it is carried out -/

theorem step_reserve_of_ok {b reserved : Buffer} {bytes : List UInt8} {n : UInt64} {area : Area}
    (hreserve : b.reserve n = .ok (area, reserved)) :
    (b.step (.reserve n bytes)).2 = reserved.fill area bytes := by
  have hperform : b.perform (.reserve n bytes) =
      .ok (some area.size, reserved.fill area bytes) := by
    simp [perform, hreserve, bind, Except.bind, pure, Except.pure]
  rw [step_of_ok hperform]

theorem step_append_of_ok {b reserved : Buffer} {bytes : List UInt8} {n : UInt64} {area : Area}
    (hreserve : b.reserve bytes.length.toUInt64 = .ok (area, reserved)) :
    (b.step (.append bytes n)).2 = (reserved.fill area bytes).commit n := by
  have hperform : b.perform (.append bytes n) =
      .ok (some area.size, (reserved.fill area bytes).commit n) := by
    simp [perform, append, hreserve, bind, Except.bind, pure, Except.pure]
  rw [step_of_ok hperform]

theorem step_consume_of_le {b : Buffer} {n : UInt64} (hle : ¬ n > b.size) :
    (b.step (.consume n)).2 = b.discard n := by
  have hperform : b.perform (.consume n) = .ok (none, b.discard n) := by
    simp [perform, consume, hle, Except.map]
  rw [step_of_ok hperform]

theorem step_setLimit_of_le {b : Buffer} {limit : UInt64} (hle : ¬ limit < b.size) :
    (b.step (.setLimit limit)).2 = { b with limit } := by
  have hperform : b.perform (.setLimit limit) = .ok (none, { b with limit }) := by
    simp [perform, setLimit, hle, Except.map]
  rw [step_of_ok hperform]

theorem perform_reserve_of_error {b : Buffer} {bytes : List UInt8} {n : UInt64} {fault : Fault}
    (hreserve : b.reserve n = .error fault) :
    b.perform (.reserve n bytes) = .error fault := by
  simp [perform, hreserve, bind, Except.bind]

theorem perform_append_of_error {b : Buffer} {bytes : List UInt8} {n : UInt64} {fault : Fault}
    (hreserve : b.reserve bytes.length.toUInt64 = .error fault) :
    b.perform (.append bytes n) = .error fault := by
  simp [perform, append, hreserve, bind, Except.bind]

theorem perform_consume_of_gt {b : Buffer} {n : UInt64} (hpast : n > b.size) :
    b.perform (.consume n) = .error .pastWindow := by
  simp [perform, consume, hpast, Except.map]

theorem perform_setLimit_of_lt {b : Buffer} {limit : UInt64} (hbelow : limit < b.size) :
    b.perform (.setLimit limit) = .error .limitBelowSize := by
  simp [perform, setLimit, hbelow, Except.map]

/-- A command takes a window out of its limit exactly if it adds more than the limit leaves. -/
theorem Valid.within_step_iff {b : Buffer} (valid : b.Valid) (within : b.Within)
    (command : Command) : (b.step command).2.Within ↔ b.Modest command := by
  cases command with
  | reserve n bytes =>
      refine iff_of_true ?_ within
      cases hreserve : b.reserve n with
      | error fault =>
          rw [step_of_error (perform_reserve_of_error hreserve)]
          exact within
      | ok reserved =>
          rw [step_reserve_of_ok hreserve, Within]
          change reserved.2.size.toNat ≤ reserved.2.limit.toNat
          rw [size_reserve hreserve, limit_reserve hreserve]
          exact within
  | append bytes n =>
      cases hreserve : b.reserve bytes.length.toUInt64 with
      | error fault =>
          rw [step_of_error (perform_append_of_error hreserve), Modest, taken, hreserve]
          rfl
      | ok reserved =>
          have filled := (valid.reserve hreserve).1.fill reserved.1 bytes
          rw [step_append_of_ok hreserve, Within, filled.toNat_size_commit, Modest, taken, hreserve]
          change reserved.2.size.toNat + min n.toNat reserved.2.room.toNat ≤
            reserved.2.limit.toNat ↔ _
          rw [size_reserve hreserve, limit_reserve hreserve]
  | commit n =>
      change ((b.commit n).size.toNat ≤ b.limit.toNat ↔ _)
      rw [valid.toNat_size_commit]
      rfl
  | consume n =>
      refine iff_of_true ?_ within
      by_cases hpast : n > b.size
      · rw [step_of_error (perform_consume_of_gt hpast)]
        exact within
      · rw [step_consume_of_le hpast, Within, limit_discard]
        exact Nat.le_trans (b.size_discard_le n) within
  | setLimit limit =>
      refine iff_of_true ?_ within
      by_cases hbelow : limit < b.size
      · rw [step_of_error (perform_setLimit_of_lt hbelow)]
        exact within
      · rw [step_setLimit_of_le hbelow]
        exact UInt64.le_iff_toNat_le.mp (UInt64.not_lt.mp hbelow)
  | clear => exact iff_of_true (Nat.zero_le _) within

/-! ## Limits that take in the allocation -/

/-- An allocation never grows past the limit. -/
theorem roomy_reserve {b b' : Buffer} {n : UInt64} {area : Area} (roomy : b.Roomy)
    (h : b.reserve n = .ok (area, b')) : b'.Roomy := by
  have hcapacity := capacity_reserve_le h
  rwa [Nat.max_eq_right roomy, ← limit_reserve h] at hcapacity

theorem roomy_step {b : Buffer} {command : Command} (roomy : b.Roomy)
    (generous : b.Generous command) : (b.step command).2.Roomy := by
  cases command with
  | reserve n bytes =>
      cases hreserve : b.reserve n with
      | error fault =>
          rw [step_of_error (perform_reserve_of_error hreserve)]
          exact roomy
      | ok reserved =>
          have grown : reserved.2.Roomy := roomy_reserve roomy hreserve
          rw [step_reserve_of_ok hreserve]
          exact grown
  | append bytes n =>
      cases hreserve : b.reserve bytes.length.toUInt64 with
      | error fault =>
          rw [step_of_error (perform_append_of_error hreserve)]
          exact roomy
      | ok reserved =>
          have grown : reserved.2.Roomy := roomy_reserve roomy hreserve
          rw [step_append_of_ok hreserve]
          exact grown
  | commit n => exact roomy
  | consume n =>
      by_cases hpast : n > b.size
      · rw [step_of_error (perform_consume_of_gt hpast)]
        exact roomy
      · rw [step_consume_of_le hpast]
        exact roomy_discard roomy n
  | setLimit limit =>
      by_cases hbelow : limit < b.size
      · rw [step_of_error (perform_setLimit_of_lt hbelow)]
        exact roomy
      · rw [step_setLimit_of_le hbelow]
        exact generous
  | clear => exact roomy

/-- Where the limit takes in the allocation, no commit can be too large. -/
theorem Valid.modest_of_roomy {b : Buffer} {command : Command} (valid : b.Valid) (roomy : b.Roomy)
    (generous : b.Generous command) : b.Modest command :=
  (valid.within_step_iff (valid.within_of_roomy roomy) command).mp
    ((valid.step command).within_of_roomy (roomy_step roomy generous))

end Buffer

/-! ## Parses -/

namespace Feed

variable [Allocator] {parser : Parser ν ε} {readSize : UInt64}

/-- A look at a window within its limit is never refused room because of it. -/
theorem turn_ne_overLimit {b : Buffer} (within : b.Within) (hread : readSize ≠ 0)
    (outcome : Outcome ν ε) : (b.turn readSize outcome).1 ≠ .ended (.error .overLimit) := by
  intro hturn
  have hleads := b.leads hread outcome
  rw [hturn] at hleads
  generalize (b.turn readSize outcome).2 = next at hleads
  cases hleads with
  | overLimit hover => exact absurd within (Nat.not_le_of_lt hover)

/-- Nor is a parse that begins with one, after however many reads. -/
theorem Course.answer_ne_overLimit {feed last : Feed} {transcript : List (Event ν ε)}
    {answer : Except Fault (Result ν ε)} (hread : readSize ≠ 0) (valid : feed.buffer.Valid)
    (within : feed.buffer.Within)
    (hcourse : Course parser readSize feed transcript answer last) :
    answer ≠ .error .overLimit := by
  induction hcourse with
  | ended hturn =>
      rintro rfl
      exact turn_ne_overLimit within hread _ (congrArg Prod.fst hturn)
  | failed => exact nofun
  | received hreads _ _ ih => exact ih (hreads.valid hread valid) (hreads.size_le hread valid)

/-- A look that ends the parse is all that happens in it. -/
theorem parse_of_ended {feed : Feed} {buffer : Buffer} {answer : Except Fault (Result ν ε)}
    (hread : readSize ≠ 0)
    (hturn : feed.buffer.turn readSize (parser feed.buffer.window) = (.ended answer, buffer)) :
    feed.parse parser readSize =
      { feed := { feed with buffer }
        transcript := [.look feed.buffer (parser feed.buffer.window)]
        answer := some answer } := by
  have hturns : feed.source.turns ≠ 0 :=
    Nat.ne_of_gt (Nat.lt_of_lt_of_le (Nat.succ_pos _) (Nat.le_add_right _ _))
  obtain ⟨turns, hsucc⟩ := Nat.exists_eq_succ_of_ne_zero hturns
  rw [parse_of_ne_zero feed parser hread, hsucc]
  exact parseWithin_ended turns hturn

/-- A full buffer ends a parse that asks for more with an overflow, and nothing is read. -/
theorem parse_of_full {feed : Feed} (hread : readSize ≠ 0)
    (hfull : feed.buffer.size = feed.buffer.limit)
    (hmore : (parser feed.buffer.window).isMore = true) :
    feed.parse parser readSize =
      { feed, transcript := [.look feed.buffer (parser feed.buffer.window)]
        answer := some (.ok (.failed .overflow)) } := by
  refine parse_of_ended hread ?_
  cases houtcome : parser feed.buffer.window with
  | more hint =>
      have hnone := (@Buffer.nextRead_eq_zero_iff feed.buffer hint readSize hread).mpr hfull
      simp [Buffer.turn_eq, Buffer.judge, hnone]
  | _ => rw [houtcome] at hmore; cases hmore

/-- A window that has outgrown its limit makes a parse that asks for more meet a fault. -/
theorem parse_of_outgrown {feed : Feed} (hread : readSize ≠ 0)
    (houtgrown : ¬ feed.buffer.Within) (hmore : (parser feed.buffer.window).isMore = true) :
    feed.parse parser readSize =
      { feed, transcript := [.look feed.buffer (parser feed.buffer.window)]
        answer := some (.error .overLimit) } := by
  refine parse_of_ended hread ?_
  have hover := Nat.lt_of_not_le houtgrown
  have hleads := feed.buffer.leads hread (parser feed.buffer.window)
  rcases hturn : feed.buffer.turn readSize (parser feed.buffer.window) with ⟨turn, buffer⟩
  rw [hturn] at hleads
  generalize parser feed.buffer.window = outcome at hleads hmore
  cases hleads with
  | overLimit => rfl
  | overflow hfull =>
      rw [hfull] at hover
      exact absurd hover (Nat.lt_irrefl _)
  | outOfMemory hroom => exact absurd hroom (Nat.lt_asymm hover)
  | reads hroom => exact absurd hroom (Nat.lt_asymm hover)
  | _ => cases hmore

end Feed

/-! ## Histories of buffers -/

/-- Whether a request makes, uses or moves a buffer and does nothing else. -/
def Request.handlesBuffers : Request ν ε → Bool
  | addBuffer _ | buffer _ _ | window _ | moveBuffer _ | assignBuffer _ _ => true
  | _ => false

namespace Reactor

/-- The buffer that gets a command, if the request is one, has the property. -/
def Meets (property : Buffer → Buffer.Command → Prop) (reactor : Reactor ν ε) :
    Request ν ε → Prop
  | .buffer index command => ∀ b ∈ reactor.buffers[index]?, property b command
  | _ => True

section Histories

variable [Allocator]

/-- Every command of a history meets a buffer that has the property. -/
def AllMeet (property : Buffer → Buffer.Command → Prop) :
    Reactor ν ε → List (Request ν ε) → Prop
  | _, [] => True
  | reactor, request :: history =>
      reactor.Meets property request ∧ AllMeet property (reactor.serve request).reactor history

variable {reactor : Reactor ν ε}

/-- A command to a buffer is a step of it. -/
theorem serve_buffer {index : Nat} {b : Buffer} (hfound : reactor.buffers[index]? = some b)
    (command : Buffer.Command) :
    (reactor.serve (.buffer index command)).reactor =
      reactor.setBuffer index (b.step command).2 := by
  rw [serve, respond, respondInPlace, hfound]
  rfl

/-- A property that every command keeps where it meets a buffer, and that new buffers and emptied ones
have, is kept by every request that handles buffers. -/
theorem EveryBuffer.serve_of_handlesBuffers {property : Buffer → Prop}
    {meets : Buffer → Buffer.Command → Prop} {request : Request ν ε}
    (hlimit : ∀ limit, property (.ofLimit limit))
    (hstep : ∀ b command, property b → meets b command → property (b.step command).2)
    (every : reactor.EveryBuffer property) (hbuffers : request.handlesBuffers = true)
    (hmeets : reactor.Meets meets request) :
    (reactor.serve request).reactor.EveryBuffer property := by
  have listed : ∀ {index : Nat} {b : Buffer}, reactor.buffers[index]? = some b → property b :=
    fun hfound => every.listed _ (List.mem_of_getElem? hfound)
  cases request with
  | addBuffer limit =>
      refine every.addBuffer ?_
      cases limit with
      | none => exact hlimit _
      | some limit => exact hlimit limit
  | buffer index command =>
      cases hfound : reactor.buffers[index]? with
      | none =>
          rw [serve, respond, respondInPlace, hfound]
          exact every
      | some b =>
          rw [serve_buffer hfound]
          exact every.setBuffer (hstep b command (listed hfound) (hmeets b hfound)) index
  | window index =>
      cases hfound : reactor.buffers[index]? <;> rw [serve, respond, hfound] <;> exact every
  | moveBuffer index =>
      cases hfound : reactor.buffers[index]? with
      | none =>
          rw [serve, respond, hfound]
          exact every
      | some b =>
          rw [serve, respond, hfound]
          exact (every.setBuffer (hlimit b.limit) index).addBuffer (listed hfound)
  | assignBuffer index target =>
      cases hfound : reactor.buffers[index]? with
      | none =>
          rw [serve, respond, hfound]
          exact every
      | some b =>
          cases htarget : reactor.buffers[target]? with
          | none =>
              rw [serve, respond, hfound, htarget]
              exact every
          | some other =>
              rw [serve, respond, hfound, htarget]
              change (reactor.assignBuffer index b target).EveryBuffer property
              rw [assignBuffer]
              split
              · exact every
              · exact (every.setBuffer (listed hfound) target).setBuffer (hlimit b.limit) index
  | _ => cases hbuffers

/-- The windows stay within their limits at every moment of a history exactly if each command in it
adds no more than the limit leaves. -/
theorem within_throughout_iff (intact : reactor.Intact) (within : reactor.EveryBuffer Buffer.Within)
    {history : List (Request ν ε)}
    (hbuffers : ∀ request ∈ history, request.handlesBuffers = true) :
    (∀ before, before <+: history → (reactor.after before).EveryBuffer Buffer.Within) ↔
      reactor.AllMeet Buffer.Modest history := by
  induction history generalizing reactor with
  | nil =>
      refine iff_of_true (fun before hprefix => ?_) trivial
      rw [List.prefix_nil.mp hprefix]
      exact within
  | cons request history ih =>
      have hrequest := hbuffers request List.mem_cons_self
      have hrest := fun other hmem => hbuffers other (List.mem_cons_of_mem request hmem)
      constructor
      · intro throughout
        have next : (reactor.serve request).reactor.EveryBuffer Buffer.Within :=
          throughout [request] ⟨history, rfl⟩
        refine ⟨?_, (ih (intact.serve request) next hrest).mp fun before hprefix =>
          throughout (request :: before) (List.cons_prefix_cons.mpr ⟨rfl, hprefix⟩)⟩
        cases request with
        | buffer index command =>
            intro b hfound
            have hmem : b ∈ reactor.buffers := List.mem_of_getElem? hfound
            obtain ⟨hindex, _⟩ := List.getElem?_eq_some_iff.mp hfound
            rw [serve_buffer hfound] at next
            exact ((intact.listed b hmem).within_step_iff (within.listed b hmem) command).mp
              (next.listed _ (List.mem_set hindex _))
        | _ => trivial
      · rintro ⟨hmeets, hall⟩ before hprefix
        cases before with
        | nil => exact within
        | cons other before =>
            obtain ⟨rfl, htail⟩ := List.cons_prefix_cons.mp hprefix
            have sized : reactor.EveryBuffer fun b => b.Valid ∧ b.Within :=
              ⟨fun b hmem => ⟨intact.listed b hmem, within.listed b hmem⟩,
                fun seat hmem => ⟨intact.seated seat hmem, within.seated seat hmem⟩⟩
            have next := sized.serve_of_handlesBuffers
              (fun limit => ⟨Buffer.valid_ofLimit limit, Nat.zero_le _⟩)
              (fun b command hb hmodest =>
                ⟨hb.1.step command, (hb.1.within_step_iff hb.2 command).mpr hmodest⟩)
              hrequest hmeets
            exact (ih (intact.serve other) (next.imp fun b hb => hb.2) hrest).mpr hall before htail

/-- Limits that are never set below an allocation make every command modest. -/
theorem allMeet_modest_of_generous (intact : reactor.Intact)
    (roomy : reactor.EveryBuffer Buffer.Roomy) {history : List (Request ν ε)}
    (hbuffers : ∀ request ∈ history, request.handlesBuffers = true)
    (generous : reactor.AllMeet Buffer.Generous history) :
    reactor.AllMeet Buffer.Modest history := by
  induction history generalizing reactor with
  | nil => trivial
  | cons request history ih =>
      obtain ⟨hmeets, hall⟩ := generous
      have next : (reactor.serve request).reactor.EveryBuffer Buffer.Roomy :=
        roomy.serve_of_handlesBuffers (fun limit => Nat.zero_le _)
          (fun b command hroomy hgenerous => Buffer.roomy_step hroomy hgenerous)
          (hbuffers request List.mem_cons_self) hmeets
      refine ⟨?_, ih (intact.serve request) next
        (fun other hmem => hbuffers other (List.mem_cons_of_mem request hmem)) hall⟩
      cases request with
      | buffer index command =>
          intro b hfound
          have hmem : b ∈ reactor.buffers := List.mem_of_getElem? hfound
          exact (intact.listed b hmem).modest_of_roomy (roomy.listed b hmem) (hmeets b hfound)
      | _ => trivial

/-- As far as windows stay within their limits.  They do so throughout a history of buffers exactly if
each command adds no more than the limit leaves, and they do if no limit is set below an allocation.
In a buffer whose window is within its limit, the room that the limit leaves is the difference, no
parse is refused room, and a parse that finds the buffer full and asks for more overflows without a
read.  In any other buffer the difference wraps, and a parse that asks for more meets a fault. -/
theorem limits_hold_while_modest (intact : reactor.Intact)
    (within : reactor.EveryBuffer Buffer.Within) (history : List (Request ν ε))
    (hbuffers : ∀ request ∈ history, request.handlesBuffers = true) :
    ((∀ before, before <+: history → (reactor.after before).EveryBuffer Buffer.Within) ↔
      reactor.AllMeet Buffer.Modest history) ∧
    (reactor.EveryBuffer Buffer.Roomy → reactor.AllMeet Buffer.Generous history →
      reactor.AllMeet Buffer.Modest history) ∧
    (reactor.after history).EveryBuffer fun b =>
      (b.Within →
        b.headroom.toNat = b.limit.toNat - b.size.toNat ∧
        ∀ (source : Source) (parser : Parser ν ε) (readSize : UInt64), readSize ≠ 0 →
          (∀ outcome : Outcome ν ε,
            (b.turn readSize outcome).1 ≠ .ended (.error .overLimit)) ∧
          (Feed.parse { source, buffer := b } parser readSize).answer ≠ some (.error .overLimit) ∧
          (b.size = b.limit → (parser b.window).isMore = true →
            Feed.parse { source, buffer := b } parser readSize =
              { feed := { source, buffer := b }, transcript := [.look b (parser b.window)]
                answer := some (.ok (.failed .overflow)) })) ∧
      (¬ b.Within →
        b.headroom.toNat + b.size.toNat = b.limit.toNat + 0x1_0000_0000_0000_0000 ∧
        ∀ (source : Source) (parser : Parser ν ε) (readSize : UInt64), readSize ≠ 0 →
          (parser b.window).isMore = true →
          (Feed.parse { source, buffer := b } parser readSize).answer =
            some (.error .overLimit)) := by
  refine ⟨within_throughout_iff intact within hbuffers,
    fun roomy generous => allMeet_modest_of_generous intact roomy hbuffers generous,
    (intact.after history).imp fun b valid => ⟨fun hwithin => ?_, fun houtgrown => ?_⟩⟩
  · refine ⟨Word.toNat_sub hwithin, fun source parser readSize hread => ⟨fun outcome =>
      Feed.turn_ne_overLimit hwithin hread outcome, fun hanswer => ?_, fun hfull hmore => ?_⟩⟩
    · have hcourse := Feed.course_of_parse hread hanswer
      exact hcourse.answer_ne_overLimit hread valid hwithin rfl
    · exact @Feed.parse_of_full ν ε _ parser readSize { source, buffer := b } hread hfull hmore
  · refine ⟨?_, fun source parser readSize hread hmore => ?_⟩
    · exact Buffer.toNat_headroom_of_outgrown houtgrown
    · rw [@Feed.parse_of_outgrown ν ε _ parser readSize { source, buffer := b } hread houtgrown
        hmore]

end Histories

/-- Room for eight bytes is reserved, the limit is lowered to four, and then some bytes are committed. -/
def lowering (count : UInt64) : List (Request Unit Unit) :=
  [.addBuffer none, .buffer 0 (.reserve 8 [1, 2, 3, 4, 5, 6, 7, 8]), .buffer 0 (.setLimit 4),
    .buffer 0 (.commit count)]

theorem lowered_limit_heeded :
    (∀ before, before <+: lowering 4 →
      (Reactor.after {} before).EveryBuffer Buffer.Within) ∧
    (Reactor.after {} (lowering 4)).buffers.map (fun b => (b.size, b.limit, b.headroom)) =
      [(4, 4, 0)] ∧
    ∀ b ∈ (Reactor.after {} (lowering 4)).buffers,
      (Feed.parse { source := .closed, buffer := b }
        (fun _ => .more none : Parser Unit Unit) 1).answer = some (.ok (.failed .overflow)) := by
  have intact : Intact ({} : Reactor Unit Unit) := ⟨nofun, nofun⟩
  have within : EveryBuffer Buffer.Within ({} : Reactor Unit Unit) := ⟨nofun, nofun⟩
  obtain ⟨hthroughout, _, hafter⟩ :=
    limits_hold_while_modest intact within (lowering 4) (by decide)
  have modest : AllMeet Buffer.Modest ({} : Reactor Unit Unit) (lowering 4) := by
    refine ⟨trivial, ?_, ?_, ?_, trivial⟩ <;> (rintro b ⟨⟩; decide)
  refine ⟨hthroughout.mpr modest, by decide, fun b hmem => ?_⟩
  have hwithin := (hthroughout.mpr modest (lowering 4) (List.prefix_refl _)).listed b hmem
  have hfull : ∀ b ∈ (Reactor.after {} (lowering 4)).buffers, b.size = b.limit := by decide
  obtain ⟨_, hparse⟩ := (hafter.listed b hmem).1 hwithin
  rw [(hparse .closed _ 1 (by decide)).2.2 (hfull b hmem) rfl]

/-- No operation keeps a commit within a limit that was lowered since the room for it was reserved. -/
theorem lowered_limit_outgrown :
    (∀ request ∈ lowering 8, request.handlesBuffers = true) ∧
    ¬ (Reactor.after {} (lowering 8)).EveryBuffer Buffer.Within ∧
    (Reactor.after {} (lowering 8)).buffers.map (fun b => (b.size, b.limit, b.headroom)) =
      [(8, 4, 0xfffffffffffffffc)] ∧
    (Reactor.after {} (lowering 8)).buffers.map (fun b =>
      (Feed.parse { source := .closed, buffer := b }
        (fun _ => .more none : Parser Unit Unit) 1).answer) = [some (.error .overLimit)] := by
  refine ⟨by decide, fun within => ?_, by decide, rfl⟩
  exact absurd (within.listed _ List.mem_cons_self) (by decide)

end Reactor

end StreamParse
