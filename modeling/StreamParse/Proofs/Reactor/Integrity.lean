import StreamParse.Proofs.Buffer.Checked
import StreamParse.Proofs.Reactor.Service

/-!
# The buffers of a reactor

A reactor has listed buffers and those of its seats.  Buffers are made, moved and moved over one
another, commands are given to them, and parses work on them, some at once and others over many
entries of the queue.  All of this keeps every buffer valid, a request that is refused included.

A valid buffer answers whatever comes next without a word that wraps, and the room that it reserves
lies directly behind the window and inside the allocation.
-/

namespace StreamParse

variable {ν ε : Type}

/-- What follows from a look keeps a buffer valid, whatever the read size is. -/
theorem Buffer.Valid.judge {b b' : Buffer} (valid : b.Valid) {readSize : UInt64}
    {outcome : Outcome ν ε} {verdict : Verdict ν ε}
    (h : b.judge readSize outcome = .ok (verdict, b')) : b'.Valid := by
  cases outcome with
  | done value used =>
      rw [Buffer.judge] at h
      split at h <;> cases h
      exact valid.discard _
  | reject error =>
      cases h
      exact valid
  | more hint =>
      rw [Buffer.judge] at h
      split at h <;> cases h <;> exact valid

theorem Feed.valid_startRead {feed : Feed} (valid : feed.buffer.Valid) (area : Area) :
    (feed.startRead area).2.buffer.Valid :=
  valid.fill area _

namespace Session

theorem valid_takeBuffered {buffer : Buffer} (valid : buffer.Valid) (room : Nat) :
    (takeBuffered buffer room).2.Valid :=
  valid.discard _

theorem valid_read {session : Session} (valid : session.feed.buffer.Valid) (room : Nat) :
    (session.read room).2.feed.buffer.Valid := by
  rw [read]
  split
  · exact valid
  · exact valid_takeBuffered valid _

theorem valid_beginRead (id : Nat) (room : Nat) {feed : Feed} (valid : feed.buffer.Valid) :
    (beginRead id room feed : Stint ν ε Unit).feed.buffer.Valid := by
  rw [beginRead]
  split
  · exact valid
  · exact valid_takeBuffered valid _

end Session

section Parts

variable [Allocator]

/-- And so does a turn of a parse. -/
theorem Buffer.Valid.turn {b : Buffer} (valid : b.Valid) (readSize : UInt64)
    (outcome : Outcome ν ε) : (b.turn readSize outcome).2.Valid := by
  rw [Buffer.turn_eq]
  split
  · exact valid
  · next hjudge => exact valid.judge hjudge
  · next hjudge =>
    split
    · exact valid.judge hjudge
    · next hreserve => exact ((valid.judge hjudge).reserve hreserve).1

theorem Feed.valid_refill {feed next : Feed} (valid : feed.buffer.Valid) {n : UInt64}
    {delivery : Delivery} (h : feed.refill n = .ok (delivery, next)) : next.buffer.Valid := by
  rw [refill] at h
  cases hreserve : feed.buffer.reserve n with
  | error fault => simp [hreserve, bind, Except.bind] at h
  | ok reserved =>
      simp only [hreserve, bind, Except.bind, pure, Except.pure, Except.ok.injEq] at h
      have hreceive := @valid_receive { feed with buffer := reserved.2 }
        (valid.reserve hreserve).1 reserved.1
      rw [h] at hreceive
      exact hreceive

/-- A parse keeps its buffer valid, also if it has no end. -/
theorem Feed.intact_parseWithin (parser : Parser ν ε) (readSize : UInt64) (turns : Nat)
    {feed : Feed} (valid : feed.buffer.Valid) :
    (parseWithin parser readSize turns feed).feed.buffer.Valid := by
  induction turns generalizing feed with
  | zero => exact valid
  | succ turns ih =>
      have hturn := valid.turn readSize (parser feed.buffer.window)
      rcases hway : feed.buffer.turn readSize (parser feed.buffer.window) with
        ⟨answer | area, buffer⟩
      · rw [hway] at hturn
        rw [parseWithin_ended turns hway]
        exact hturn
      · rw [hway] at hturn
        have hreceive : (receive { feed with buffer } area).2.buffer.Valid :=
          @valid_receive { feed with buffer } hturn area
        cases hcode : (receive { feed with buffer } area).1.code.failed with
        | true =>
            rw [parseWithin_failed turns hway hcode]
            exact hreceive
        | false =>
            rw [parseWithin_received turns hway hcode]
            exact ih hreceive

theorem Feed.intact_parse {feed : Feed} (valid : feed.buffer.Valid) (parser : Parser ν ε)
    (readSize : UInt64) : (feed.parse parser readSize).feed.buffer.Valid := by
  rw [parse]
  split
  · exact valid
  · exact intact_parseWithin parser readSize _ valid

namespace Operation

theorem valid_drive (operation : Operation ν ε) {feed : Feed} (valid : feed.buffer.Valid) :
    (operation.drive feed).feed.buffer.Valid := by
  have hturn := valid.turn operation.readSize (operation.parser feed.buffer.window)
  rcases hway : feed.buffer.turn operation.readSize (operation.parser feed.buffer.window) with
    ⟨answer | area, buffer⟩
  · rw [hway] at hturn
    rw [drive_of_ended hway]
    exact hturn
  · rw [hway] at hturn
    rw [drive_of_reads hway]
    exact @Feed.valid_startRead { feed with buffer } hturn area

theorem valid_begin (operation : Operation ν ε) {feed : Feed} (valid : feed.buffer.Valid) :
    (operation.begin feed).feed.buffer.Valid := by
  have hdrive := operation.valid_drive valid
  rw [begin]
  split
  · exact valid
  · split <;>
    · next hdriven =>
      rw [hdriven] at hdrive
      exact hdrive

end Operation

namespace Session

theorem valid_perform {session : Session} (valid : session.feed.buffer.Valid)
    (command : Command ν ε) : (session.perform command).2.feed.buffer.Valid := by
  cases command with
  | parse mode parser =>
      change (session.feed.parseAs mode parser session.readSize).feed.buffer.Valid
      rw [Feed.feed_parseAs]
      exact Feed.intact_parse valid parser session.readSize
  | read sizes => exact valid_read valid _
  | readBytes sizes => exact valid_read valid _
  | setReadSize readSize =>
      rw [perform, snd_configure]
      refine (InPlace.attempts_setReadSize readSize).preserves
        (motive := fun session => session.feed.buffer.Valid) valid fun _ next hnext => ?_
      rw [setReadSize] at hnext
      split at hnext <;> cases hnext
      exact valid
  | setLimit limit =>
      rw [perform, snd_configure]
      refine (InPlace.attempts_setLimit limit).preserves
        (motive := fun session => session.feed.buffer.Valid) valid fun _ next hnext => ?_
      rw [setLimit] at hnext
      cases hset : session.feed.buffer.setLimit limit with
      | error fault => simp [hset, Except.map] at hnext
      | ok buffer =>
          simp only [hset, Except.map, Except.ok.injEq, Prod.mk.injEq] at hnext
          obtain ⟨-, rfl⟩ := hnext
          exact valid.setLimit hset
  | settings => exact valid

end Session

end Parts

namespace Reactor

/-- All buffers of a reactor have a property. -/
structure EveryBuffer (property : Buffer → Prop) (reactor : Reactor ν ε) : Prop where
  listed : ∀ buffer ∈ reactor.buffers, property buffer
  seated : ∀ seat ∈ reactor.seats, property seat.buffer

namespace EveryBuffer

variable {property : Buffer → Prop} {reactor next : Reactor ν ε}

/-! ## Buffers that are put somewhere -/

theorem congr (every : reactor.EveryBuffer property) (hbuffers : next.buffers = reactor.buffers)
    (hseats : next.seats = reactor.seats) : next.EveryBuffer property :=
  ⟨hbuffers ▸ every.listed, hseats ▸ every.seated⟩

theorem imp {other : Buffer → Prop} (every : reactor.EveryBuffer property)
    (himp : ∀ buffer, property buffer → other buffer) : reactor.EveryBuffer other :=
  ⟨fun buffer hmem => himp buffer (every.listed buffer hmem),
    fun seat hmem => himp seat.buffer (every.seated seat hmem)⟩

theorem setBuffer (every : reactor.EveryBuffer property) {buffer : Buffer}
    (hproperty : property buffer) (index : Nat) :
    (reactor.setBuffer index buffer).EveryBuffer property where
  listed other hmem := by
    rcases List.mem_or_eq_of_mem_set hmem with hmem | rfl
    · exact every.listed other hmem
    · exact hproperty
  seated := every.seated

theorem addBuffer (every : reactor.EveryBuffer property) {buffer : Buffer}
    (hproperty : property buffer) :
    EveryBuffer property { reactor with buffers := reactor.buffers ++ [buffer] } where
  listed other hmem := by
    rcases List.mem_append.mp hmem with hmem | hmem
    · exact every.listed other hmem
    · rw [List.mem_singleton.mp hmem]
      exact hproperty
  seated := every.seated

theorem setSeat (every : reactor.EveryBuffer property) {seat : Seat}
    (hproperty : property seat.buffer) (index : Nat) :
    (reactor.setSeat index seat).EveryBuffer property where
  listed := every.listed
  seated other hmem := by
    rcases List.mem_or_eq_of_mem_set hmem with hmem | rfl
    · exact every.seated other hmem
    · exact hproperty

theorem addSeat (every : reactor.EveryBuffer property) {seat : Seat}
    (hproperty : property seat.buffer) :
    EveryBuffer property { reactor with seats := reactor.seats ++ [seat] } where
  listed := every.listed
  seated other hmem := by
    rcases List.mem_append.mp hmem with hmem | hmem
    · exact every.seated other hmem
    · rw [List.mem_singleton.mp hmem]
      exact hproperty

/-- A buffer that is looked up is one of the reactor's, or stands in for none. -/
theorem getD {buffers : List Buffer} (every : ∀ buffer ∈ buffers, property buffer)
    {default : Buffer} (hdefault : property default) (index : Nat) :
    property (buffers.getD index default) := by
  rw [List.getD_eq_getElem?_getD]
  cases hfound : buffers[index]? with
  | none => exact hdefault
  | some buffer => exact every buffer (List.mem_of_getElem? hfound)

theorem seatAt (every : reactor.EveryBuffer property) (hunlimited : property .unlimited)
    (index : Nat) : property (reactor.seatAt index).buffer := by
  rw [Reactor.seatAt, List.getD_eq_getElem?_getD]
  cases hfound : reactor.seats[index]? with
  | none => exact hunlimited
  | some seat => exact every.seated seat (List.mem_of_getElem? hfound)

theorem feedAt (every : reactor.EveryBuffer property) (hunlimited : property .unlimited)
    (place : Place) : property (reactor.feedAt place).buffer := by
  cases place with
  | listed source buffer => exact getD every.listed hunlimited buffer
  | seat index => exact every.seatAt hunlimited index

theorem putFeed (every : reactor.EveryBuffer property) (place : Place) {feed : Feed}
    (hproperty : property feed.buffer) :
    (reactor.putFeed place feed).EveryBuffer property := by
  cases place with
  | listed source buffer =>
      have sourced : EveryBuffer property (reactor.setSource source feed.source) :=
        every.congr rfl rfl
      exact sourced.setBuffer hproperty buffer
  | seat index =>
      rw [putFeed_seat]
      exact setSeat (every.congr (buffers_putSource _ _ _) (seats_putSource _ _ _)) hproperty index

/-! ## Operations -/

theorem await (every : reactor.EveryBuffer property) (place : Place) (waiter : Waiter ν ε)
    (delivery? : Option Delivery) : (reactor.await place waiter delivery?).EveryBuffer property := by
  cases delivery? with
  | some delivery => exact every.congr rfl rfl
  | none =>
      rw [Reactor.await]
      split
      · exact every.congr rfl rfl
      · exact every

theorem settle (every : reactor.EveryBuffer property) (place : Place) {α : Type}
    {stint : Stint ν ε α} (hproperty : property stint.feed.buffer) :
    (reactor.settle place stint).EveryBuffer property := by
  have put := every.putFeed place hproperty
  rw [Reactor.settle]
  cases stint.remnant with
  | none => exact put
  | some remnant =>
      cases remnant with
      | queued task => exact put.congr rfl rfl
      | held waiter => exact put.await place waiter none

theorem cancel (every : reactor.EveryBuffer property) (source : SourceId) :
    (reactor.cancel source).2.EveryBuffer property := by
  rw [Reactor.cancel]
  split
  · exact every
  · exact every.congr rfl rfl

theorem respondCancel (every : reactor.EveryBuffer property) (source? : Option SourceId) :
    (reactor.respondCancel source?).reactor.EveryBuffer property := by
  cases source? with
  | none => exact every
  | some source => exact every.cancel source

end EveryBuffer

/-! ## Valid buffers -/

variable {reactor : Reactor ν ε}

/-- The buffers of a reactor are all valid. -/
abbrev Intact (reactor : Reactor ν ε) : Prop := reactor.EveryBuffer Buffer.Valid

namespace Intact

theorem valid (intact : reactor.Intact) (place : Place) : (reactor.feedAt place).buffer.Valid :=
  intact.feedAt Buffer.valid_unlimited place

theorem putSession (intact : reactor.Intact) (index : Nat) {session : Session}
    (valid : session.feed.buffer.Valid) : (reactor.putSession index session).Intact := by
  have put : Intact (reactor.putFeed (.seat index) session.feed) :=
    intact.putFeed (.seat index) valid
  have kept : ({ (reactor.putFeed (.seat index) session.feed).seatAt index with
      readSize := session.readSize } : Seat).buffer.Valid :=
    put.seatAt Buffer.valid_unlimited index
  exact put.setSeat kept index

theorem startSessionRead (intact : reactor.Intact) (id index : Nat) (room : Nat) :
    (reactor.startSessionRead id index room).Intact := by
  rw [startSessionRead_settles]
  exact intact.settle _ (Session.valid_beginRead id room (intact.valid (.seat index)))

theorem moveBuffer (intact : reactor.Intact) {buffer : Buffer} (valid : buffer.Valid)
    (index : Nat) : (reactor.moveBuffer index buffer).Intact :=
  (intact.setBuffer (Buffer.valid_emptied buffer) index).addBuffer valid

theorem assignBuffer (intact : reactor.Intact) {buffer : Buffer} (valid : buffer.Valid)
    (index target : Nat) : (reactor.assignBuffer index buffer target).Intact := by
  rw [Reactor.assignBuffer]
  split
  · exact intact
  · exact (intact.setBuffer valid target).setBuffer (Buffer.valid_emptied buffer) index

theorem moveSeat (intact : reactor.Intact) (index : Nat) : (reactor.moveSeat index).Intact := by
  have reheld : Intact (reactor.rehold index reactor.seats.length) := intact.congr rfl rfl
  have left : (vacated (reactor.seatAt index)).buffer.Valid := Buffer.valid_emptied _
  exact (reheld.setSeat left index).addSeat (intact.seatAt Buffer.valid_unlimited index)

theorem assignSeat (intact : reactor.Intact) (source target : Nat) :
    (reactor.assignSeat source target).Intact := by
  rw [Reactor.assignSeat]
  split
  · exact intact
  · have reheld : Intact (reactor.rehold source target) := intact.congr rfl rfl
    have arrived := reheld.setSeat (intact.seatAt Buffer.valid_unlimited source) target
    have left : (vacated (reactor.seatAt source)).buffer.Valid := Buffer.valid_emptied _
    exact arrived.setSeat left source

end Intact

/-- The response, if there is one, leaves the buffers valid. -/
def LeavesIntact (response? : Option (Response ν ε)) : Prop :=
  ∀ response ∈ response?, response.reactor.Intact

theorem LeavesIntact.some {response : Response ν ε} (intact : response.reactor.Intact) :
    LeavesIntact (some response) := by
  rintro _ ⟨⟩
  exact intact

theorem LeavesIntact.bind {α : Type} {respond : α → Option (Response ν ε)} (found : Option α)
    (leaves : ∀ entry, found = .some entry → LeavesIntact (respond entry)) :
    LeavesIntact (found >>= respond) := by
  cases found with
  | none => exact fun _ hnone => absurd hnone nofun
  | some entry => exact leaves entry rfl

section Requests

variable [Allocator]

namespace Intact

theorem drive (intact : reactor.Intact) (operation : Operation ν ε) :
    (reactor.drive operation).2.2.Intact := by
  rw [drive_eq]
  exact intact.settle _ (operation.valid_drive (intact.valid operation.place))

theorem respondStart (intact : reactor.Intact) (id : Nat) (place : Place)
    (parser : Parser ν ε) (readSize : UInt64) :
    (reactor.respondStart id place parser readSize).reactor.Intact := by
  rw [respondStart_eq]
  exact intact.settle place (Operation.valid_begin _ (intact.valid place))

/-- The place of an entry may have lost its feed by now; the buffers are valid all the same. -/
theorem resume (intact : reactor.Intact) (operation : Operation ν ε) (delivery : Delivery) :
    (reactor.resume operation delivery).2.Intact := by
  have committed : Intact (reactor.putFeed operation.place { reactor.feedAt operation.place with
      buffer := (reactor.feedAt operation.place).buffer.commit
        delivery.bytes.length.toUInt64 }) :=
    intact.putFeed operation.place ((intact.valid operation.place).commit _)
  have hdrive := committed.drive (operation.record (.read delivery))
  rw [Reactor.resume]
  split
  · exact committed
  · split <;>
    · next hdriven =>
      have hnext := congrArg (fun driven => driven.2.2) hdriven
      exact Eq.mp (congrArg Intact hnext) hdrive

theorem perform (intact : reactor.Intact) (task : Task ν ε) :
    (reactor.perform task).2.Intact := by
  cases task with
  | finish id transcript result => exact intact
  | arrive waiter delivery =>
      cases waiter with
      | read id => exact intact
      | parse operation => exact intact.resume operation delivery

/-- An entry of the queue keeps the buffers valid, and so does a run of many. -/
theorem run (intact : reactor.Intact) (count : Nat) : (reactor.run count).reactor.Intact := by
  induction count generalizing reactor with
  | zero => exact intact
  | succ count ih =>
      rw [Reactor.run]
      split
      · exact intact
      · next task queue hqueue =>
        have popped : Intact { reactor with queue } := intact.congr rfl rfl
        have performed := popped.perform task
        rcases hperform : Reactor.perform { reactor with queue } task with
          ⟨breakdown | completion, next⟩ <;> rw [hperform] at performed
        · exact performed
        · exact ih performed

end Intact

theorem Intact.respond (intact : reactor.Intact) (request : Request ν ε) :
    LeavesIntact (reactor.respond request) := by
  have listed : ∀ {index : Nat} {buffer : Buffer}, reactor.buffers[index]? = some buffer →
      buffer.Valid :=
    fun hfound => intact.listed _ (List.mem_of_getElem? hfound)
  cases request with
  | addBuffer limit =>
      refine .some (intact.addBuffer ?_)
      cases limit with
      | none => exact Buffer.valid_unlimited
      | some limit => exact Buffer.valid_ofLimit limit
  | buffer index command =>
      exact .bind _ fun buffer hfound => .some (intact.setBuffer
        ((Buffer.InPlace.attempts_perform command).preserves (listed hfound)
          fun _ _ hperform => (listed hfound).perform hperform) index)
  | window index => exact .bind _ fun _ _ => .some intact
  | moveBuffer index =>
      exact .bind _ fun buffer hfound => .some (intact.moveBuffer (listed hfound) index)
  | assignBuffer index target =>
      exact .bind _ fun buffer hfound => .bind _ fun _ _ =>
        .some (intact.assignBuffer (listed hfound) index target)
  | nextRead index hint readSize => exact .bind _ fun _ _ => .some intact
  | look index parser readSize =>
      exact .bind _ fun buffer hfound => .some (intact.setBuffer
        ((Buffer.InPlace.attempts_look parser readSize).preserves (listed hfound)
          fun _ _ hlook => Buffer.Valid.judge (listed hfound) hlook) index)
  | refill source index count =>
      refine .bind _ fun taken _ => .bind _ fun buffer hfound => .some ?_
      refine intact.putFeed (.listed source index) ?_
      exact (Feed.InPlace.attempts_refill count).preserves (listed hfound)
        fun _ _ hrefill => Feed.valid_refill (listed hfound) hrefill
  | parse source index mode parser readSize =>
      refine .bind _ fun taken _ => .bind _ fun buffer hfound => .some ?_
      refine intact.putFeed (.listed source index) ?_
      rw [Feed.feed_parseAs]
      exact Feed.intact_parse (listed hfound) parser readSize
  | start id source index parser readSize =>
      exact .bind _ fun _ _ => .bind _ fun _ _ => .some (intact.respondStart id _ parser readSize)
  | session index command =>
      have valid : (reactor.sessionAt index).feed.buffer.Valid := intact.valid (.seat index)
      exact .bind _ fun _ _ => .some (intact.putSession index (Session.valid_perform valid command))
  | startSessionParse id index parser =>
      exact .bind _ fun _ _ => .some (intact.respondStart id _ parser _)
  | startSessionRead id index sizes =>
      exact .bind _ fun _ _ => .some (intact.startSessionRead id index _)
  | moveSeat index => exact .bind _ fun _ _ => .some (intact.moveSeat index)
  | assignSeat index target =>
      exact .bind _ fun _ _ => .bind _ fun _ _ => .some (intact.assignSeat index target)
  | run count? =>
      cases count? with
      | none => exact .some (intact.run _)
      | some count => exact .some (intact.run count)
  | cancelSource source => exact .bind _ fun _ _ => .some (intact.respondCancel _)
  | cancelSeat index => exact .bind _ fun _ _ => .some (intact.respondCancel _)
  | abandon => exact .some (intact.congr rfl rfl)

/-- Every request keeps every buffer valid. -/
theorem Intact.serve (intact : reactor.Intact) (request : Request ν ε) :
    (reactor.serve request).reactor.Intact := by
  have leaves := intact.respond request
  rw [Reactor.serve]
  cases hresponse : reactor.respond request with
  | none => exact intact
  | some response => exact leaves response hresponse

theorem Intact.after (intact : reactor.Intact) (history : List (Request ν ε)) :
    (reactor.after history).Intact := by
  induction history generalizing reactor with
  | nil => exact intact
  | cons request history ih => exact ih (intact.serve request)

/-- Whatever a reactor is asked, refused requests included, each of its buffers ends up with its window
inside the allocation, and at the front if it is empty.  No command then makes a word wrap or an
assertion fail, and room that it reserves lies directly behind the window, inside the allocation. -/
theorem buffers_stay_exact (intact : reactor.Intact) (history : List (Request ν ε)) :
    (reactor.after history).EveryBuffer fun b =>
      b.start.toNat + b.size.toNat ≤ b.capacity.toNat ∧
      (b.size = 0 → b.start = 0) ∧
      (∀ command, b.perform? command = some (b.perform command)) ∧
      ∀ n area b', b.reserve n = .ok (area, b') →
        area.size = max n 1 ∧
        area.offset.toNat = b'.start.toNat + b'.size.toNat ∧
        area.offset.toNat + area.size.toNat ≤ b'.capacity.toNat ∧
        b'.window = b.window := by
  refine (intact.after history).imp fun b valid => ?_
  refine ⟨valid.fits, valid.origin, valid.perform?_eq, fun n area b' hreserve => ?_⟩
  obtain ⟨_, hoffset, hwithin⟩ := valid.reserve hreserve
  exact ⟨Buffer.size_of_reserve hreserve, hoffset, hwithin, Buffer.window_reserve hreserve⟩

end Requests

/-- A history in which a buffer outgrows its allocation, takes in more than was reserved, is refused
room and bytes, and changes its place twice. -/
def overcommitted : List (Request Unit Unit) :=
  [.addBuffer (some 16), .buffer 0 (.write [1, 2, 3, 4, 5, 6]), .buffer 0 (.consume 2),
    .buffer 0 (.commit 0xffffffffffffffff), .buffer 0 (.reserve 3 [7]),
    .buffer 0 (.commit 0xffffffffffffffff), .buffer 0 (.setLimit 12),
    .buffer 0 (.reserve 0xffffffffffffffff []), .moveBuffer 0, .addBuffer none,
    .buffer 1 (.consume 13), .assignBuffer 1 2]

theorem overcommitted_buffers_stay_exact :
    (Reactor.after {} overcommitted).buffers.map (fun b => (b.start, b.size, b.capacity, b.limit)) =
      [(0, 0, 0, 12), (0, 0, 0, 12), (0, 12, 12, 12)] ∧
    ∀ b ∈ (Reactor.after {} overcommitted).buffers,
      b.start.toNat + b.size.toNat ≤ b.capacity.toNat ∧ (b.size = 0 → b.start = 0) ∧
        ∀ command, b.perform? command = some (b.perform command) := by
  refine ⟨by decide, fun b hmem => ?_⟩
  have intact : Intact ({} : Reactor Unit Unit) := ⟨nofun, nofun⟩
  obtain ⟨hfits, horigin, hexact, _⟩ := (buffers_stay_exact intact overcommitted).listed b hmem
  exact ⟨hfits, horigin, hexact⟩

end Reactor

end StreamParse
