import StreamParse.Reactor.Basic

/-!
# Operations of a reactor

An operation goes through the same turns as a parse that waits for its reads: a look, and a read if
the parser starves.  The difference is that the turn ends with the start of the read, and that the
next turn belongs to the entry of the queue which that read becomes.
-/

namespace StreamParse

namespace Reactor

variable {ν ε : Type}

def enqueue (reactor : Reactor ν ε) (task : Task ν ε) : Reactor ν ε :=
  { reactor with queue := reactor.queue ++ [task] }

/-- Leaves an open read with a source.  A source holds one read, and a later one takes the place of
an earlier one, whose operation is given up. -/
def hold (reactor : Reactor ν ε) (source : SourceId) (waiter : Waiter ν ε) : Reactor ν ε :=
  { reactor with
    held := (reactor.held.filter fun entry => entry.1 != source) ++ [(source, waiter)] }

/-- Lets a waiter wait: in the queue if its read has ended, with the source otherwise. -/
def await (reactor : Reactor ν ε) (place : Place) (waiter : Waiter ν ε) :
    Option Delivery → Reactor ν ε
  | some delivery => reactor.enqueue (.arrive waiter delivery)
  | none =>
      match reactor.sourceId? place with
      | some source => reactor.hold source waiter
      | none => reactor

/-- Starts a read into an area of a buffer.  The bytes are written, but not yet committed. -/
def startRead (reactor : Reactor ν ε) (place : Place) (feed : Feed) (area : Area)
    (waiter : Waiter ν ε) : Reactor ν ε :=
  let (delivery?, source) := feed.source.startRead area.size.toNat
  let bytes := (delivery?.map Delivery.bytes).getD []
  (reactor.putFeed place { source, buffer := feed.buffer.fill area bytes }).await
    place waiter delivery?

/-- One turn of an operation: either its answer, with all that happened up to then, or nothing when
it waits for another read. -/
def drive [Allocator] (reactor : Reactor ν ε) (operation : Operation ν ε) :
    Option (Except Fault (Result ν ε)) × List (Event ν ε) × Reactor ν ε :=
  let feed := reactor.feedAt operation.place
  let outcome := operation.parser feed.buffer.window
  let operation := operation.record (.look feed.buffer outcome)
  match feed.buffer.turn operation.readSize outcome with
  | (.ended answer, buffer) =>
      (some answer, operation.transcript,
        reactor.putFeed operation.place { feed with buffer })
  | (.reads area, buffer) =>
      (none, operation.transcript,
        reactor.startRead operation.place { feed with buffer } area (.parse operation))

/-- Starts a parse.  One that is settled by what the buffer holds is queued all the same.  The list
holds what happened inside this call. -/
def startParse [Allocator] (reactor : Reactor ν ε) (id : Nat) (place : Place) (parser : Parser ν ε)
    (readSize : UInt64) : Except Fault Unit × List (Event ν ε) × Reactor ν ε :=
  if readSize = 0 then (.error .zeroReadSize, [], reactor)
  else
    match reactor.drive { id, place, parser, readSize } with
    | (none, events, reactor) => (.ok (), events, reactor)
    | (some (.ok result), events, reactor) =>
        (.ok (), events, reactor.enqueue (.finish id events result))
    | (some (.error fault), events, reactor) => (.error fault, events, reactor)

/-- Starts a read of at most `room` bytes from a seat.  Bytes that were read ahead leave the buffer at
once. -/
def startSessionRead (reactor : Reactor ν ε) (id : Nat) (index : Nat) (room : Nat) :
    Reactor ν ε :=
  let feed := reactor.feedAt (.seat index)
  if feed.buffer.size = 0 then
    let (delivery?, source) := feed.source.startRead room
    (reactor.putFeed (.seat index) { feed with source }).await (.seat index) (.read id) delivery?
  else
    let (delivery, buffer) := Session.takeBuffered feed.buffer room
    (reactor.putFeed (.seat index) { feed with buffer }).enqueue (.arrive (.read id) delivery)

/-- Goes on with a parse whose read has ended. -/
def resume [Allocator] (reactor : Reactor ν ε) (operation : Operation ν ε) (delivery : Delivery) :
    Except (Breakdown ν ε) (Option (Completion ν ε)) × Reactor ν ε :=
  let operation := operation.record (.read delivery)
  let feed := reactor.feedAt operation.place
  let buffer := feed.buffer.commit delivery.bytes.length.toUInt64
  let reactor := reactor.putFeed operation.place { feed with buffer }
  if delivery.code.failed then
    (.ok (some (.parsed operation.id operation.transcript (.failed (.ofRead delivery.code)))),
      reactor)
  else
    match reactor.drive operation with
    | (none, _, reactor) => (.ok none, reactor)
    | (some (.ok result), events, reactor) =>
        (.ok (some (.parsed operation.id events result)), reactor)
    | (some (.error fault), events, reactor) =>
        (.error { id := operation.id, transcript := events, fault }, reactor)

/-- Carries out an entry that has left the queue. -/
def perform [Allocator] (reactor : Reactor ν ε) :
    Task ν ε → Except (Breakdown ν ε) (Option (Completion ν ε)) × Reactor ν ε
  | .finish id transcript result => (.ok (some (.parsed id transcript result)), reactor)
  | .arrive (.read id) delivery => (.ok (some (.read id delivery)), reactor)
  | .arrive (.parse operation) delivery => reactor.resume operation delivery

/-- What came of running entries of the queue. -/
structure Progress (ν ε : Type) where
  reactor : Reactor ν ε
  /-- The entries that were carried out. -/
  ran : Nat := 0
  completions : List (Completion ν ε) := []
  /-- The operation whose fault ended the run before its time. -/
  breakdown : Option (Breakdown ν ε) := none

/-- Carries out entries, at most `count`, until the queue is empty or an entry meets a fault.  That
entry is gone, and what is queued behind it waits for the next run. -/
def run [Allocator] : (count : Nat) → Reactor ν ε → Progress ν ε
  | 0, reactor => { reactor }
  | count + 1, reactor =>
      match reactor.queue with
      | [] => { reactor }
      | task :: queue =>
          match perform { reactor with queue } task with
          | (.error breakdown, reactor) => { reactor, breakdown := some breakdown }
          | (.ok completion, reactor) =>
              let progress := run count reactor
              { progress with
                ran := progress.ran + 1
                completions := completion.toList ++ progress.completions }

/-- The turns that all sources of the reactor allow together. -/
def turns (reactor : Reactor ν ε) : Nat :=
  reactor.sources.foldr (fun source sum => source.turns + sum) 0 +
    reactor.seats.foldr (fun seat sum => seat.layer.turns + sum) 0

/-- A queue that is not empty after this many entries never becomes empty: each entry ends an
operation or starts one read, and each operation has one failing read at most. -/
def depth (reactor : Reactor ν ε) : Nat := 2 * reactor.queue.length + reactor.turns + 1

/-- Carries out entries until the queue is empty or an entry meets a fault. -/
def drain [Allocator] (reactor : Reactor ν ε) : Progress ν ε := reactor.run reactor.depth

/-- Ends the read that a source holds, without bytes.  The operation that waits for it gets its turn
in the queue; `false` when the source holds no read. -/
def cancel (reactor : Reactor ν ε) (source : SourceId) : Bool × Reactor ν ε :=
  match reactor.held.find? fun entry => entry.1 == source with
  | none => (false, reactor)
  | some (_, waiter) =>
      let held := reactor.held.eraseP fun entry => entry.1 == source
      (true, enqueue { reactor with held } (.arrive waiter { code := .operationAborted }))

/-- Gives up every operation: no entry is carried out, and what reads have taken from their sources
is lost.  Buffers keep their windows. -/
def abandon (reactor : Reactor ν ε) : Reactor ν ε :=
  { reactor with queue := [], held := [] }

@[simp]
theorem outstanding_abandon (reactor : Reactor ν ε) : reactor.abandon.outstanding = [] := rfl

@[simp]
theorem outstanding_enqueue (reactor : Reactor ν ε) (task : Task ν ε) :
    (reactor.enqueue task).outstanding.Perm (task.id :: reactor.outstanding) := by
  simp [enqueue, outstanding]

end Reactor

end StreamParse
