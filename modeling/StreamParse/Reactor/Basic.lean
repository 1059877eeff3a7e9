import StreamParse.Session.Basic

/-!
# Reactors

A reactor owns buffers, sources and sessions, and runs operations on them that do not wait for their
reads.  An operation is always in one place: it is in the queue, behind all that was queued before it,
or it is held by a source that keeps its reads open.  Only what leaves the front of the queue ever
makes progress, so nothing completes inside the call that starts it.

A read that is started takes its bytes from the source at once and writes them behind the window,
where nobody sees them; they join the window when the read's turn comes.
-/

namespace StreamParse

/-- What a seat reads from. -/
inductive Layer where
  | owned (source : Source)
  /-- A source of the reactor's own list. -/
  | borrowed (source : Nat)
  /-- The source was moved to another seat. -/
  | released
  deriving DecidableEq, Repr

/-- A session inside a reactor. -/
structure Seat where
  layer : Layer
  buffer : Buffer := .unlimited
  readSize : UInt64 := defaultReadSize
  deriving DecidableEq, Repr

/-- What an operation works on: a listed source with a listed buffer, or a seat. -/
inductive Place where
  | listed (source buffer : Nat)
  | seat (index : Nat)
  deriving DecidableEq, Repr

/-- Names a source, wherever it is. -/
inductive SourceId where
  | listed (index : Nat)
  | owned (seat : Nat)
  deriving DecidableEq, Repr

/-- A parse that has been started and has not ended. -/
structure Operation (ν ε : Type) where
  id : Nat
  place : Place
  parser : Parser ν ε
  readSize : UInt64
  transcript : List (Event ν ε) := []

/-- Who is told when a read ends. -/
inductive Waiter (ν ε : Type) where
  | parse (operation : Operation ν ε)
  | read (id : Nat)

/-- An entry of the queue. -/
inductive Task (ν ε : Type) where
  /-- A parse that was settled when it was started. -/
  | finish (id : Nat) (transcript : List (Event ν ε)) (result : Result ν ε)
  /-- A read that has ended. -/
  | arrive (waiter : Waiter ν ε) (delivery : Delivery)

/-- How an operation ended. -/
inductive Completion (ν ε : Type) where
  | parsed (id : Nat) (transcript : List (Event ν ε)) (result : Result ν ε)
  | read (id : Nat) (delivery : Delivery)

/-- What is left to tell of an operation that met a fault when its turn in the queue came. -/
structure Breakdown (ν ε : Type) where
  id : Nat
  transcript : List (Event ν ε)
  fault : Fault

structure Reactor (ν ε : Type) where
  buffers : List Buffer := []
  sources : List Source := []
  seats : List Seat := []
  queue : List (Task ν ε) := []
  /-- Open reads, one at most for each source, with the source that holds it. -/
  held : List (SourceId × Waiter ν ε) := []

namespace Waiter

variable {ν ε : Type}

def id : Waiter ν ε → Nat
  | parse operation => operation.id
  | read id => id

end Waiter

namespace Task

variable {ν ε : Type}

/-- The operation that an entry belongs to. -/
def id : Task ν ε → Nat
  | finish id _ _ => id
  | arrive waiter _ => waiter.id

end Task

namespace Completion

variable {ν ε : Type}

def id : Completion ν ε → Nat
  | parsed id _ _ => id
  | read id _ => id

end Completion

namespace Operation

variable {ν ε : Type}

def record (operation : Operation ν ε) (event : Event ν ε) : Operation ν ε :=
  { operation with transcript := operation.transcript ++ [event] }

end Operation

namespace Layer

/-- A released layer reads like a closed source. -/
def source (sources : List Source) : Layer → Source
  | owned source => source
  | borrowed index => sources.getD index .closed
  | released => .closed

/-- The turns of a source that is owned.  A borrowed one is counted where it is listed. -/
def turns : Layer → Nat
  | owned source => source.turns
  | _ => 0

end Layer

namespace Reactor

variable {ν ε : Type}

/-- The operations that have neither completed nor been given up, in no particular order. -/
def outstanding (reactor : Reactor ν ε) : List Nat :=
  reactor.queue.map Task.id ++ reactor.held.map fun entry => entry.2.id

def seatAt (reactor : Reactor ν ε) (index : Nat) : Seat :=
  reactor.seats.getD index { layer := .released }

def setSource (reactor : Reactor ν ε) (index : Nat) (source : Source) : Reactor ν ε :=
  { reactor with sources := reactor.sources.set index source }

def setBuffer (reactor : Reactor ν ε) (index : Nat) (buffer : Buffer) : Reactor ν ε :=
  { reactor with buffers := reactor.buffers.set index buffer }

def setSeat (reactor : Reactor ν ε) (index : Nat) (seat : Seat) : Reactor ν ε :=
  { reactor with seats := reactor.seats.set index seat }

/-- The source that a place reads from, if it still has one. -/
def sourceId? (reactor : Reactor ν ε) : Place → Option SourceId
  | .listed source _ => some (.listed source)
  | .seat index =>
      match (reactor.seatAt index).layer with
      | .owned _ => some (.owned index)
      | .borrowed source => some (.listed source)
      | .released => none

/-- The source and the buffer of a place. -/
def feedAt (reactor : Reactor ν ε) : Place → Feed
  | .listed source buffer =>
      { source := reactor.sources.getD source .closed
        buffer := reactor.buffers.getD buffer .unlimited }
  | .seat index =>
      let seat := reactor.seatAt index
      { source := seat.layer.source reactor.sources, buffer := seat.buffer }

/-- Puts a feed back where it was taken from.  Of a released source nothing is kept. -/
def putFeed (reactor : Reactor ν ε) (place : Place) (feed : Feed) : Reactor ν ε :=
  match place with
  | .listed source buffer => (reactor.setSource source feed.source).setBuffer buffer feed.buffer
  | .seat index =>
      let seat := { reactor.seatAt index with buffer := feed.buffer }
      match seat.layer with
      | .owned _ => reactor.setSeat index { seat with layer := .owned feed.source }
      | .borrowed source => (reactor.setSource source feed.source).setSeat index seat
      | .released => reactor.setSeat index seat

/-- A seat as a session of its own. -/
def sessionAt (reactor : Reactor ν ε) (index : Nat) : Session :=
  { feed := reactor.feedAt (.seat index), readSize := (reactor.seatAt index).readSize }

def putSession (reactor : Reactor ν ε) (index : Nat) (session : Session) : Reactor ν ε :=
  let reactor := reactor.putFeed (.seat index) session.feed
  reactor.setSeat index { reactor.seatAt index with readSize := session.readSize }

end Reactor

end StreamParse
