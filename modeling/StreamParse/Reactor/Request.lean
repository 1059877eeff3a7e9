import StreamParse.Buffer.Command
import StreamParse.Reactor.Move
import StreamParse.Reactor.Operation
import StreamParse.Session.Command

/-!
# Requests to a reactor

Everything that can be asked of a reactor, as data, so that a history of a reactor is a list.  Each
request has one reply.  Completions are listed apart from it: they belong to operations that earlier
requests started.
-/

namespace StreamParse

/-- Indices count from zero, and name a buffer, a source or a seat by what they stand for. -/
inductive Request (ν ε : Type) where
  | addBuffer (limit : Option UInt64)
  | buffer (buffer : Nat) (command : Buffer.Command)
  | window (buffer : Nat)
  | moveBuffer (buffer : Nat)
  | assignBuffer (buffer target : Nat)
  | nextRead (buffer : Nat) (hint : Option Nat) (readSize : UInt64)
  | look (buffer : Nat) (parser : Parser ν ε) (readSize : UInt64)
  | refill (source buffer : Nat) (count : UInt64)
  | parse (source buffer : Nat) (mode : AnswerMode ε) (parser : Parser ν ε) (readSize : UInt64)
  | start (id source buffer : Nat) (parser : Parser ν ε) (readSize : UInt64)
  | session (seat : Nat) (command : Session.Command ν ε)
  | startSessionParse (id seat : Nat) (parser : Parser ν ε)
  | startSessionRead (id seat : Nat) (sizes : List Nat)
  | moveSeat (seat : Nat)
  | assignSeat (seat target : Nat)
  /-- Carry out so many entries of the queue, or all. -/
  | run (count : Option Nat)
  | cancelSource (source : Nat)
  | cancelSeat (seat : Nat)
  | abandon

inductive Reply (ν ε : Type) where
  | silent
  | area (size : UInt64)
  | window (bytes : List UInt8)
  | amount (count : UInt64)
  | verdict (verdict : Verdict ν ε)
  | refilled (delivery : Delivery)
  | session (reply : Session.Reply ν ε)
  /-- The operation was started, or met a fault at its first look. -/
  | started (answer : Except Fault Unit) (transcript : List (Event ν ε))
  | readStarted
  | ran (count : Nat) (fault : Option Fault)
  | cancelled (found : Bool)
  | refused (fault : Fault)
  /-- An index stands for nothing. -/
  | unknown

/-- Replies to a command to a buffer, with the size of the area if it has found one. -/
def Reply.ofSize {ν ε : Type} : Option UInt64 → Reply ν ε
  | some size => area size
  | none => silent

/-- Replies to what was done in place. -/
def Reply.ofAnswer {ν ε α : Type} (reply : α → Reply ν ε) : Except Fault α → Reply ν ε
  | .ok answer => reply answer
  | .error fault => .refused fault

structure Response (ν ε : Type) where
  reply : Reply ν ε := .silent
  completions : List (Completion ν ε) := []
  breakdown : Option (Breakdown ν ε) := none
  reactor : Reactor ν ε

namespace Reactor

variable {ν ε : Type}

/-- Replies to a request that changes nothing. -/
def reply (reactor : Reactor ν ε) (reply : Reply ν ε) : Response ν ε := { reply, reactor }

/-- Works on a buffer in place. -/
def respondInPlace {α : Type} (reactor : Reactor ν ε) (index : Nat) (mutation : Mutation Buffer α)
    (reply : α → Reply ν ε) : Option (Response ν ε) := do
  let buffer ← reactor.buffers[index]?
  let (answer, buffer) := mutation.on buffer
  return { reply := .ofAnswer reply answer, reactor := reactor.setBuffer index buffer }

/-- Starts a parse at a place. -/
def respondStart [Allocator] (reactor : Reactor ν ε) (id : Nat) (place : Place)
    (parser : Parser ν ε) (readSize : UInt64) : Response ν ε :=
  let (answer, transcript, reactor) := reactor.startParse id place parser readSize
  { reply := .started answer transcript, reactor }

/-- Cancels what a place waits for. -/
def respondCancel (reactor : Reactor ν ε) : Option SourceId → Response ν ε
  | none => reactor.reply (.cancelled false)
  | some source =>
      let (found, reactor) := reactor.cancel source
      reactor.reply (.cancelled found)

/-- The response to a run of the queue. -/
def Progress.response (progress : Progress ν ε) : Response ν ε :=
  { reply := .ran progress.ran (progress.breakdown.map Breakdown.fault)
    completions := progress.completions
    breakdown := progress.breakdown
    reactor := progress.reactor }

/-- Serves a request whose indices all stand for something. -/
def respond [Allocator] (reactor : Reactor ν ε) : Request ν ε → Option (Response ν ε)
  | .addBuffer limit =>
      let buffer := (limit.map Buffer.ofLimit).getD .unlimited
      some { reactor := { reactor with buffers := reactor.buffers ++ [buffer] } }
  | .buffer index command =>
      reactor.respondInPlace index (Buffer.InPlace.perform command) .ofSize
  | .window index => do
      let buffer ← reactor.buffers[index]?
      return reactor.reply (.window buffer.window)
  | .moveBuffer index => do
      let buffer ← reactor.buffers[index]?
      return { reactor := reactor.moveBuffer index buffer }
  | .assignBuffer index target => do
      let buffer ← reactor.buffers[index]?
      let _ ← reactor.buffers[target]?
      return { reactor := reactor.assignBuffer index buffer target }
  | .nextRead index hint readSize => do
      let buffer ← reactor.buffers[index]?
      return reactor.reply (.amount (buffer.nextRead hint readSize))
  | .look index parser readSize =>
      reactor.respondInPlace index (Buffer.InPlace.look parser readSize) .verdict
  | .refill sourceIndex index count => do
      let source ← reactor.sources[sourceIndex]?
      let buffer ← reactor.buffers[index]?
      let (answer, feed) := (Feed.InPlace.refill count).on { source, buffer }
      return { reply := .ofAnswer .refilled answer,
               reactor := reactor.putFeed (.listed sourceIndex index) feed }
  | .parse sourceIndex index mode parser readSize => do
      let source ← reactor.sources[sourceIndex]?
      let buffer ← reactor.buffers[index]?
      let run := Feed.parseAs { source, buffer } mode parser readSize
      return { reply := .session (.parsed run.answer run.transcript),
               reactor := reactor.putFeed (.listed sourceIndex index) run.feed }
  | .start id source index parser readSize => do
      let _ ← reactor.sources[source]?
      let _ ← reactor.buffers[index]?
      return reactor.respondStart id (.listed source index) parser readSize
  | .session index command => do
      let _ ← reactor.seats[index]?
      let (reply, session) := (reactor.sessionAt index).perform command
      return { reply := .session reply, reactor := reactor.putSession index session }
  | .startSessionParse id index parser => do
      let seat ← reactor.seats[index]?
      return reactor.respondStart id (.seat index) parser seat.readSize
  | .startSessionRead id index sizes => do
      let _ ← reactor.seats[index]?
      return { reply := .readStarted,
               reactor := reactor.startSessionRead id index (sizes.foldr (· + ·) 0) }
  | .moveSeat index => do
      let _ ← reactor.seats[index]?
      return { reactor := reactor.moveSeat index }
  | .assignSeat index target => do
      let _ ← reactor.seats[index]?
      let _ ← reactor.seats[target]?
      return { reactor := reactor.assignSeat index target }
  | .run (some count) => some (reactor.run count).response
  | .run none => some reactor.drain.response
  | .cancelSource source => do
      let _ ← reactor.sources[source]?
      return reactor.respondCancel (some (.listed source))
  | .cancelSeat index => do
      let _ ← reactor.seats[index]?
      return reactor.respondCancel (reactor.sourceId? (.seat index))
  | .abandon => some { reactor := reactor.abandon }

/-- Serves any request. -/
def serve [Allocator] (reactor : Reactor ν ε) (request : Request ν ε) : Response ν ε :=
  (reactor.respond request).getD (reactor.reply .unknown)

/-- Serves requests in order and lists the responses. -/
def serveAll [Allocator] (reactor : Reactor ν ε) : List (Request ν ε) → List (Response ν ε)
  | [] => []
  | request :: requests =>
      let response := reactor.serve request
      response :: response.reactor.serveAll requests

/-! ## Requests in place

A request that is refused puts the buffer back that it found, which changes nothing.
-/

theorem setBuffer_self {reactor : Reactor ν ε} {index : Nat} {buffer : Buffer}
    (hbuffer : reactor.buffers[index]? = some buffer) :
    reactor.setBuffer index buffer = reactor := by
  obtain ⟨hindex, rfl⟩ := List.getElem?_eq_some_iff.mp hbuffer
  rw [setBuffer, List.set_getElem_self]

theorem setSource_self {reactor : Reactor ν ε} {index : Nat} {source : Source}
    (hsource : reactor.sources[index]? = some source) :
    reactor.setSource index source = reactor := by
  obtain ⟨hindex, rfl⟩ := List.getElem?_eq_some_iff.mp hsource
  rw [setSource, List.set_getElem_self]

theorem respondInPlace_eq {α : Type} {mutation : Mutation Buffer α}
    {attempt : Buffer → Except Fault (α × Buffer)} (attempts : mutation.Attempts attempt)
    (reactor : Reactor ν ε) (index : Nat) (reply : α → Reply ν ε) :
    reactor.respondInPlace index mutation reply = do
      let buffer ← reactor.buffers[index]?
      match attempt buffer with
      | .ok (answer, buffer) =>
          return { reply := reply answer, reactor := reactor.setBuffer index buffer }
      | .error fault => return reactor.reply (.refused fault) := by
  rw [respondInPlace]
  cases hbuffer : reactor.buffers[index]? with
  | none => rfl
  | some buffer =>
      cases h : attempt buffer with
      | ok answered =>
          simp only [Option.bind_eq_bind, Option.bind_some, attempts.on_of_ok h, h]
          rfl
      | error fault =>
          simp only [Option.bind_eq_bind, Option.bind_some, attempts.on_of_error h, h,
            setBuffer_self hbuffer]
          rfl

section Attempts

variable [Allocator]

theorem respond_buffer (reactor : Reactor ν ε) (index : Nat) (command : Buffer.Command) :
    reactor.respond (.buffer index command) = do
      let buffer ← reactor.buffers[index]?
      match buffer.perform command with
      | .ok (size?, buffer) =>
          return { reply := .ofSize size?,
                   reactor := reactor.setBuffer index buffer }
      | .error fault => return reactor.reply (.refused fault) := by
  rw [respond, respondInPlace_eq (Buffer.InPlace.attempts_perform command)]
  refine bind_congr fun buffer => ?_
  cases buffer.perform command <;> rfl

theorem respond_look (reactor : Reactor ν ε) (index : Nat) (parser : Parser ν ε)
    (readSize : UInt64) :
    reactor.respond (.look index parser readSize) = do
      let buffer ← reactor.buffers[index]?
      match buffer.look parser readSize with
      | .ok (verdict, buffer) =>
          return { reply := .verdict verdict, reactor := reactor.setBuffer index buffer }
      | .error fault => return reactor.reply (.refused fault) := by
  rw [respond, respondInPlace_eq (Buffer.InPlace.attempts_look parser readSize)]
  refine bind_congr fun buffer => ?_
  cases buffer.look parser readSize <;> rfl

theorem respond_refill (reactor : Reactor ν ε) (sourceIndex index : Nat) (count : UInt64) :
    reactor.respond (.refill sourceIndex index count) = do
      let source ← reactor.sources[sourceIndex]?
      let buffer ← reactor.buffers[index]?
      match Feed.refill { source, buffer } count with
      | .ok (delivery, feed) =>
          return { reply := .refilled delivery,
                   reactor := reactor.putFeed (.listed sourceIndex index) feed }
      | .error fault => return reactor.reply (.refused fault) := by
  rw [respond]
  cases hsource : reactor.sources[sourceIndex]? with
  | none => rfl
  | some source =>
      cases hbuffer : reactor.buffers[index]? with
      | none => rfl
      | some buffer =>
          have attempts := Feed.InPlace.attempts_refill count
          cases h : Feed.refill { source, buffer } count with
          | ok received =>
              simp only [Option.bind_eq_bind, Option.bind_some, attempts.on_of_ok h, h]
              rfl
          | error fault =>
              simp only [Option.bind_eq_bind, Option.bind_some, attempts.on_of_error h, h, putFeed,
                setSource_self hsource, setBuffer_self hbuffer]
              rfl

end Attempts

end Reactor

end StreamParse
