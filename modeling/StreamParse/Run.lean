import StreamParse.Feed
import StreamParse.Verdict

/-!
# Runs

A parse alternates between looks and reads: the parser sees the whole window, and while it asks for
more, one read adds bytes at the end.  A run is such an alternation, written down: every look with the
buffer whose window was shown and the outcome, every read with what it brought, and the answer.

A read that fails ends the run, and the parser is not asked again, although the bytes which came with
the failure are kept in the window.  A run has no answer only if it has no end, which takes a source
that goes on reporting success without bringing a byte.
-/

namespace StreamParse

/-- What happens in a run. -/
inductive Event (ν ε : Type) where
  /-- The window of this buffer was shown to the parser. -/
  | look (buffer : Buffer) (outcome : Outcome ν ε)
  | read (delivery : Delivery)
  deriving DecidableEq, Repr

/-- How one look at the window goes on. -/
inductive Turn (ν ε : Type) where
  /-- The parse ends here. -/
  | ended (answer : Except Fault (Result ν ε))
  /-- The parse waits for a read into this area. -/
  | reads (area : Area)

namespace Buffer

variable {ν ε : Type}

/-- From an outcome to the area of the next read, with the buffer as a fault leaves it. -/
def turn [Allocator] (b : Buffer) (readSize : UInt64) (outcome : Outcome ν ε) :
    Turn ν ε × Buffer :=
  match (InPlace.judge readSize outcome).on b with
  | (.error fault, b) => (.ended (.error fault), b)
  | (.ok (.settled result), b) => (.ended (.ok result), b)
  | (.ok (.starved amount), b) =>
      match (InPlace.reserve amount).on b with
      | (.error fault, b) => (.ended (.error fault), b)
      | (.ok area, b) => (.reads area, b)

/-- A turn is a verdict, and room for the next read where the parser starves. -/
theorem turn_eq [Allocator] (b : Buffer) (readSize : UInt64) (outcome : Outcome ν ε) :
    b.turn readSize outcome =
      match b.judge readSize outcome with
      | .error fault => (.ended (.error fault), b)
      | .ok (.settled result, b) => (.ended (.ok result), b)
      | .ok (.starved amount, b) =>
          match b.reserve amount with
          | .error fault => (.ended (.error fault), b)
          | .ok (area, b) => (.reads area, b) := by
  rw [turn]
  cases hjudge : b.judge readSize outcome with
  | error fault => rw [(InPlace.attempts_judge readSize outcome).on_of_error hjudge]
  | ok judged =>
      obtain ⟨verdict, b'⟩ := judged
      rw [(InPlace.attempts_judge readSize outcome).on_of_ok hjudge]
      cases verdict with
      | settled result => rfl
      | starved amount =>
          cases hreserve : b'.reserve amount with
          | error fault =>
              simp only [hreserve, (InPlace.attempts_reserve amount).on_of_error hreserve]
          | ok reserved =>
              simp only [hreserve, (InPlace.attempts_reserve amount).on_of_ok hreserve]

end Buffer

/-- A run with an answer of type `α`, and the feed that it leaves behind. -/
structure Run (ν ε α : Type) where
  feed : Feed
  transcript : List (Event ν ε)
  answer : Option α

namespace Run

variable {ν ε α β : Type}

/-- Puts events in front of a run. -/
def after (run : Run ν ε α) (events : List (Event ν ε)) : Run ν ε α :=
  { run with transcript := events ++ run.transcript }

def map (f : α → β) (run : Run ν ε α) : Run ν ε β :=
  { feed := run.feed, transcript := run.transcript, answer := run.answer.map f }

end Run

namespace Event

variable {ν ε : Type}

def isLook : Event ν ε → Bool
  | look _ _ => true
  | read _ => false

/-- The buffers at each look, in order. -/
def buffers (transcript : List (Event ν ε)) : List Buffer :=
  transcript.filterMap fun
    | look buffer _ => some buffer
    | read _ => none

/-- The outcomes of the looks, in order. -/
def outcomes (transcript : List (Event ν ε)) : List (Outcome ν ε) :=
  transcript.filterMap fun
    | look _ outcome => some outcome
    | read _ => none

/-- The windows that the parser was shown, in order. -/
def windows (transcript : List (Event ν ε)) : List (List UInt8) :=
  (buffers transcript).map Buffer.window

/-- What the reads brought, in order. -/
def deliveries (transcript : List (Event ν ε)) : List Delivery :=
  transcript.filterMap fun
    | look _ _ => none
    | read delivery => some delivery

/-- The bytes that the reads brought, one after another. -/
def received (transcript : List (Event ν ε)) : List UInt8 :=
  (deliveries transcript).flatMap Delivery.bytes

/-- How often the parser was asked. -/
def looks (transcript : List (Event ν ε)) : Nat := transcript.countP isLook

end Event

namespace Source

/-- The number of the last read that has a code of its own. -/
def lastInjection (source : Source) : Nat :=
  source.injections.foldr (fun injection last => max injection.turn last) 0

/-- A parse that takes more turns than this never ends: past the last injection, each read that
succeeds takes a byte or an empty chunk away. -/
def turns (source : Source) : Nat := source.patience + source.lastInjection

end Source

namespace Feed

variable {ν ε : Type}

/-- At most `turns` looks, each but the last followed by a read. -/
def parseWithin [Allocator] (parser : Parser ν ε) (readSize : UInt64) :
    (turns : Nat) → Feed → Run ν ε (Except Fault (Result ν ε))
  | 0, feed => { feed, transcript := [], answer := none }
  | turns + 1, feed =>
      let outcome := parser feed.buffer.window
      let look := .look feed.buffer outcome
      match feed.buffer.turn readSize outcome with
      | (.ended answer, buffer) =>
          { feed := { feed with buffer }, transcript := [look], answer := some answer }
      | (.reads area, buffer) =>
          let (delivery, feed) := receive { feed with buffer } area
          if delivery.code.failed then
            { feed, transcript := [look, .read delivery],
              answer := some (.ok (.failed (.ofRead delivery.code))) }
          else (parseWithin parser readSize turns feed).after [look, .read delivery]

/-- Parses one value and leaves the bytes behind it for the next parse.  Reads that would ask for
nothing are refused before the parser is asked. -/
def parse [Allocator] (feed : Feed) (parser : Parser ν ε) (readSize : UInt64) :
    Run ν ε (Except Fault (Result ν ε)) :=
  if readSize = 0 then
    { feed, transcript := [], answer := some (.error .zeroReadSize) }
  else parseWithin parser readSize feed.source.turns feed

@[simp]
theorem parse_zero [Allocator] (feed : Feed) (parser : Parser ν ε) :
    feed.parse parser 0 =
      { feed, transcript := [], answer := some (.error .zeroReadSize) } := rfl

theorem parse_of_ne_zero [Allocator] (feed : Feed) (parser : Parser ν ε) {readSize : UInt64}
    (hne : readSize ≠ 0) :
    feed.parse parser readSize = parseWithin parser readSize feed.source.turns feed := by
  simp [parse, hne]

section Turns

variable [Allocator] {parser : Parser ν ε} {readSize : UInt64} {feed : Feed} {buffer : Buffer}

/-- A look that settles the parse is the last event. -/
theorem parseWithin_ended {answer : Except Fault (Result ν ε)} (turns : Nat)
    (hturn : feed.buffer.turn readSize (parser feed.buffer.window) = (.ended answer, buffer)) :
    parseWithin parser readSize (turns + 1) feed =
      { feed := { feed with buffer }
        transcript := [.look feed.buffer (parser feed.buffer.window)]
        answer := some answer } := by
  simp [parseWithin, hturn]

/-- A read that fails is the last event. -/
theorem parseWithin_failed {area : Area} (turns : Nat)
    (hturn : feed.buffer.turn readSize (parser feed.buffer.window) = (.reads area, buffer))
    (hfailed : (receive { feed with buffer } area).1.code.failed = true) :
    parseWithin parser readSize (turns + 1) feed =
      { feed := (receive { feed with buffer } area).2
        transcript := [.look feed.buffer (parser feed.buffer.window),
          .read (receive { feed with buffer } area).1]
        answer := some (.ok (.failed
          (.ofRead (receive { feed with buffer } area).1.code))) } := by
  simp [parseWithin, hturn, hfailed]

/-- After a read that succeeds the parse goes on with the bytes that it brought. -/
theorem parseWithin_received {area : Area} (turns : Nat)
    (hturn : feed.buffer.turn readSize (parser feed.buffer.window) = (.reads area, buffer))
    (hreceived : (receive { feed with buffer } area).1.code.failed = false) :
    parseWithin parser readSize (turns + 1) feed =
      (parseWithin parser readSize turns (receive { feed with buffer } area).2).after
        [.look feed.buffer (parser feed.buffer.window),
          .read (receive { feed with buffer } area).1] := by
  simp [parseWithin, hturn, hreceived]

end Turns

end Feed

end StreamParse
