import StreamParse.Proofs.Course

/-!
# Passages

Looked at from its end, a parse is some reads that succeeded, and then one last turn.  The reads that
lie behind it are all that an unfinished parse has to show, so whatever is said of them holds at every
moment of a parse, and not only when it has an answer.

A parse that does not wait for its reads may end in one more way: its source holds the read, and the
read is cancelled.  It brings no bytes then.
-/

namespace StreamParse

variable {ν ε : Type}

namespace Source

/-- What the reads of a source gave, one after another, and the source behind them.  A read that was
held and then cancelled is counted like the others. -/
inductive Gave (source : Source) : List Delivery → Source → Prop
  | nothing : Gave source [] source
  | read {deliveries : List Delivery} {left : Source} {room : Nat}
      (hgave : Gave source deliveries left) (hroom : 0 < room) :
      Gave source (deliveries ++ [(left.read room).1]) (left.read room).2
  | cancelled {deliveries : List Delivery} {left : Source} (hgave : Gave source deliveries left)
      (hholds : left.holdsNext = true) :
      Gave source (deliveries ++ [{ code := .operationAborted }])
        { left with reads := left.reads + 1 }

variable {source left : Source} {deliveries : List Delivery}

/-- Each delivery is one read. -/
theorem Gave.reads (hgave : source.Gave deliveries left) :
    left.reads = source.reads + deliveries.length := by
  induction hgave with
  | nothing => rfl
  | read _ _ ih => simp [ih, Nat.add_assoc]
  | cancelled _ _ ih => simp [ih, Nat.add_assoc]

/-- What was given is the front of what was unread. -/
theorem Gave.unread (hgave : source.Gave deliveries left) :
    deliveries.flatMap Delivery.bytes ++ left.unread = source.unread := by
  induction hgave with
  | nothing => rfl
  | @read _ left room _ _ ih =>
      rw [List.flatMap_append, List.flatMap_singleton, List.append_assoc, read_unread, ih]
  | @cancelled _ left _ _ ih =>
      rw [List.flatMap_append, List.flatMap_singleton, List.append_assoc, ← ih]
      rfl

end Source

namespace Event

@[simp]
theorem deliveries_append (first second : List (Event ν ε)) :
    deliveries (first ++ second) = deliveries first ++ deliveries second :=
  List.filterMap_append

end Event

namespace Feed

variable [Allocator] {parser : Parser ν ε} {readSize : UInt64}

/-- Turns that ended with reads that succeeded: what happened in them, and the feed that they led
to. -/
inductive Reaches (parser : Parser ν ε) (readSize : UInt64) (first : Feed) :
    List (Event ν ε) → Feed → Prop
  | nothing : Reaches parser readSize first [] first
  | read {past : List (Event ν ε)} {mid next : Feed} {delivery : Delivery}
      (hreaches : Reaches parser readSize first past mid)
      (hreads : Reads parser readSize mid delivery next)
      (hreceived : delivery.code.failed = false) :
      Reaches parser readSize first
        (past ++ [.look mid.buffer (parser mid.buffer.window), .read delivery]) next

/-- The feed behind a read that was held until it was cancelled: nothing was written, and nothing is
committed. -/
def cancelled (feed : Feed) (area : Area) : Feed where
  source := { feed.source with reads := feed.source.reads + 1 }
  buffer := (feed.buffer.fill area []).commit 0

/-- A turn that is the last one of a parse. -/
inductive Ends (parser : Parser ν ε) (readSize : UInt64) (feed : Feed) :
    List (Event ν ε) → Except Fault (Result ν ε) → Feed → Prop
  | look {answer : Except Fault (Result ν ε)} {buffer : Buffer}
      (hturn : feed.buffer.turn readSize (parser feed.buffer.window) = (.ended answer, buffer)) :
      Ends parser readSize feed [.look feed.buffer (parser feed.buffer.window)] answer
        { feed with buffer }
  | read {delivery : Delivery} {next : Feed} (hreads : Reads parser readSize feed delivery next)
      (hfailed : delivery.code.failed = true) :
      Ends parser readSize feed
        [.look feed.buffer (parser feed.buffer.window), .read delivery]
        (.ok (.failed (.ofRead delivery.code))) next
  | cancelled {area : Area} {buffer : Buffer}
      (hturn : feed.buffer.turn readSize (parser feed.buffer.window) = (.reads area, buffer))
      (hholds : feed.source.holdsNext = true) :
      Ends parser readSize feed
        [.look feed.buffer (parser feed.buffer.window), .read { code := .operationAborted }]
        (.ok (.failed (.ofRead .operationAborted))) (cancelled { feed with buffer } area)

/-- A parse from its first look to its answer. -/
inductive Passage (parser : Parser ν ε) (readSize : UInt64) (first : Feed) :
    List (Event ν ε) → Except Fault (Result ν ε) → Feed → Prop
  | intro {past rest : List (Event ν ε)} {mid last : Feed} {answer : Except Fault (Result ν ε)}
      (hreaches : Reaches parser readSize first past mid)
      (hends : Ends parser readSize mid rest answer last) :
      Passage parser readSize first (past ++ rest) answer last

/-! ## The reads that lie behind -/

section Reaches

variable {first mid : Feed} {past : List (Event ν ε)}

theorem Reaches.valid (hread : readSize ≠ 0) (hreaches : Reaches parser readSize first past mid)
    (valid : first.buffer.Valid) : mid.buffer.Valid := by
  induction hreaches with
  | nothing => exact valid
  | read _ hreads _ ih => exact hreads.valid hread ih

theorem Reaches.limit (hread : readSize ≠ 0) (hreaches : Reaches parser readSize first past mid) :
    mid.buffer.limit = first.buffer.limit := by
  induction hreaches with
  | nothing => rfl
  | read _ hreads _ ih => exact (hreads.limit hread).trans ih

theorem Reaches.size_le (hread : readSize ≠ 0) (hreaches : Reaches parser readSize first past mid)
    (valid : first.buffer.Valid)
    (hsize : first.buffer.size.toNat ≤ first.buffer.limit.toNat) :
    mid.buffer.size.toNat ≤ mid.buffer.limit.toNat := by
  cases hreaches with
  | nothing => exact hsize
  | read hreaches hreads _ => exact hreads.size_le hread (hreaches.valid hread valid)

/-- The window has grown by the bytes of these reads, and by no others. -/
theorem Reaches.window (hread : readSize ≠ 0) (hreaches : Reaches parser readSize first past mid)
    (valid : first.buffer.Valid) :
    mid.buffer.window = first.buffer.window ++ Event.received past := by
  induction hreaches with
  | nothing => exact (List.append_nil _).symm
  | @read past mid next delivery hreaches hreads _ ih =>
      rw [hreads.window hread (hreaches.valid hread valid), ih, List.append_assoc,
        Event.received, Event.received, Event.deliveries_append, List.flatMap_append]
      congr 2
      exact (List.append_nil _).symm

theorem Reaches.gave (hread : readSize ≠ 0) (hreaches : Reaches parser readSize first past mid) :
    first.source.Gave (Event.deliveries past) mid.source := by
  induction hreaches with
  | nothing => exact .nothing
  | read _ hreads _ ih =>
      obtain ⟨room, hroom, rfl, hsource⟩ := hreads.source hread
      rw [Event.deliveries_append, hsource]
      exact ih.read hroom

/-- One more read may come before all others. -/
theorem Reaches.cons {next : Feed} {delivery : Delivery}
    (hreads : Reads parser readSize first delivery next)
    (hreceived : delivery.code.failed = false)
    (hreaches : Reaches parser readSize next past mid) :
    Reaches parser readSize first
      (.look first.buffer (parser first.buffer.window) :: .read delivery :: past) mid := by
  induction hreaches with
  | nothing => exact .read .nothing hreads hreceived
  | read _ hlater hreceived' ih => exact .read ih hlater hreceived'

end Reaches

/-! ## Every course is a passage -/

theorem Course.passage {first last : Feed} {transcript : List (Event ν ε)}
    {answer : Except Fault (Result ν ε)}
    (hcourse : Course parser readSize first transcript answer last) :
    Passage parser readSize first transcript answer last := by
  induction hcourse with
  | ended hturn => exact .intro .nothing (.look hturn)
  | failed hreads hfailed => exact .intro .nothing (.read hreads hfailed)
  | received hreads hreceived _ ih =>
      cases ih with
      | intro hreaches hends => exact .intro (hreaches.cons hreads hreceived) hends

end Feed

end StreamParse
