import StreamParse.Answer
import StreamParse.Proofs.Buffer.ByteQueue

/-!
# Buffers that look alike

Two buffers with the same window, the same capacity and the same limit may differ in where the window
lies and in what the allocation holds besides.  Nothing of that is ever seen by a parser: whatever is
parsed, a look at the one leads where a look at the other leads, a read finds room for as many bytes,
and when both have taken in what it brought they look alike again.

While a read is under way its bytes lie behind both windows.  That is all that has to be said of the
memory outside them.
-/

namespace StreamParse

variable {ν ε : Type}

namespace Buffer

/-- The buffer that looks like this one and has its window at the front of an allocation that holds
nothing else. -/
def packed (b : Buffer) : Buffer where
  size := b.size
  capacity := b.capacity
  limit := b.limit
  storage := .ofList b.window

theorem packed_eq_iff {b other : Buffer} :
    b.packed = other.packed ↔
      b.window = other.window ∧ b.capacity = other.capacity ∧ b.limit = other.limit := by
  constructor
  · intro hsame
    have hcapacity : b.packed.capacity = other.packed.capacity := by rw [hsame]
    have hlimit : b.packed.limit = other.packed.limit := by rw [hsame]
    have hstorage : b.packed.storage = other.packed.storage := by rw [hsame]
    exact ⟨congrArg Storage.cells hstorage, hcapacity, hlimit⟩
  · rintro ⟨hwindow, hcapacity, hlimit⟩
    have hsize : b.size = other.size := by
      apply UInt64.toNat_inj.mp
      rw [← length_window, ← length_window, hwindow]
    rw [packed, packed, hwindow, hsize, hcapacity, hlimit]

theorem queue_eq_iff {b other : Buffer} :
    b.queue = other.queue ↔ b.packed = other.packed := by
  rw [packed_eq_iff]
  simp [queue, UInt64.toNat_inj]

/-- Two buffers that look alike, with the same bytes on their way behind the window. -/
structure Resembles (pending : List UInt8) (b other : Buffer) : Prop where
  valid : b.Valid
  valid' : other.Valid
  same : b.packed = other.packed
  written : b.Written pending
  written' : other.Written pending

theorem Valid.resembles {b other : Buffer} (valid : b.Valid) (valid' : other.Valid)
    (hsame : b.packed = other.packed) : b.Resembles [] other where
  valid := valid
  valid' := valid'
  same := hsame
  written := valid.written_nil
  written' := valid'.written_nil

section Resembles

variable {b other : Buffer} {pending : List UInt8}

/-- Bytes that are on their way may be given up. -/
theorem Resembles.without (resembles : b.Resembles pending other) : b.Resembles [] other :=
  resembles.valid.resembles resembles.valid' resembles.same

theorem Resembles.window (resembles : b.Resembles pending other) : b.window = other.window :=
  (packed_eq_iff.mp resembles.same).1

theorem Resembles.size (resembles : b.Resembles pending other) : b.size = other.size := by
  rw [← UInt64.toNat_inj, ← length_window, ← length_window, resembles.window]

/-- Both ask for reads of the same size. -/
theorem Resembles.nextRead (resembles : b.Resembles pending other) (hint : Option Nat)
    (readSize : UInt64) : b.nextRead hint readSize = other.nextRead hint readSize := by
  obtain ⟨_, hcapacity, hlimit⟩ := packed_eq_iff.mp resembles.same
  cases hint <;>
    simp only [Buffer.nextRead, appetite, hintReach, headroom, resembles.size, hcapacity, hlimit]

theorem Resembles.discard (resembles : b.Resembles pending other) (n : UInt64) :
    (b.discard n).Resembles [] (other.discard n) := by
  apply (resembles.valid.discard n).resembles (resembles.valid'.discard n)
  rw [← queue_eq_iff, resembles.valid.queue_discard, resembles.valid'.queue_discard,
    queue_eq_iff.mpr resembles.same]

/-- When both have taken in what was on its way they look alike again. -/
theorem Resembles.commit (resembles : b.Resembles pending other) :
    (b.commit pending.length.toUInt64).Resembles [] (other.commit pending.length.toUInt64) := by
  have hlength : pending.length.toUInt64.toNat = pending.length := by
    have hfits := resembles.written.fits
    have hcapacity := b.capacity.toNat_lt
    exact Word.toNat_ofNat (by omega)
  have htake := Nat.le_of_eq hlength
  apply (resembles.valid.commit _).resembles (resembles.valid'.commit _)
  rw [← queue_eq_iff, (resembles.written.commit resembles.valid htake).1,
    (resembles.written'.commit resembles.valid' htake).1, queue_eq_iff.mpr resembles.same]

/-- Room for as many bytes, and whatever is written there is on its way in both. -/
structure Beckons (area area' : Area) (b other : Buffer) : Prop where
  size : area.size = area'.size
  fill (bytes : List UInt8) : bytes.length ≤ area.size.toNat →
    (b.fill area bytes).Resembles bytes (other.fill area' bytes)

/-- Room is found in both or in neither. -/
theorem Resembles.reserve [Allocator] (resembles : b.Resembles pending other) (n : UInt64) :
    (∃ fault, b.reserve n = .error fault ∧ other.reserve n = .error fault) ∨
      ∃ area next area' next', b.reserve n = .ok (area, next) ∧
        other.reserve n = .ok (area', next') ∧ Beckons area area' next next' := by
  have hqueue := queue_reserve resembles.valid n
  rw [queue_eq_iff.mpr resembles.same, queue_reserve resembles.valid' n] at hqueue
  cases hreserve : b.reserve n with
  | error fault =>
      cases hreserve' : other.reserve n with
      | error fault' =>
          rw [hreserve, hreserve'] at hqueue
          cases hqueue
          exact .inl ⟨fault, rfl, rfl⟩
      | ok found' =>
          rw [hreserve, hreserve'] at hqueue
          cases hqueue
  | ok found =>
      obtain ⟨area, next⟩ := found
      cases hreserve' : other.reserve n with
      | error fault' =>
          rw [hreserve, hreserve'] at hqueue
          cases hqueue
      | ok found' =>
          obtain ⟨area', next'⟩ := found'
          rw [hreserve, hreserve'] at hqueue
          have hsame : next'.queue = next.queue := Except.ok.inj hqueue
          have hsize := size_of_reserve hreserve
          have hsize' := size_of_reserve hreserve'
          obtain ⟨valid, hoffset, _⟩ := resembles.valid.reserve hreserve
          obtain ⟨valid', hoffset', _⟩ := resembles.valid'.reserve hreserve'
          refine .inr ⟨area, next, area', next', rfl, rfl, hsize.trans hsize'.symm, ?_⟩
          intro bytes hbytes
          rw [hsize] at hbytes
          exact {
            valid := valid.fill area bytes
            valid' := valid'.fill area' bytes
            same := by
              rw [← queue_eq_iff, queue_fill hoffset, queue_fill hoffset', hsame]
            written := resembles.valid.written hreserve hbytes
            written' := resembles.valid'.written hreserve' hbytes }

/-- Two looks that lead to the same answer, or to reads of the same size. -/
inductive SameTurn : Turn ν ε × Buffer → Turn ν ε × Buffer → Prop
  | ended {b other : Buffer} (answer : Except Fault (Result ν ε))
      (resembles : b.Resembles [] other) : SameTurn (.ended answer, b) (.ended answer, other)
  | reads {b other : Buffer} {area area' : Area} (beckons : Beckons area area' b other) :
      SameTurn (.reads area, b) (.reads area', other)

/-- Whatever the parser makes of the window, it leads to the same. -/
theorem Resembles.turn [Allocator] (resembles : b.Resembles [] other) (readSize : UInt64)
    (outcome : Outcome ν ε) : SameTurn (b.turn readSize outcome) (other.turn readSize outcome) := by
  cases outcome with
  | done value used =>
      by_cases hused : b.size.toNat < used
      · have hused' : other.size.toNat < used := resembles.size ▸ hused
        simp only [turn_eq, judge, if_pos hused, if_pos hused']
        exact .ended _ resembles
      · have hused' : ¬ other.size.toNat < used := resembles.size ▸ hused
        simp only [turn_eq, judge, if_neg hused, if_neg hused']
        exact .ended _ (resembles.discard _)
  | reject error =>
      simp only [turn_eq, judge_reject]
      exact .ended _ resembles
  | more hint =>
      have hnext := resembles.nextRead hint readSize
      by_cases hfull : other.nextRead hint readSize = 0
      · simp only [turn_eq, judge, hnext, if_pos hfull]
        exact .ended _ resembles
      · simp only [turn_eq, judge, hnext, if_neg hfull]
        rcases resembles.reserve (other.nextRead hint readSize) with
          ⟨fault, hreserve, hreserve'⟩ |
          ⟨area, next, area', next', hreserve, hreserve', beckons⟩
        · rw [hreserve, hreserve']
          exact .ended _ resembles
        · rw [hreserve, hreserve']
          exact .reads beckons

end Resembles

end Buffer

namespace Event

/-- What is seen of an event, wherever the window lay in its allocation. -/
def packed : Event ν ε → Event ν ε
  | look buffer outcome => look buffer.packed outcome
  | read delivery => read delivery

end Event

namespace Feed

/-- Two feeds with the same source and with buffers that look alike. -/
structure Resembles (pending : List UInt8) (feed other : Feed) : Prop where
  source : feed.source = other.source
  buffer : feed.buffer.Resembles pending other.buffer

variable {feed other : Feed} {parser : Parser ν ε} {readSize : UInt64}

theorem Resembles.without {pending : List UInt8} (resembles : feed.Resembles pending other) :
    feed.Resembles [] other :=
  ⟨resembles.source, resembles.buffer.without⟩

/-- The same look is seen at both. -/
theorem Resembles.look (resembles : feed.Resembles [] other) (parser : Parser ν ε) :
    Event.packed (.look feed.buffer (parser feed.buffer.window)) =
      Event.packed (.look other.buffer (parser other.buffer.window)) := by
  rw [Event.packed, Event.packed, resembles.buffer.same, resembles.buffer.window]

theorem Resembles.turn [Allocator] (resembles : feed.Resembles [] other) (parser : Parser ν ε)
    (readSize : UInt64) :
    Buffer.SameTurn (feed.buffer.turn readSize (parser feed.buffer.window))
      (other.buffer.turn readSize (parser other.buffer.window)) := by
  rw [resembles.buffer.window]
  exact resembles.buffer.turn readSize _

/-- A read brings the same to both, and afterwards they look alike. -/
theorem receive_resembles {area area' : Area} (hsource : feed.source = other.source)
    (beckons : Buffer.Beckons area area' feed.buffer other.buffer) :
    (feed.receive area).1 = (other.receive area').1 ∧
      (feed.receive area).2.Resembles [] (other.receive area').2 := by
  have hfill := beckons.fill _ (feed.length_receive_le area)
  have hread : feed.source.read area.size.toNat = other.source.read area'.size.toNat := by
    rw [hsource, beckons.size]
  rw [delivery_receive] at hfill
  refine ⟨?_, ?_, ?_⟩
  · rw [delivery_receive, delivery_receive, hread]
  · rw [source_receive, source_receive, hread]
  · simp only [receive, ← hread]
    exact hfill.commit

end Feed

namespace Run

/-- Two runs of which the same is seen, and which leave feeds that look alike. -/
structure Resembles {α : Type} (run other : Run ν ε α) : Prop where
  answer : run.answer = other.answer
  transcript : run.transcript.map Event.packed = other.transcript.map Event.packed
  feed : run.feed.Resembles [] other.feed

variable {α β : Type} {run other : Run ν ε α}

theorem Resembles.map (resembles : run.Resembles other) (f : α → β) :
    (run.map f).Resembles (other.map f) where
  answer := congrArg (Option.map f) resembles.answer
  transcript := resembles.transcript
  feed := resembles.feed

theorem Resembles.after (resembles : run.Resembles other) {events others : List (Event ν ε)}
    (hevents : events.map Event.packed = others.map Event.packed) :
    (run.after events).Resembles (other.after others) where
  answer := resembles.answer
  transcript := by
    simp only [Run.after, List.map_append, hevents, resembles.transcript]
  feed := resembles.feed

end Run

namespace Feed

variable [Allocator] {feed other : Feed} {parser : Parser ν ε} {readSize : UInt64}

/-- A parse is the same on both, however often it reads. -/
theorem Resembles.parseWithin (resembles : feed.Resembles [] other) (turns : Nat) :
    (parseWithin parser readSize turns feed).Resembles (parseWithin parser readSize turns other) := by
  induction turns generalizing feed other with
  | zero => exact ⟨rfl, rfl, resembles⟩
  | succ turns ih =>
      have hlook := resembles.look parser
      have same := resembles.turn parser readSize
      rcases hturn : feed.buffer.turn readSize (parser feed.buffer.window) with ⟨turn, b⟩
      rcases hturn' : other.buffer.turn readSize (parser other.buffer.window) with ⟨turn', b'⟩
      rw [hturn, hturn'] at same
      cases same with
      | ended answer hbuffers =>
          rw [parseWithin_ended turns hturn, parseWithin_ended turns hturn']
          exact ⟨rfl, congrArg (fun event => [event]) hlook, resembles.source, hbuffers⟩
      | @reads _ _ area area' beckons =>
          obtain ⟨hdelivery, hfeeds⟩ := @receive_resembles { feed with buffer := b }
            { other with buffer := b' } area area' resembles.source beckons
          have hevents : [.look feed.buffer (parser feed.buffer.window),
                .read (receive { feed with buffer := b } area).1].map Event.packed =
              [.look other.buffer (parser other.buffer.window),
                .read (receive { other with buffer := b' } area').1].map Event.packed := by
            rw [hdelivery]
            exact congrArg (fun event => [event, _]) hlook
          cases hfailed : (receive { feed with buffer := b } area).1.code.failed with
          | true =>
              have hfailed' := hfailed
              rw [hdelivery] at hfailed'
              rw [parseWithin_failed turns hturn hfailed, parseWithin_failed turns hturn' hfailed']
              refine ⟨?_, hevents, hfeeds⟩
              rw [hdelivery]
          | false =>
              have hfailed' := hfailed
              rw [hdelivery] at hfailed'
              rw [parseWithin_received turns hturn hfailed,
                parseWithin_received turns hturn' hfailed']
              exact (ih hfeeds).after hevents

theorem Resembles.parse (resembles : feed.Resembles [] other) (parser : Parser ν ε)
    (readSize : UInt64) :
    (feed.parse parser readSize).Resembles (other.parse parser readSize) := by
  by_cases hread : readSize = 0
  · rw [hread, parse_zero, parse_zero]
    exact ⟨rfl, rfl, resembles⟩
  · rw [parse_of_ne_zero feed parser hread, parse_of_ne_zero other parser hread,
      resembles.source]
    exact resembles.parseWithin _

/-- And it answers the same, in whatever way the answer is wanted. -/
theorem Resembles.parseAs (resembles : feed.Resembles [] other) (mode : AnswerMode ε)
    (parser : Parser ν ε) (readSize : UInt64) :
    (feed.parseAs mode parser readSize).Resembles (other.parseAs mode parser readSize) := by
  have hparse := resembles.parse parser readSize
  cases mode with
  | result => exact hparse.map _
  | reporting earlier =>
      simp only [Feed.parseAs, parseReporting, hparse.answer]
      exact (hparse.map _).map _
  | value => exact (hparse.map _).map _

end Feed

end StreamParse
