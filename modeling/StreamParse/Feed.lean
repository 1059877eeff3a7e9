import StreamParse.Buffer.Valid
import StreamParse.Source

/-!
# Feeds

A feed is a source together with the buffer that its bytes go into.  A read moves bytes from the
front of what is unread to the end of the window and does nothing else, so the window followed by
the unread bytes is the same before and after it.
-/

namespace StreamParse

structure Feed where
  source : Source
  buffer : Buffer := .unlimited
  deriving DecidableEq, Repr

namespace Feed

instance : Inhabited Feed := ⟨{ source := .closed }⟩

/-- All bytes that are still to be parsed: first those that were read, then the others. -/
def pending (feed : Feed) : List UInt8 := feed.buffer.window ++ feed.source.unread

/-- One read into an area that was reserved before.  What it brings joins the window, also where
the read reports a failure. -/
def receive (feed : Feed) (area : Area) : Delivery × Feed :=
  let (delivery, source) := feed.source.read area.size.toNat
  let buffer := feed.buffer.fill area delivery.bytes
  (delivery, { source, buffer := buffer.commit delivery.bytes.length.toUInt64 })

/-- One read of at most `n` bytes, or of one byte when `n` is zero. -/
def refill [Allocator] (feed : Feed) (n : UInt64) : Except Fault (Delivery × Feed) := do
  let (area, buffer) ← feed.buffer.reserve n
  return receive { feed with buffer } area

/-- One read in place: the room for it is found first. -/
def InPlace.refill [Allocator] (n : UInt64) : Mutation Feed Delivery := do
  let area ← (Buffer.InPlace.reserve n).within Feed.buffer fun feed buffer => { feed with buffer }
  modifyGet fun feed => feed.receive area

/-- A read for which there is no room takes nothing from the source. -/
theorem InPlace.attempts_refill [Allocator] (n : UInt64) :
    (InPlace.refill n).Attempts fun feed => feed.refill n := by
  intro feed
  have reserves := (Buffer.InPlace.attempts_reserve n).within Feed.buffer
    (fun feed buffer => { feed with buffer }) (fun _ => rfl) feed
  simp only [InPlace.refill, Feed.refill, EStateM.run_bind, reserves]
  cases feed.buffer.reserve n <;> rfl

theorem source_receive (feed : Feed) (area : Area) :
    (feed.receive area).2.source = (feed.source.read area.size.toNat).2 := rfl

theorem delivery_receive (feed : Feed) (area : Area) :
    (feed.receive area).1 = (feed.source.read area.size.toNat).1 := rfl

/-- One read brings no more than the area takes. -/
theorem length_receive_le (feed : Feed) (area : Area) :
    (feed.receive area).1.bytes.length ≤ area.size.toNat :=
  Source.length_read_le feed.source area.size.toNat

/-- What a read brings joins the window. -/
theorem window_receive {feed : Feed} {area : Area} (valid : feed.buffer.Valid)
    (hoffset : area.offset.toNat = feed.buffer.start.toNat + feed.buffer.size.toNat)
    (harea : area.offset.toNat + area.size.toNat ≤ feed.buffer.capacity.toNat) :
    (feed.receive area).2.buffer.window =
      feed.buffer.window ++ (feed.receive area).1.bytes :=
  valid.window_commit_fill hoffset harea (feed.length_receive_le area)

theorem valid_receive {feed : Feed} (valid : feed.buffer.Valid) (area : Area) :
    (feed.receive area).2.buffer.Valid :=
  (valid.fill area _).commit _

/-- A read loses no byte and changes no order. -/
theorem pending_receive {feed : Feed} {area : Area} (valid : feed.buffer.Valid)
    (hoffset : area.offset.toNat = feed.buffer.start.toNat + feed.buffer.size.toNat)
    (harea : area.offset.toNat + area.size.toNat ≤ feed.buffer.capacity.toNat) :
    (feed.receive area).2.pending = feed.pending := by
  rw [pending, window_receive valid hoffset harea, List.append_assoc, source_receive,
    delivery_receive, Source.read_unread]
  rfl

end Feed

end StreamParse
