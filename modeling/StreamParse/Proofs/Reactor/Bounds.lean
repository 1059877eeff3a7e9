import StreamParse.Parser.Scripted
import StreamParse.Proofs.Bounds
import StreamParse.Proofs.Reactor.Endings

/-!
# Every parse keeps to its limit

A parse that waits for its reads can be looked at after any number of turns, and one that was started
after any history that leaves it alone.  At all these moments, and at every look and every read in
between, its buffer is within the limit that it had when the parse began, as long as nobody else
touches it.
-/

namespace StreamParse

variable {ν ε : Type}

section Limits

variable [Allocator]

namespace Operation

variable {operation waiting : Operation ν ε} {first feed : Feed} {delivery : Delivery}
variable {news : News ν ε}

/-- While a read is outstanding the buffer is within the limit, whatever has been written for it. -/
theorem contained_waiting {past : List (Event ν ε)} {mid : Feed} {area : Area} {buffer : Buffer}
    (hread : operation.readSize ≠ 0) (valid : first.buffer.Valid)
    (hsize : first.buffer.size.toNat ≤ first.buffer.limit.toNat)
    (hreaches : Feed.Reaches operation.parser operation.readSize first past mid)
    (hturn : mid.buffer.turn operation.readSize (operation.parser mid.buffer.window) =
      (.reads area, buffer)) (bytes : List UInt8) :
    first.buffer.Contained (buffer.fill area bytes) := by
  have contained := hreaches.contained hread valid (Buffer.contained_self hsize)
  exact (Feed.contained_of_reads hread contained hturn).1.fill area bytes

/-- At every stage the buffer is within the limit. -/
theorem Stage.contained {remnant? : Option (Remnant ν ε)} (hread : operation.readSize ≠ 0)
    (valid : first.buffer.Valid) (hsize : first.buffer.size.toNat ≤ first.buffer.limit.toNat)
    (stage : operation.Stage first feed remnant? news) : first.buffer.Contained feed.buffer := by
  have contained := Buffer.contained_self hsize
  cases stage with
  | settled hturn => exact Feed.contained_of_ended hread contained hturn
  | refused hturn => exact Feed.contained_of_ended hread contained hturn
  | arriving hreaches hturn _ => exact contained_waiting hread valid hsize hreaches hturn _
  | held hreaches hturn _ => exact contained_waiting hread valid hsize hreaches hturn []
  | cancelled hreaches hturn _ => exact contained_waiting hread valid hsize hreaches hturn []
  | completed hpassage => exact (hpassage.heeds hread valid hsize).1
  | broken hpassage => exact (hpassage.heeds hread valid hsize).1

/-- What a parse has done until it waits for a read. -/
theorem heeds_waiting {past : List (Event ν ε)} {mid : Feed} {area : Area} {buffer : Buffer}
    {left : Source} (hread : operation.readSize ≠ 0) (valid : first.buffer.Valid)
    (hsize : first.buffer.size.toNat ≤ first.buffer.limit.toNat)
    (hreaches : Feed.Reaches operation.parser operation.readSize first past mid)
    (hturn : mid.buffer.turn operation.readSize (operation.parser mid.buffer.window) =
      (.reads area, buffer)) (hgives : mid.source.Gives area.size.toNat delivery left) :
    Feed.Heeds operation.readSize first.buffer first.source (operation.waiting past mid).transcript
      (Event.deliveries (operation.waiting past mid).transcript ++ [delivery]) left := by
  have contained := Buffer.contained_self hsize
  rw [deliveries_waiting]
  exact (hreaches.heeds hread valid contained).append
    (Feed.heeds_look_of_reads hread (hreaches.contained hread valid contained) hturn hgives)

/-- A parse whose read has ended and is queued has heeded the limit. -/
theorem Stage.heeds (hread : operation.readSize ≠ 0) (valid : first.buffer.Valid)
    (hsize : first.buffer.size.toNat ≤ first.buffer.limit.toNat)
    (stage : operation.Stage first feed (some (.queued (.arrive (.parse waiting) delivery))) news) :
    Feed.Heeds operation.readSize first.buffer first.source waiting.transcript
      (Event.deliveries waiting.transcript ++ [delivery]) feed.source := by
  cases stage with
  | arriving hreaches hturn _ => exact heeds_waiting hread valid hsize hreaches hturn .read
  | cancelled hreaches hturn hholds =>
      exact heeds_waiting hread valid hsize hreaches hturn (.cancelled hholds)

end Operation

namespace Reactor

variable {reactor : Reactor ν ε} {operation : Operation ν ε} {start : Request ν ε}
variable {during : List (Request ν ε)}

/-- Whatever has happened since, the buffer of a started parse is within the limit. -/
theorem Undertakes.contained (undertakes : reactor.Undertakes operation start during)
    (hread : operation.readSize ≠ 0) (valid : (reactor.feedAt operation.place).buffer.Valid)
    (hsize : (reactor.feedAt operation.place).buffer.size.toNat ≤
      (reactor.feedAt operation.place).buffer.limit.toNat) :
    (reactor.feedAt operation.place).buffer.Contained
      ((reactor.after (start :: during)).feedAt operation.place).buffer := by
  obtain ⟨alone, shadow, career⟩ :=
    stages_of_clear undertakes.clear undertakes.hosts undertakes.parse hread undertakes.tended
  cases career with
  | intro hstage =>
      rw [shadow.feedAt_of_career ((hosts_abandon reactor _).mpr undertakes.hosts) rfl]
      exact hstage.contained hread valid hsize

/-- While a read is outstanding, the parse has heeded the limit. -/
theorem Undertakes.heeds (undertakes : reactor.Undertakes operation start during)
    (hread : operation.readSize ≠ 0) (valid : (reactor.feedAt operation.place).buffer.Valid)
    (hsize : (reactor.feedAt operation.place).buffer.size.toNat ≤
      (reactor.feedAt operation.place).buffer.limit.toNat)
    {waiting : Operation ν ε} {delivery : Delivery}
    (awaits : (reactor.after (start :: during)).Awaits operation.id waiting delivery) :
    Feed.Heeds operation.readSize (reactor.feedAt operation.place).buffer
      (reactor.feedAt operation.place).source waiting.transcript
      (Event.deliveries waiting.transcript ++ [delivery])
      ((reactor.after (start :: during)).feedAt operation.place).source := by
  have hosts' := (hosts_abandon reactor operation.place).mpr undertakes.hosts
  obtain ⟨source, hsource⟩ := hosts'.sourceId?
  obtain ⟨alone, shadow, career⟩ :=
    stages_of_clear undertakes.clear undertakes.hosts undertakes.parse hread undertakes.tended
  cases awaits with
  | queued hid hmem =>
      exact (career.of_queued shadow rfl hosts' hmem hid).heeds hread valid hsize
  | held hid hmem =>
      exact (career.of_held shadow rfl hosts' hsource hmem hid).1.cancel.heeds hread valid hsize

end Reactor

namespace Feed

/-- A moment of a parse: the feed that it began with, and the feed as it is. -/
inductive Moment : Parser ν ε → UInt64 → Feed → Feed → Prop
  /-- The parse waits for its reads and has taken some turns. -/
  | waited {feed : Feed} {parser : Parser ν ε} {readSize : UInt64} (turns : Nat) :
      Moment parser readSize feed (feed.parseWithin parser readSize turns).feed
  /-- The parse was started some time ago. -/
  | started {reactor : Reactor ν ε} {operation : Operation ν ε} {start : Request ν ε}
      {during : List (Request ν ε)} (undertakes : reactor.Undertakes operation start during) :
      Moment operation.parser operation.readSize (reactor.feedAt operation.place)
        ((reactor.after (start :: during)).feedAt operation.place)

/-- What can be seen of a parse at such a moment: the feed that it began with, its events, what its
reads brought, and its source. -/
inductive Shows : Parser ν ε → UInt64 → Feed → List (Event ν ε) → List Delivery → Source → Prop
  | waited {feed : Feed} {parser : Parser ν ε} {readSize : UInt64} (turns : Nat) :
      Shows parser readSize feed (feed.parseWithin parser readSize turns).transcript
        (Event.deliveries (feed.parseWithin parser readSize turns).transcript)
        (feed.parseWithin parser readSize turns).feed.source
  /-- A read is outstanding. -/
  | awaiting {reactor : Reactor ν ε} {operation waiting : Operation ν ε} {start : Request ν ε}
      {during : List (Request ν ε)} {delivery : Delivery}
      (undertakes : reactor.Undertakes operation start during)
      (awaits : (reactor.after (start :: during)).Awaits operation.id waiting delivery) :
      Shows operation.parser operation.readSize (reactor.feedAt operation.place)
        waiting.transcript (Event.deliveries waiting.transcript ++ [delivery])
        ((reactor.after (start :: during)).feedAt operation.place).source
  /-- The end has been told. -/
  | told {reactor : Reactor ν ε} {operation : Operation ν ε} {start : Request ν ε}
      {during : List (Request ν ε)} {transcript : List (Event ν ε)}
      {answer : Except Fault (Result ν ε)} (undertakes : reactor.Undertakes operation start during)
      (tells : (reactor.news operation.id (start :: during)).Tells operation.id transcript
        answer) :
      Shows operation.parser operation.readSize (reactor.feedAt operation.place) transcript
        (Event.deliveries transcript)
        ((reactor.after (start :: during)).feedAt operation.place).source

end Feed

/-- A parse that begins within the limit keeps to it, with any parser and any source.  At every moment,
every look and every read its window is within the limit, and its allocation is not larger than the
limit or than it was.  Every read is offered a byte or more and at most what the limit leaves.  Room is
never refused.  It fails with an overflow exactly if it asks for more of a full window, or if the source
itself reports the code of an overflow; and in the first case the window has what the limit allows, and
the source has given nothing beyond. -/
theorem parses_keep_to_the_limit {parser : Parser ν ε} {readSize : UInt64} {first : Feed}
    (valid : first.buffer.Valid) (hsize : first.buffer.size.toNat ≤ first.buffer.limit.toNat)
    (hread : readSize ≠ 0) :
    (∀ {now : Feed}, Feed.Moment parser readSize first now → first.buffer.Contained now.buffer) ∧
      (∀ {transcript : List (Event ν ε)} {deliveries : List Delivery} {left : Source},
        Feed.Shows parser readSize first transcript deliveries left →
        Feed.Heeds readSize first.buffer first.source transcript deliveries left) ∧
      ∀ {transcript : List (Event ν ε)} {answer : Except Fault (Result ν ε)} {last : Feed},
        Feed.Finishes parser readSize first transcript answer last →
        Feed.Respects first transcript answer last := by
  refine ⟨?moments, ?events, ?ends⟩
  case moments =>
    intro now moment
    cases moment with
    | waited turns => exact (Feed.parseWithin_heeds hread valid hsize turns).1
    | started undertakes => exact undertakes.contained hread valid hsize
  case events =>
    intro transcript deliveries left shows
    cases shows with
    | waited turns => exact (Feed.parseWithin_heeds hread valid hsize turns).2
    | awaiting undertakes awaits => exact undertakes.heeds hread valid hsize awaits
    | told undertakes tells =>
        have hfinishes := Feed.Finishes.started undertakes tells
        exact ((hfinishes.passage hread).heeds hread valid hsize).2
  case ends =>
    intro transcript answer last hfinishes
    exact (hfinishes.passage hread).respects hread valid hsize

end Limits

/-- Five bytes for a buffer that may have four, in an allocation that is larger than that. -/
def fiveForFour : Feed where
  source := { chunks := [[97, 98, 99], [100, 101]] }
  buffer := { limit := 4, capacity := 6 }

/-- The first read is offered what the limit allows and the second one what it leaves, and then the
parse ends, whether it waits for its reads or was started. -/
theorem five_bytes_keep_to_limit_of_four :
    (∀ turns, fiveForFour.buffer.Contained
        (fiveForFour.parseWithin (Parser.hinted 9) 2 turns).feed.buffer) ∧
      fiveForFour.source.GaveInto [4, 1] [{ bytes := [97, 98, 99] }, { bytes := [100] }]
        { chunks := [[101]], reads := 2 } ∧
      (fiveForFour.parse (Parser.hinted 9) 2).answer = some (.ok (.failed .overflow)) ∧
      (fiveForFour.parse (Parser.hinted 9) 2).feed.source.unread = [101] ∧
      ∃ transcript : List (Event (List UInt8) BadByte),
        Event.windows transcript = [[], [97, 98, 99], [97, 98, 99, 100]] ∧
        Feed.Respects fiveForFour transcript (.ok (.failed .overflow))
          (fiveForFour.leftBehind (Parser.hinted 9) 2) := by
  have valid : fiveForFour.buffer.Valid := ⟨by decide, by decide⟩
  have hsize : fiveForFour.buffer.size.toNat ≤ fiveForFour.buffer.limit.toNat := by decide
  have hanswer : (fiveForFour.parse (Parser.hinted 9) 2).answer =
      some (.ok (.failed .overflow)) := by
    decide +kernel
  have hasks : Event.AsksBeyond 4 (fiveForFour.parse (Parser.hinted 9) 2).transcript :=
    ⟨⟨some 9, by decide +kernel⟩, [97, 98, 99, 100], by decide +kernel, rfl⟩
  have hnews : (fiveForFour.news (Parser.hinted 9) 2).completions.map Reactor.account? =
      [some (0, [[], [97, 98, 99], [97, 98, 99, 100]], .failed .overflow)] := by
    decide +kernel
  obtain ⟨moments, events, ends⟩ :=
    @parses_keep_to_the_limit _ _ _ (Parser.hinted 9) 2 _ valid hsize (by decide)
  obtain ⟨transcript, hwindows, hfinishes⟩ := Feed.finishes_of_news hnews
  refine ⟨fun turns => moments (.waited turns), ?_, hanswer, ?_, transcript, hwindows,
    ends hfinishes⟩
  · have hrooms : Event.rooms 2 (fiveForFour.parseWithin (Parser.hinted 9) 2 3).transcript =
        [4, 1] := by
      decide +kernel
    have hdeliveries : Event.deliveries (fiveForFour.parseWithin (Parser.hinted 9) 2 3).transcript =
        [{ bytes := [97, 98, 99] }, { bytes := [100] }] := by
      decide +kernel
    have hleft : (fiveForFour.parseWithin (Parser.hinted 9) 2 3).feed.source =
        { chunks := [[101]], reads := 2 } := by
      decide +kernel
    have hgave := (events (.waited 3)).gave
    rwa [hrooms, hdeliveries, hleft] at hgave
  · obtain ⟨-, -, -, hunread⟩ := (ends (.waited hanswer)).full hasks
    rw [hunread]
    decide +kernel

/-- A source that ends with the code of an overflow. -/
def overflowingSource : Feed where
  source := { chunks := [[0x41]], atEnd := .report .bufferOverflow }
  buffer := .ofLimit 16

/-- A code that comes from the source is passed on as it is: the parse fails with the code of an
overflow, whether it waits or was started, and was not shown more than one of sixteen bytes. -/
theorem overflow_of_source_passed_on :
    overflowingSource.buffer.Valid ∧
      overflowingSource.buffer.size ≤ overflowingSource.buffer.limit ∧
      (overflowingSource.parse Parser.token 8).answer =
        some (.ok (.failed { code := .bufferOverflow })) ∧
      Event.windows (overflowingSource.parse Parser.token 8).transcript = [[], [0x41]] ∧
      ¬ Event.AsksBeyond 16 (overflowingSource.parse Parser.token 8).transcript ∧
      (overflowingSource.news Parser.token 8).completions.map Reactor.account? =
        [some (0, [[], [0x41]], .failed { code := .bufferOverflow })] := by
  have hwindows : Event.windows (overflowingSource.parse Parser.token 8).transcript =
      [[], [0x41]] := by
    decide +kernel
  refine ⟨Buffer.valid_ofLimit 16, by decide, by decide +kernel, hwindows, ?_, by decide +kernel⟩
  rintro ⟨-, window, hwindow, hfull⟩
  rw [hwindows] at hwindow
  cases hwindow
  cases hfull

end StreamParse
