import StreamParse.Proofs.Endurance
import StreamParse.Proofs.Turn

/-!
# The course of a parse

A parse that has an answer takes a course: reads that succeed, one after another, and then a turn
that ends it.  What one read does to a feed is stated once, and whatever a single read preserves
is carried to the end of the parse by induction on the course.

Over a live source every parse has an answer, because each read that succeeds wears the source down.
-/

namespace StreamParse

/-- Whether a parse has come to a value. -/
def succeeded {ν ε : Type} : Except Fault (Result ν ε) → Bool
  | .ok (.value _) => true
  | _ => false

namespace Event

variable {ν ε : Type}

/-- The bytes that the last look used, if it was done with some. -/
def usedBytes (transcript : List (Event ν ε)) : List UInt8 :=
  match transcript.getLast? with
  | some (.look buffer (.done _ used)) => buffer.window.take used
  | _ => []

theorem usedBytes_cons_cons {first second : Event ν ε} {transcript : List (Event ν ε)}
    (hne : transcript ≠ []) : usedBytes (first :: second :: transcript) = usedBytes transcript := by
  obtain ⟨event, events, rfl⟩ := List.exists_cons_of_ne_nil hne
  simp only [usedBytes, List.getLast?_cons_cons]

end Event

namespace Feed

variable [Allocator] {ν ε : Type} {parser : Parser ν ε} {readSize : UInt64}

/-- A turn that ends with a read, what the read brings, and the feed that it leaves behind. -/
inductive Reads (parser : Parser ν ε) (readSize : UInt64) (feed : Feed) : Delivery → Feed → Prop
  | intro {area : Area} {buffer : Buffer}
      (hturn : feed.buffer.turn readSize (parser feed.buffer.window) = (.reads area, buffer)) :
      Reads parser readSize feed (receive { feed with buffer } area).1
        (receive { feed with buffer } area).2

/-- The course of a parse: the feed that it begins with, what happens in it, its answer, and the
feed that it ends with. -/
inductive Course (parser : Parser ν ε) (readSize : UInt64) :
    Feed → List (Event ν ε) → Except Fault (Result ν ε) → Feed → Prop
  | ended {feed : Feed} {answer : Except Fault (Result ν ε)} {buffer : Buffer}
      (hturn : feed.buffer.turn readSize (parser feed.buffer.window) = (.ended answer, buffer)) :
      Course parser readSize feed [.look feed.buffer (parser feed.buffer.window)] answer
        { feed with buffer }
  | failed {feed next : Feed} {delivery : Delivery}
      (hreads : Reads parser readSize feed delivery next)
      (hfailed : delivery.code.failed = true) :
      Course parser readSize feed
        [.look feed.buffer (parser feed.buffer.window), .read delivery]
        (.ok (.failed (.ofRead delivery.code))) next
  | received {feed next last : Feed} {delivery : Delivery} {events : List (Event ν ε)}
      {answer : Except Fault (Result ν ε)}
      (hreads : Reads parser readSize feed delivery next)
      (hreceived : delivery.code.failed = false)
      (hrest : Course parser readSize next events answer last) :
      Course parser readSize feed
        (.look feed.buffer (parser feed.buffer.window) :: .read delivery :: events) answer last

/-! ## What one read does -/

/-- The parser has asked for more, and the limit leaves room for a byte or more. -/
theorem Reads.starved {feed next : Feed} {delivery : Delivery} (hread : readSize ≠ 0)
    (hreads : Reads parser readSize feed delivery next) :
    ∃ hint area buffer,
      parser feed.buffer.window = .more hint ∧
      feed.buffer.size.toNat < feed.buffer.limit.toNat ∧
      feed.buffer.reserve (feed.buffer.nextRead hint readSize) = .ok (area, buffer) ∧
      delivery = (receive { feed with buffer } area).1 ∧
      next = (receive { feed with buffer } area).2 := by
  cases hreads with
  | @intro area buffer hturn =>
      obtain ⟨hint, hmore, hroom, hreserve⟩ := Buffer.starves_of_reads hread hturn
      exact ⟨hint, area, buffer, hmore, hroom, hreserve, rfl, rfl⟩

/-- The read was one read of the source, with room for a byte or more. -/
theorem Reads.source {feed next : Feed} {delivery : Delivery} (hread : readSize ≠ 0)
    (hreads : Reads parser readSize feed delivery next) :
    ∃ room, 0 < room ∧ delivery = (feed.source.read room).1 ∧
      next.source = (feed.source.read room).2 := by
  obtain ⟨hint, area, buffer, _, _, hreserve, rfl, rfl⟩ := hreads.starved hread
  exact ⟨area.size.toNat, Buffer.area_size_pos hreserve, rfl, rfl⟩

theorem Reads.limit {feed next : Feed} {delivery : Delivery} (hread : readSize ≠ 0)
    (hreads : Reads parser readSize feed delivery next) :
    next.buffer.limit = feed.buffer.limit := by
  obtain ⟨hint, area, buffer, _, _, hreserve, rfl, rfl⟩ := hreads.starved hread
  change buffer.limit = feed.buffer.limit
  exact Buffer.limit_reserve hreserve

theorem Reads.valid {feed next : Feed} {delivery : Delivery} (hread : readSize ≠ 0)
    (valid : feed.buffer.Valid) (hreads : Reads parser readSize feed delivery next) :
    next.buffer.Valid := by
  obtain ⟨hint, area, buffer, _, _, hreserve, rfl, rfl⟩ := hreads.starved hread
  exact @valid_receive { feed with buffer } (valid.reserve hreserve).1 area

/-- What was read joins the window. -/
theorem Reads.window {feed next : Feed} {delivery : Delivery} (hread : readSize ≠ 0)
    (valid : feed.buffer.Valid) (hreads : Reads parser readSize feed delivery next) :
    next.buffer.window = feed.buffer.window ++ delivery.bytes := by
  obtain ⟨hint, area, buffer, _, _, hreserve, rfl, rfl⟩ := hreads.starved hread
  obtain ⟨valid', hoffset, harea⟩ := valid.reserve hreserve
  rw [@window_receive { feed with buffer } area valid' hoffset harea,
    Buffer.window_reserve hreserve]

/-- A read moves bytes and loses none. -/
theorem Reads.pending {feed next : Feed} {delivery : Delivery} (hread : readSize ≠ 0)
    (valid : feed.buffer.Valid) (hreads : Reads parser readSize feed delivery next) :
    next.pending = feed.pending := by
  obtain ⟨room, _, hdelivery, hsource⟩ := hreads.source hread
  rw [Feed.pending, hreads.window hread valid, List.append_assoc, hdelivery, hsource,
    Source.read_unread, Feed.pending]

/-- A window that is within its limit stays so. -/
theorem Reads.size_le {feed next : Feed} {delivery : Delivery} (hread : readSize ≠ 0)
    (valid : feed.buffer.Valid) (hreads : Reads parser readSize feed delivery next) :
    next.buffer.size.toNat ≤ next.buffer.limit.toNat := by
  have hwindow := hreads.window hread valid
  obtain ⟨hint, area, buffer, _, _, hreserve, hdelivery, rfl⟩ := hreads.starved hread
  have harea := Buffer.size_add_area_le hreserve
  have hbytes : delivery.bytes.length ≤ area.size.toNat := by
    rw [hdelivery]
    exact length_receive_le _ area
  calc
    _ = (feed.buffer.window ++ delivery.bytes).length := by
      rw [← hwindow, Buffer.length_window]
    _ = feed.buffer.size.toNat + delivery.bytes.length := by
      rw [List.length_append, Buffer.length_window]
    _ ≤ feed.buffer.limit.toNat := by omega
    _ = buffer.limit.toNat := by rw [Buffer.limit_reserve hreserve]

/-! ## What a course preserves -/

/-- A turn that ends the parse leaves the buffer as it was, or drops the bytes that were used. -/
theorem buffer_of_ended {feed : Feed} {answer : Except Fault (Result ν ε)} {buffer : Buffer}
    (hread : readSize ≠ 0)
    (hturn : feed.buffer.turn readSize (parser feed.buffer.window) = (.ended answer, buffer)) :
    buffer = feed.buffer ∨ ∃ n, buffer = feed.buffer.discard n := by
  have hleads := Buffer.leads_of_turn hread hturn
  generalize parser feed.buffer.window = outcome at hleads
  cases hleads with
  | value hused => exact .inr ⟨_, rfl⟩
  | _ => exact .inl rfl

theorem Course.transcript_ne_nil {feed last : Feed} {transcript : List (Event ν ε)}
    {answer : Except Fault (Result ν ε)}
    (hcourse : Course parser readSize feed transcript answer last) : transcript ≠ [] := by
  cases hcourse <;> exact List.cons_ne_nil _ _

/-- What holds of a feed, and is kept by each read and by the turn that ends the parse, holds of the
feed that the parse leaves behind. -/
theorem Course.preserves {motive : Feed → Prop} {feed last : Feed}
    {transcript : List (Event ν ε)} {answer : Except Fault (Result ν ε)}
    (hreads : ∀ {feed delivery next}, motive feed → Reads parser readSize feed delivery next →
      motive next)
    (hends : ∀ {feed answer buffer}, motive feed →
      feed.buffer.turn readSize (parser feed.buffer.window) = (.ended answer, buffer) →
      motive { feed with buffer })
    (hcourse : Course parser readSize feed transcript answer last) (hfeed : motive feed) :
    motive last := by
  induction hcourse with
  | ended hturn => exact hends hfeed hturn
  | failed hread _ => exact hreads hfeed hread
  | received hread _ _ ih => exact ih (hreads hfeed hread)

theorem Course.valid {feed last : Feed} {transcript : List (Event ν ε)}
    {answer : Except Fault (Result ν ε)} (hread : readSize ≠ 0) (valid : feed.buffer.Valid)
    (hcourse : Course parser readSize feed transcript answer last) : last.buffer.Valid := by
  refine hcourse.preserves (motive := fun feed => feed.buffer.Valid) ?_ ?_ valid
  · intro feed delivery next valid hreads
    exact hreads.valid hread valid
  · intro feed answer buffer valid hturn
    rcases buffer_of_ended hread hturn with rfl | ⟨n, rfl⟩
    · exact valid
    · exact valid.discard n

theorem Course.limit {feed last : Feed} {transcript : List (Event ν ε)}
    {answer : Except Fault (Result ν ε)} (hread : readSize ≠ 0)
    (hcourse : Course parser readSize feed transcript answer last) :
    last.buffer.limit = feed.buffer.limit := by
  refine hcourse.preserves (motive := fun next => next.buffer.limit = feed.buffer.limit) ?_ ?_ rfl
  · intro feed delivery next hlimit hreads
    rw [hreads.limit hread, hlimit]
  · intro feed answer buffer hlimit hturn
    rcases buffer_of_ended hread hturn with rfl | ⟨n, rfl⟩
    · exact hlimit
    · rw [← hlimit]
      exact Buffer.limit_discard feed.buffer n

/-- A window within its limit is within it after the parse. -/
theorem Course.size_le {feed last : Feed} {transcript : List (Event ν ε)}
    {answer : Except Fault (Result ν ε)} (hread : readSize ≠ 0) (valid : feed.buffer.Valid)
    (hcourse : Course parser readSize feed transcript answer last)
    (hsize : feed.buffer.size.toNat ≤ feed.buffer.limit.toNat) :
    last.buffer.size.toNat ≤ last.buffer.limit.toNat := by
  refine (hcourse.preserves (motive := fun feed =>
    feed.buffer.Valid ∧ feed.buffer.size.toNat ≤ feed.buffer.limit.toNat) ?_ ?_
    ⟨valid, hsize⟩).2
  · intro feed delivery next ⟨valid, _⟩ hreads
    exact ⟨hreads.valid hread valid, hreads.size_le hread valid⟩
  · intro feed answer buffer ⟨valid, hsize⟩ hturn
    rcases buffer_of_ended hread hturn with rfl | ⟨n, rfl⟩
    · exact ⟨valid, hsize⟩
    · refine ⟨valid.discard n, ?_⟩
      rw [Buffer.limit_discard]
      exact Nat.le_trans (feed.buffer.size_discard_le n) hsize

/-- What every read keeps of a source, a parse keeps. -/
theorem Course.source_preserves {motive : Source → Prop} {feed last : Feed}
    {transcript : List (Event ν ε)} {answer : Except Fault (Result ν ε)} (hread : readSize ≠ 0)
    (hreads : ∀ {source room}, motive source → motive (Source.read source room).2)
    (hcourse : Course parser readSize feed transcript answer last) (hsource : motive feed.source) :
    motive last.source := by
  refine hcourse.preserves (motive := fun feed => motive feed.source) ?_ ?_ hsource
  · intro feed delivery next hfeed hstep
    obtain ⟨room, _, _, hnext⟩ := hstep.source hread
    rw [hnext]
    exact hreads hfeed
  · intro feed answer buffer hfeed _
    exact hfeed

theorem Course.live {feed last : Feed} {transcript : List (Event ν ε)}
    {answer : Except Fault (Result ν ε)} (hread : readSize ≠ 0)
    (hcourse : Course parser readSize feed transcript answer last) (live : feed.source.Live) :
    last.source.Live :=
  hcourse.source_preserves hread (fun live => live.read _) live

theorem Course.atEnd {feed last : Feed} {transcript : List (Event ν ε)}
    {answer : Except Fault (Result ν ε)} (hread : readSize ≠ 0)
    (hcourse : Course parser readSize feed transcript answer last) :
    last.source.atEnd = feed.source.atEnd :=
  hcourse.source_preserves (motive := fun source => source.atEnd = feed.source.atEnd) hread
    (fun h => by rw [Source.atEnd_read, h]) rfl

/-- A feed from which a parse can set out: the window is in order and within its limit, and the
source is live. -/
structure Ready (feed : Feed) : Prop where
  valid : feed.buffer.Valid
  size_le : feed.buffer.size.toNat ≤ feed.buffer.limit.toNat
  live : feed.source.Live

theorem Course.ready {feed last : Feed} {transcript : List (Event ν ε)}
    {answer : Except Fault (Result ν ε)} (hread : readSize ≠ 0)
    (hcourse : Course parser readSize feed transcript answer last) (ready : feed.Ready) :
    last.Ready where
  valid := hcourse.valid hread ready.valid
  size_le := hcourse.size_le hread ready.valid ready.size_le
  live := hcourse.live hread ready.live

/-! ## Nothing is lost -/

theorem Course.injections {feed last : Feed} {transcript : List (Event ν ε)}
    {answer : Except Fault (Result ν ε)} (hread : readSize ≠ 0)
    (hcourse : Course parser readSize feed transcript answer last) :
    last.source.injections = feed.source.injections :=
  hcourse.source_preserves (motive := fun source => source.injections = feed.source.injections)
    hread (fun h => by rw [Source.injections_read, h]) rfl

omit [Allocator] in
/-- Bytes that were used leave the front of what is pending. -/
theorem pending_discard {feed : Feed} {used : Nat} (valid : feed.buffer.Valid)
    (hused : used ≤ feed.buffer.size.toNat) :
    pending { feed with buffer := feed.buffer.discard used.toUInt64 } = feed.pending.drop used := by
  have hword : used.toUInt64.toNat = used :=
    Word.toNat_ofNat (Nat.lt_of_le_of_lt hused feed.buffer.size.toNat_lt)
  change (feed.buffer.discard used.toUInt64).window ++ feed.source.unread = _
  rw [valid.window_discard, hword, pending,
    List.drop_append_of_le_length (by rw [Buffer.length_window]; exact hused)]

/-- The bytes that a value was read from, and those that are pending after the parse, are the bytes
that were pending before it. -/
theorem Course.retired_append_pending {feed last : Feed} {transcript : List (Event ν ε)}
    {answer : Except Fault (Result ν ε)} (hread : readSize ≠ 0) (valid : feed.buffer.Valid)
    (hcourse : Course parser readSize feed transcript answer last) :
    (if succeeded answer then Event.usedBytes transcript else []) ++ last.pending =
      feed.pending := by
  induction hcourse with
  | @ended feed answer buffer hturn =>
      have hleads := Buffer.leads_of_turn hread hturn
      generalize parser feed.buffer.window = outcome at hleads
      cases hleads with
      | @value value used hused =>
          have htake : feed.buffer.window.take used = feed.pending.take used := by
            rw [pending, List.take_append_of_le_length (by rw [Buffer.length_window]; exact hused)]
          change feed.buffer.window.take used ++ pending { feed with buffer := _ } = feed.pending
          rw [pending_discard valid hused, htake, List.take_append_drop]
      | _ => rfl
  | failed hreads _ => exact hreads.pending hread valid
  | received hreads _ hrest ih =>
      rw [Event.usedBytes_cons_cons hrest.transcript_ne_nil, ih (hreads.valid hread valid)]
      exact hreads.pending hread valid

/-! ## Every answer has a course -/

/-- A parse with an answer has taken the course that its transcript tells. -/
theorem course_of_answer {turns : Nat} {feed : Feed} {answer : Except Fault (Result ν ε)}
    (hanswer : (parseWithin parser readSize turns feed).answer = some answer) :
    Course parser readSize feed (parseWithin parser readSize turns feed).transcript answer
      (parseWithin parser readSize turns feed).feed := by
  induction turns generalizing feed with
  | zero => simp [parseWithin] at hanswer
  | succ turns ih =>
      rcases hturn : feed.buffer.turn readSize (parser feed.buffer.window) with ⟨turn, buffer⟩
      cases turn with
      | ended other =>
          rw [parseWithin_ended turns hturn] at hanswer ⊢
          cases hanswer
          exact .ended hturn
      | reads area =>
          cases hfailed : (receive { feed with buffer } area).1.code.failed with
          | true =>
              rw [parseWithin_failed turns hturn hfailed] at hanswer ⊢
              cases hanswer
              exact .failed (.intro hturn) hfailed
          | false =>
              rw [parseWithin_received turns hturn hfailed] at hanswer ⊢
              exact .received (.intro hturn) hfailed (ih hanswer)

/-- A live source wears out before the turns of a parse do. -/
theorem parseWithin_answers {turns : Nat} {feed : Feed} (hread : readSize ≠ 0)
    (live : feed.source.Live) (hturns : feed.source.endurance < turns) :
    ∃ answer, (parseWithin parser readSize turns feed).answer = some answer := by
  induction turns generalizing feed with
  | zero => exact absurd hturns (Nat.not_lt_zero _)
  | succ turns ih =>
      rcases hturn : feed.buffer.turn readSize (parser feed.buffer.window) with ⟨turn, buffer⟩
      cases turn with
      | ended other =>
          rw [parseWithin_ended turns hturn]
          exact ⟨other, rfl⟩
      | reads area =>
          cases hfailed : (receive { feed with buffer } area).1.code.failed with
          | true =>
              rw [parseWithin_failed turns hturn hfailed]
              exact ⟨_, rfl⟩
          | false =>
              rw [parseWithin_received turns hturn hfailed]
              have hreads : Reads parser readSize feed _ _ := .intro hturn
              obtain ⟨room, hroom, hdelivery, hsource⟩ := hreads.source hread
              rw [hdelivery] at hfailed
              have hworn := live.endurance_read_lt hroom hfailed
              apply ih
              · rw [hsource]
                exact live.read room
              · rw [hsource]
                exact Nat.lt_of_lt_of_le hworn (Nat.le_of_lt_succ hturns)

/-- Over a live source every parse has an answer. -/
theorem parse_answers (feed : Feed) (parser : Parser ν ε) (readSize : UInt64)
    (live : feed.source.Live) : ∃ answer, (feed.parse parser readSize).answer = some answer := by
  by_cases hread : readSize = 0
  · rw [hread, parse_zero]
    exact ⟨_, rfl⟩
  · rw [parse_of_ne_zero feed parser hread]
    have hendurance := feed.source.endurance_lt_patience
    exact parseWithin_answers hread live (Nat.lt_add_right _ hendurance)

/-- A parse that is refused its read size does nothing, and any other takes its course. -/
theorem course_of_parse {feed : Feed} {answer : Except Fault (Result ν ε)} (hread : readSize ≠ 0)
    (hanswer : (feed.parse parser readSize).answer = some answer) :
    Course parser readSize feed (feed.parse parser readSize).transcript answer
      (feed.parse parser readSize).feed := by
  rw [parse_of_ne_zero feed parser hread] at hanswer ⊢
  exact course_of_answer hanswer

/-- What every course brings about, and what a refusal leaves, is what every parse with an answer
does. -/
theorem parse_preserves {motive : Feed → Prop} {feed : Feed} {answer : Except Fault (Result ν ε)}
    (hanswer : (feed.parse parser readSize).answer = some answer) (hfeed : motive feed)
    (hcourse : ∀ transcript last, readSize ≠ 0 →
      Course parser readSize feed transcript answer last → motive last) :
    motive (feed.parse parser readSize).feed := by
  by_cases hread : readSize = 0
  · rw [hread, parse_zero]
    exact hfeed
  · exact hcourse _ _ hread (course_of_parse hread hanswer)

section Parse

variable {feed : Feed} {answer : Except Fault (Result ν ε)}
variable (hanswer : (feed.parse parser readSize).answer = some answer)

include hanswer

theorem valid_parse (valid : feed.buffer.Valid) :
    (feed.parse parser readSize).feed.buffer.Valid := by
  apply parse_preserves (motive := fun feed => feed.buffer.Valid) hanswer valid
  intro transcript last hread hcourse
  exact hcourse.valid hread valid

theorem live_parse (live : feed.source.Live) : (feed.parse parser readSize).feed.source.Live := by
  apply parse_preserves (motive := fun feed => feed.source.Live) hanswer live
  intro transcript last hread hcourse
  exact hcourse.live hread live

theorem limit_parse : (feed.parse parser readSize).feed.buffer.limit = feed.buffer.limit := by
  apply parse_preserves (motive := fun last => last.buffer.limit = feed.buffer.limit) hanswer rfl
  intro transcript last hread hcourse
  exact hcourse.limit hread

theorem atEnd_parse : (feed.parse parser readSize).feed.source.atEnd = feed.source.atEnd := by
  apply parse_preserves (motive := fun last => last.source.atEnd = feed.source.atEnd) hanswer rfl
  intro transcript last hread hcourse
  exact hcourse.atEnd hread

theorem injections_parse :
    (feed.parse parser readSize).feed.source.injections = feed.source.injections := by
  apply parse_preserves (motive := fun last => last.source.injections = feed.source.injections)
    hanswer rfl
  intro transcript last hread hcourse
  exact hcourse.injections hread

end Parse

end Feed

end StreamParse
