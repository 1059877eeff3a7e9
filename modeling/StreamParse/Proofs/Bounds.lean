import StreamParse.Proofs.Closing

/-!
# Within the limit

A parse that begins with a window within the limit never leaves it.  Each read is offered room for a
byte or more and for no more than the limit leaves, so the window stays within the limit even when all
of that room is filled, and room is never refused.  An allocation that the parse makes is within the
limit too; only one that was larger when the parse began stays so.

When the window has as many bytes as the limit allows, asking for more ends the parse.  By then the
source has given what the limit allows and nothing beyond.
-/

namespace StreamParse

variable {ν ε : Type}

namespace Buffer

/-- A buffer has this limit and is within it, and its allocation has not been made larger than the
limit. -/
structure Contained (first b : Buffer) : Prop where
  limit : b.limit = first.limit
  size_le : b.size.toNat ≤ b.limit.toNat
  capacity_le : b.capacity.toNat ≤ max first.capacity.toNat first.limit.toNat

/-- Room in the allocation of a buffer that a read may fill: a byte or more, and no more than the limit
leaves. -/
structure Affords (b : Buffer) (area : Area) : Prop where
  pos : 1 ≤ area.size.toNat
  size_le : area.size.toNat ≤ b.limit.toNat - b.size.toNat

variable {first b b' : Buffer} {readSize : UInt64} {outcome : Outcome ν ε}

theorem contained_self (hsize : b.size.toNat ≤ b.limit.toNat) : b.Contained b where
  limit := rfl
  size_le := hsize
  capacity_le := Nat.le_max_left _ _

/-- Room that is reserved is within the limit, and so is the allocation in which it was found. -/
theorem Contained.reserve [Allocator] (contained : first.Contained b) {n : UInt64} {area : Area}
    (hreserve : b.reserve n = .ok (area, b')) : first.Contained b' ∧ b'.Affords area := by
  have hlimit := limit_reserve hreserve
  have hsize := size_reserve hreserve
  have harea := size_add_area_le hreserve
  have hcapacity := capacity_reserve_le hreserve
  have hbefore := contained.capacity_le
  constructor
  · refine ⟨hlimit.trans contained.limit, ?_, ?_⟩
    · rw [hlimit, hsize]
      exact contained.size_le
    · rw [contained.limit] at hcapacity
      omega
  · refine ⟨area_size_pos hreserve, ?_⟩
    rw [hlimit, hsize]
    omega

/-- What ends a parse leaves the buffer contained. -/
theorem Contained.discard (contained : first.Contained b) (n : UInt64) :
    first.Contained (b.discard n) where
  limit := (b.limit_discard n).trans contained.limit
  size_le := by
    rw [limit_discard]
    exact Nat.le_trans (b.size_discard_le n) contained.size_le
  capacity_le := by
    rw [Buffer.discard]
    split <;> exact contained.capacity_le

theorem Contained.fill (contained : first.Contained b) (area : Area) (bytes : List UInt8) :
    first.Contained (b.fill area bytes) where
  limit := contained.limit
  size_le := contained.size_le
  capacity_le := contained.capacity_le

theorem Contained.commit_zero (contained : first.Contained b) : first.Contained (b.commit 0) where
  limit := contained.limit
  size_le := by
    have hnone : min 0 b.room = 0 := UInt64.toNat_inj.mp (Word.toNat_min 0 b.room ▸ Nat.zero_min _)
    change (b.size + min 0 b.room).toNat ≤ b.limit.toNat
    rw [hnone, UInt64.add_zero]
    exact contained.size_le
  capacity_le := contained.capacity_le

end Buffer

namespace Event

/-- The rooms that were reserved for reads behind these looks, each with the buffer in which it lies. -/
def offers [Allocator] (readSize : UInt64) (transcript : List (Event ν ε)) : List (Area × Buffer) :=
  transcript.filterMap fun
    | look buffer outcome =>
        match buffer.turn readSize outcome with
        | (.reads area, buffer) => some (area, buffer)
        | (.ended _, _) => none
    | read _ => none

/-- The numbers of bytes that the source was offered. -/
def rooms [Allocator] (readSize : UInt64) (transcript : List (Event ν ε)) : List Nat :=
  (offers readSize transcript).map fun offer => offer.1.size.toNat

section Append

variable [Allocator] (readSize : UInt64) (transcript : List (Event ν ε))

omit [Allocator] in
theorem buffers_append (more : List (Event ν ε)) :
    buffers (transcript ++ more) = buffers transcript ++ buffers more :=
  List.filterMap_append

theorem offers_append (more : List (Event ν ε)) :
    offers readSize (transcript ++ more) = offers readSize transcript ++ offers readSize more :=
  List.filterMap_append

theorem offers_look_of_reads {buffer buffer' : Buffer} {outcome : Outcome ν ε} {area : Area}
    (hturn : buffer.turn readSize outcome = (.reads area, buffer')) :
    offers readSize [.look buffer outcome] = [(area, buffer')] := by
  simp [offers, hturn]

theorem offers_look_of_ended {buffer buffer' : Buffer} {outcome : Outcome ν ε}
    {answer : Except Fault (Result ν ε)}
    (hturn : buffer.turn readSize outcome = (.ended answer, buffer')) :
    offers readSize [.look buffer outcome] = [] := by
  simp [offers, hturn]

end Append

end Event

namespace Source

/-- One read of a source into this much room: it is done, or held and then cancelled. -/
inductive Gives (source : Source) (room : Nat) : Delivery → Source → Prop
  | read : Gives source room (source.read room).1 (source.read room).2
  | cancelled (hholds : source.holdsNext = true) :
      Gives source room { code := .operationAborted } { source with reads := source.reads + 1 }

/-- What a source gave when it was read into these rooms, one after another, and the source behind. -/
inductive GaveInto (source : Source) : List Nat → List Delivery → Source → Prop
  | nothing : GaveInto source [] [] source
  | more {rooms : List Nat} {deliveries : List Delivery} {mid left : Source} {room : Nat}
      {delivery : Delivery} (hgave : GaveInto source rooms deliveries mid)
      (hgives : mid.Gives room delivery left) :
      GaveInto source (rooms ++ [room]) (deliveries ++ [delivery]) left

theorem GaveInto.append {source mid left : Source} {rooms rooms' : List Nat}
    {deliveries deliveries' : List Delivery} (hgave : source.GaveInto rooms deliveries mid)
    (hmore : mid.GaveInto rooms' deliveries' left) :
    source.GaveInto (rooms ++ rooms') (deliveries ++ deliveries') left := by
  induction hmore with
  | nothing =>
      rw [List.append_nil, List.append_nil]
      exact hgave
  | more _ hgives ih =>
      rw [← List.append_assoc, ← List.append_assoc]
      exact ih.more hgives

end Source

namespace Feed

/-- A parse has heeded its limit in these events: at every look the buffer was contained, and at every
read, when it had the room for it; and into that room the source was read, and into no other. -/
structure Heeds [Allocator] (readSize : UInt64) (first : Buffer) (source : Source)
    (transcript : List (Event ν ε)) (deliveries : List Delivery) (left : Source) : Prop where
  looks : ∀ buffer ∈ Event.buffers transcript, first.Contained buffer
  offers : ∀ offer ∈ Event.offers readSize transcript,
    first.Contained offer.2 ∧ offer.2.Affords offer.1
  gave : source.GaveInto (Event.rooms readSize transcript) deliveries left

variable [Allocator] {parser : Parser ν ε} {readSize : UInt64} {first : Buffer} {mid next : Feed}
variable {past transcript : List (Event ν ε)} {answer : Except Fault (Result ν ε)}
variable {delivery : Delivery} {source left : Source}

/-- What one part of a parse has heeded and what the next one has. -/
theorem Heeds.append {middle : Source} {more : List (Event ν ε)}
    {deliveries deliveries' : List Delivery}
    (heeds : Heeds readSize first source past deliveries middle)
    (heeds' : Heeds readSize first middle more deliveries' left) :
    Heeds readSize first source (past ++ more) (deliveries ++ deliveries') left where
  looks buffer hmem := by
    rw [Event.buffers_append] at hmem
    rcases List.mem_append.mp hmem with hmem | hmem
    · exact heeds.looks buffer hmem
    · exact heeds'.looks buffer hmem
  offers offer hmem := by
    rw [Event.offers_append] at hmem
    rcases List.mem_append.mp hmem with hmem | hmem
    · exact heeds.offers offer hmem
    · exact heeds'.offers offer hmem
  gave := by
    rw [Event.rooms, Event.offers_append, List.map_append]
    exact heeds.gave.append heeds'.gave

/-! ## One turn -/

/-- A turn that reads reserves room within the limit. -/
theorem contained_of_reads {area : Area} {buffer : Buffer} (hread : readSize ≠ 0)
    (contained : first.Contained mid.buffer)
    (hturn : mid.buffer.turn readSize (parser mid.buffer.window) = (.reads area, buffer)) :
    first.Contained buffer ∧ buffer.Affords area := by
  obtain ⟨hint, -, -, hreserve⟩ := Buffer.starves_of_reads hread hturn
  exact contained.reserve hreserve

theorem contained_of_ended {buffer : Buffer} (hread : readSize ≠ 0)
    (contained : first.Contained mid.buffer)
    (hturn : mid.buffer.turn readSize (parser mid.buffer.window) = (.ended answer, buffer)) :
    first.Contained buffer := by
  rcases buffer_of_ended hread hturn with rfl | ⟨n, rfl⟩
  · exact contained
  · exact contained.discard n

/-- A read fills no more than the room that it was offered. -/
theorem Reads.contained (hread : readSize ≠ 0) (valid : mid.buffer.Valid)
    (contained : first.Contained mid.buffer) (hreads : Reads parser readSize mid delivery next) :
    first.Contained next.buffer where
  limit := (hreads.limit hread).trans contained.limit
  size_le := hreads.size_le hread valid
  capacity_le := by
    cases hreads with
    | intro hturn => exact (contained_of_reads hread contained hturn).1.capacity_le

/-- A look behind which the source is read. -/
theorem heeds_look_of_reads {area : Area} {buffer : Buffer} (hread : readSize ≠ 0)
    (contained : first.Contained mid.buffer)
    (hturn : mid.buffer.turn readSize (parser mid.buffer.window) = (.reads area, buffer))
    (hgives : mid.source.Gives area.size.toNat delivery left) :
    Heeds readSize first mid.source [.look mid.buffer (parser mid.buffer.window)] [delivery]
      left where
  looks := List.forall_mem_singleton.mpr contained
  offers := by
    rw [Event.offers_look_of_reads readSize hturn]
    exact List.forall_mem_singleton.mpr (contained_of_reads hread contained hturn)
  gave := by
    rw [Event.rooms, Event.offers_look_of_reads readSize hturn]
    exact Source.GaveInto.nothing.more hgives

/-- A look behind which it is not read. -/
theorem heeds_look_of_ended {buffer : Buffer} (contained : first.Contained mid.buffer)
    (hturn : mid.buffer.turn readSize (parser mid.buffer.window) = (.ended answer, buffer)) :
    Heeds readSize first mid.source [.look mid.buffer (parser mid.buffer.window)] []
      mid.source where
  looks := List.forall_mem_singleton.mpr contained
  offers := by
    rw [Event.offers_look_of_ended readSize hturn]
    exact nofun
  gave := by
    rw [Event.rooms, Event.offers_look_of_ended readSize hturn]
    exact .nothing

/-- Bytes that have come offer nothing new. -/
theorem heeds_read (readSize : UInt64) (first : Buffer) (source : Source) (delivery : Delivery) :
    Heeds readSize first source [(.read delivery : Event ν ε)] [] source where
  looks := nofun
  offers := nofun
  gave := .nothing

/-- A look and the read behind it. -/
theorem Reads.heeds (hread : readSize ≠ 0) (contained : first.Contained mid.buffer)
    (hreads : Reads parser readSize mid delivery next) :
    Heeds readSize first mid.source
      [.look mid.buffer (parser mid.buffer.window), .read delivery] [delivery] next.source := by
  cases hreads with
  | intro hturn =>
      exact (heeds_look_of_reads hread contained hturn .read).append (heeds_read _ _ _ _)

/-! ## The whole parse -/

variable {start last : Feed} {rest : List (Event ν ε)}

theorem Reaches.contained (hread : readSize ≠ 0) (valid : start.buffer.Valid)
    (contained : first.Contained start.buffer)
    (hreaches : Reaches parser readSize start past mid) : first.Contained mid.buffer := by
  induction hreaches with
  | nothing => exact contained
  | read hreaches hreads _ ih => exact hreads.contained hread (hreaches.valid hread valid) ih

theorem Reaches.heeds (hread : readSize ≠ 0) (valid : start.buffer.Valid)
    (contained : first.Contained start.buffer)
    (hreaches : Reaches parser readSize start past mid) :
    Heeds readSize first start.source past (Event.deliveries past) mid.source := by
  induction hreaches with
  | nothing => exact ⟨nofun, nofun, .nothing⟩
  | read hreaches hreads _ ih =>
      rw [Event.deliveries_append]
      exact ih.append (hreads.heeds hread (hreaches.contained hread valid contained))

theorem Ends.contained (hread : readSize ≠ 0) (valid : mid.buffer.Valid)
    (contained : first.Contained mid.buffer)
    (hends : Ends parser readSize mid rest answer last) : first.Contained last.buffer := by
  cases hends with
  | look hturn => exact contained_of_ended hread contained hturn
  | read hreads _ => exact hreads.contained hread valid contained
  | cancelled hturn _ =>
      have reserved := (contained_of_reads hread contained hturn).1
      exact (reserved.fill _ []).commit_zero

theorem Ends.heeds (hread : readSize ≠ 0) (contained : first.Contained mid.buffer)
    (hends : Ends parser readSize mid rest answer last) :
    Heeds readSize first mid.source rest (Event.deliveries rest) last.source := by
  cases hends with
  | look hturn => exact heeds_look_of_ended contained hturn
  | read hreads _ => exact hreads.heeds hread contained
  | cancelled hturn hholds =>
      exact (heeds_look_of_reads hread contained hturn (.cancelled hholds)).append
        (heeds_read _ _ _ _)

/-- A parse that has come to its end has heeded its limit, and leaves a buffer that is within it. -/
theorem Passage.heeds (hread : readSize ≠ 0) (valid : start.buffer.Valid)
    (hsize : start.buffer.size.toNat ≤ start.buffer.limit.toNat)
    (hpassage : Passage parser readSize start transcript answer last) :
    start.buffer.Contained last.buffer ∧
      Heeds readSize start.buffer start.source transcript (Event.deliveries transcript)
        last.source := by
  have contained := Buffer.contained_self hsize
  cases hpassage with
  | intro hreaches hends =>
      have contained' := hreaches.contained hread valid contained
      constructor
      · exact hends.contained hread (hreaches.valid hread valid) contained'
      · rw [Event.deliveries_append]
        exact (hreaches.heeds hread valid contained).append (hends.heeds hread contained')

/-- However many turns a parse has taken, it has an answer or goes on behind reads that succeeded. -/
theorem reaches_of_unanswered {turns : Nat} {feed : Feed}
    (hanswer : (parseWithin parser readSize turns feed).answer = none) :
    Reaches parser readSize feed (parseWithin parser readSize turns feed).transcript
      (parseWithin parser readSize turns feed).feed := by
  induction turns generalizing feed with
  | zero => exact .nothing
  | succ turns ih =>
      rcases hturn : feed.buffer.turn readSize (parser feed.buffer.window) with ⟨turn, buffer⟩
      cases turn with
      | ended other =>
          rw [parseWithin_ended turns hturn] at hanswer
          cases hanswer
      | reads area =>
          cases hfailed : (receive { feed with buffer } area).1.code.failed with
          | true =>
              rw [parseWithin_failed turns hturn hfailed] at hanswer
              cases hanswer
          | false =>
              rw [parseWithin_received turns hturn hfailed] at hanswer ⊢
              exact (ih hanswer).cons (.intro hturn) hfailed

/-- At every moment of a parse that waits for its reads. -/
theorem parseWithin_heeds (hread : readSize ≠ 0) (valid : start.buffer.Valid)
    (hsize : start.buffer.size.toNat ≤ start.buffer.limit.toNat) (turns : Nat) :
    let run := start.parseWithin parser readSize turns
    start.buffer.Contained run.feed.buffer ∧
      Heeds readSize start.buffer start.source run.transcript (Event.deliveries run.transcript)
        run.feed.source := by
  intro run
  cases hanswer : run.answer with
  | some answer => exact (course_of_answer hanswer).passage.heeds hread valid hsize
  | none =>
      have hreaches := reaches_of_unanswered hanswer
      have contained := Buffer.contained_self hsize
      exact ⟨hreaches.contained hread valid contained, hreaches.heeds hread valid contained⟩

/-! ## The end -/

/-- A parse has failed, and the code of its failure is that of a full buffer. -/
def Overflows (answer : Except Fault (Result ν ε)) : Prop :=
  ∃ failure, answer = .ok (.failed failure) ∧ failure.code = .bufferOverflow

/-- What the limit means for how a parse ends. -/
structure Respects (first : Feed) (transcript : List (Event ν ε))
    (answer : Except Fault (Result ν ε)) (last : Feed) : Prop where
  /-- No room is refused. -/
  notOver : answer ≠ .error .overLimit
  /-- The buffer is too small, or the source says so of its own. -/
  overflows : Overflows answer ↔ Event.AsksBeyond first.buffer.limit transcript ∨
    ∃ delivery, (Event.deliveries transcript).getLast? = some delivery ∧
      delivery.code = .bufferOverflow
  /-- More is asked of a full window once, and at the end. -/
  once : ∀ buffer hint, .look buffer (.more hint) ∈ transcript →
    buffer.window.length = first.buffer.limit.toNat →
    Event.AsksBeyond first.buffer.limit transcript
  /-- Where the buffer was too small, it is full and nothing beyond it has been taken. -/
  full : Event.AsksBeyond first.buffer.limit transcript →
    answer = .ok (.failed .overflow) ∧ last.buffer.size = last.buffer.limit ∧
      last.buffer.window = first.pending.take first.buffer.limit.toNat ∧
      last.source.unread = first.pending.drop first.buffer.limit.toNat

/-- Reads that succeed move bytes and lose none. -/
theorem Reaches.pending (hread : readSize ≠ 0) (valid : start.buffer.Valid)
    (hreaches : Reaches parser readSize start past mid) : mid.pending = start.pending := by
  rw [Feed.pending, hreaches.window hread valid, List.append_assoc, Event.received,
    (hreaches.gave hread).unread, Feed.pending]

/-- No more than a window within the limit takes was ever asked for. -/
theorem Ends.notOver (hread : readSize ≠ 0) (contained : first.Contained mid.buffer)
    (hends : Ends parser readSize mid rest answer last) : answer ≠ .error .overLimit := by
  rintro rfl
  cases hends with
  | look hturn =>
      have hleads := Buffer.leads_of_turn hread hturn
      generalize parser mid.buffer.window = outcome at hleads
      cases hleads with
      | overLimit hover => exact Nat.not_le.mpr hover contained.size_le

/-- A look behind which a parse has gone on was not at a full window. -/
theorem Reaches.not_full (hread : readSize ≠ 0) (hreaches : Reaches parser readSize start past mid) :
    ∀ buffer outcome, .look buffer outcome ∈ past →
      buffer.window.length < start.buffer.limit.toNat := by
  induction hreaches with
  | nothing => exact nofun
  | @read _ mid _ _ hreaches hreads _ ih =>
      intro buffer outcome hmem
      rcases List.mem_append.mp hmem with hmem | hmem
      · exact ih buffer outcome hmem
      · obtain ⟨rfl, -⟩ : buffer = mid.buffer ∧ outcome = parser mid.buffer.window := by
          simpa using hmem
        obtain ⟨_, _, _, -, hroom, -⟩ := hreads.starved hread
        rw [hreaches.limit hread] at hroom
        rw [Buffer.length_window]
        exact hroom

/-- The events of the turn that ends a parse. -/
theorem Ends.eq_lastTurn (hends : Ends parser readSize mid rest answer last) :
    ∃ delivery?, rest = Feed.lastTurn parser mid delivery? := by
  cases hends with
  | look => exact ⟨none, rfl⟩
  | @read delivery => exact ⟨some delivery, rfl⟩
  | cancelled => exact ⟨some { code := .operationAborted }, rfl⟩

/-- More is asked of a full window only in the last turn. -/
theorem Ends.asksBeyond (hread : readSize ≠ 0)
    (hreaches : Reaches parser readSize start past mid)
    (hends : Ends parser readSize mid rest answer last) {buffer : Buffer} {hint : Option Nat}
    (hlook : .look buffer (.more hint) ∈ past ++ rest)
    (hfull : buffer.window.length = start.buffer.limit.toNat) :
    Event.AsksBeyond start.buffer.limit (past ++ rest) := by
  obtain ⟨delivery?, rfl⟩ := hends.eq_lastTurn
  rcases List.mem_append.mp hlook with hlook | hlook
  · exact absurd hfull (Nat.ne_of_lt (hreaches.not_full hread _ _ hlook))
  · obtain ⟨rfl, hmore⟩ : buffer = mid.buffer ∧ .more hint = parser mid.buffer.window := by
      cases delivery? <;> simpa [Feed.lastTurn] using hlook
    refine ⟨⟨hint, ?_⟩, mid.buffer.window, ?_, hfull⟩
    · rw [getLast?_outcomes_lastTurn, hmore]
    · exact getLast?_windows_lastTurn past parser mid delivery?

/-- A last look that asks for more of a full window ends the parse there. -/
theorem Ends.of_asksBeyond (hread : readSize ≠ 0)
    (hends : Ends parser readSize mid rest answer last)
    (hasks : Event.AsksBeyond mid.buffer.limit (past ++ rest)) :
    answer = .ok (.failed .overflow) ∧ last = mid ∧ mid.buffer.size = mid.buffer.limit := by
  obtain ⟨⟨hint, houtcome⟩, window, hwindow, hfull⟩ := hasks
  obtain ⟨hmore, hsize⟩ : parser mid.buffer.window = .more hint ∧
      mid.buffer.size.toNat = mid.buffer.limit.toNat := by
    obtain ⟨delivery?, rfl⟩ := hends.eq_lastTurn
    rw [getLast?_outcomes_lastTurn] at houtcome
    rw [getLast?_windows_lastTurn] at hwindow
    obtain rfl := Option.some.inj hwindow
    rw [Buffer.length_window] at hfull
    exact ⟨Option.some.inj houtcome, hfull⟩
  cases hends with
  | look hturn =>
      have hleads := Buffer.leads_of_turn hread hturn
      rw [hmore] at hleads
      cases hleads with
      | overflow hfull => exact ⟨rfl, rfl, hfull⟩
      | overLimit hover => exact absurd hover (by omega)
      | outOfMemory hroom => exact absurd hroom (by omega)
  | read hreads _ =>
      obtain ⟨_, _, _, -, hroom, -⟩ := hreads.starved hread
      exact absurd hroom (by omega)
  | cancelled hturn _ =>
      obtain ⟨_, -, hroom, -⟩ := Buffer.starves_of_reads hread hturn
      exact absurd hroom (by omega)

/-- A code of an overflow that comes from the last read is what the parse fails with. -/
theorem Ends.of_sourceOverflows
    (hreceived : ∀ delivery ∈ Event.deliveries past, delivery.code.failed = false)
    (hends : Ends parser readSize mid rest answer last) {delivery : Delivery}
    (hdelivery : (Event.deliveries (past ++ rest)).getLast? = some delivery)
    (hcode : delivery.code = .bufferOverflow) : Overflows answer := by
  rw [Event.deliveries_append] at hdelivery
  cases hends with
  | look =>
      -- The parse went on behind every read that lies behind it.
      have hdelivery : (Event.deliveries past ++ []).getLast? = some delivery := hdelivery
      rw [List.append_nil] at hdelivery
      have hgood := hreceived delivery (List.mem_of_getLast? hdelivery)
      rw [hcode] at hgood
      cases hgood
  | @read other _ _ _ =>
      have hdelivery : (Event.deliveries past ++ [other]).getLast? = some delivery := hdelivery
      rw [List.getLast?_concat] at hdelivery
      obtain rfl := Option.some.inj hdelivery
      exact ⟨_, rfl, by rw [hcode]; rfl⟩
  | cancelled =>
      have hdelivery : (Event.deliveries past ++
          [({ code := .operationAborted } : Delivery)]).getLast? = some delivery := hdelivery
      rw [List.getLast?_concat] at hdelivery
      obtain rfl := Option.some.inj hdelivery
      cases hcode

omit [Allocator] in
/-- A failure with the code of an overflow has one of two reasons. -/
theorem Closing.overflows {limit : UInt64} {failure : Failure ε}
    (hclosing : Closing parser limit transcript last (.failed failure))
    (hcode : failure.code = .bufferOverflow) :
    Event.AsksBeyond limit transcript ∨
      ∃ delivery, (Event.deliveries transcript).getLast? = some delivery ∧
        delivery.code = .bufferOverflow := by
  cases hclosing with
  | rejection => cases hcode
  | overflow houtcome hwindow _ hfull => exact .inl ⟨⟨_, houtcome⟩, _, hwindow, hfull⟩
  | @read _ _ delivery _ _ _ _ hdelivery =>
      have hcode : delivery.code.asParseFailure = .bufferOverflow := hcode
      refine .inr ⟨delivery, hdelivery, ?_⟩
      by_cases hends : delivery.code = .endOfStream
      · rw [hends] at hcode
        cases hcode
      · rwa [Code.asParseFailure_of_ne hends] at hcode

/-- However a parse comes to its end, the end respects the limit. -/
theorem Passage.respects (hread : readSize ≠ 0) (valid : start.buffer.Valid)
    (hsize : start.buffer.size.toNat ≤ start.buffer.limit.toNat)
    (hpassage : Passage parser readSize start transcript answer last) :
    Respects start transcript answer last := by
  have hclosing := fun result (hanswer : answer = .ok result) =>
    Passage.closing hread valid (hanswer ▸ hpassage)
  cases hpassage with
  | @intro past rest mid last answer hreaches hends =>
      have contained := hreaches.contained hread valid (Buffer.contained_self hsize)
      have hlimit := hreaches.limit hread
      have hfull : Event.AsksBeyond start.buffer.limit (past ++ rest) →
          answer = .ok (.failed .overflow) ∧ last = mid ∧
            mid.buffer.size = mid.buffer.limit := by
        rw [← hlimit]
        exact hends.of_asksBeyond hread
      refine {
        notOver := hends.notOver hread contained
        overflows := ⟨?_, ?_⟩
        once := fun buffer hint => hends.asksBeyond hread hreaches
        full := ?_ }
      · rintro ⟨failure, hanswer, hcode⟩
        exact (hclosing _ hanswer).overflows hcode
      · rintro (hasks | ⟨delivery, hdelivery, hcode⟩)
        · exact ⟨_, (hfull hasks).1, rfl⟩
        · exact hends.of_sourceOverflows hreaches.received hdelivery hcode
      · intro hasks
        obtain ⟨hanswer, rfl, hwhole⟩ := hfull hasks
        have hlength : last.buffer.window.length = start.buffer.limit.toNat := by
          rw [Buffer.length_window, hwhole, hlimit]
        rw [← hreaches.pending hread valid, Feed.pending, List.take_left' hlength,
          List.drop_left' hlength]
        exact ⟨hanswer, hwhole, rfl, rfl⟩

end Feed

end StreamParse
