import StreamParse.Proofs.Closing
import StreamParse.Proofs.Parser.Text
import StreamParse.Proofs.Reactor.Abandonment
import StreamParse.Proofs.Reactor.Shape

/-!
# What an ending tells

A parse that waits for its reads ends with an answer.  One that was started ends when it is told how:
in the call that started it, or later, out of the queue.  Either way the ending tells the truth about
what came last.  Errors name the party at fault, over every source that keeps to codes of its own.

A short read says that the input was cut short.  It is right about all that the parser was shown, and
so about all of the input unless the read that brought the end of the stream has brought bytes too:
those are kept, but the parser is not asked about them.
-/

namespace StreamParse

variable {ν ε : Type}

/-- A parse is started at a place that is clear, and then left alone but for cancellations of its
reads. -/
structure Reactor.Undertakes (reactor : Reactor ν ε) (operation : Operation ν ε)
    (start : Request ν ε) (during : List (Request ν ε)) : Prop where
  clear : reactor.Clear operation.id operation.place
  hosts : reactor.Hosts operation.place
  parse : start.parse? (reactor.readSizeAt operation.place) = some operation
  tended : ∀ request ∈ during, request.Tends reactor operation.id operation.place

namespace Feed

variable [Allocator]

/-- A parse has ended: the feed that it began with, what happened in it, its answer, and the feed that
it leaves behind. -/
inductive Finishes : Parser ν ε → UInt64 → Feed → List (Event ν ε) →
    Except Fault (Result ν ε) → Feed → Prop
  /-- The parse has waited for its reads. -/
  | waited {feed : Feed} {parser : Parser ν ε} {readSize : UInt64}
      {answer : Except Fault (Result ν ε)}
      (hanswer : (feed.parse parser readSize).answer = some answer) :
      Finishes parser readSize feed (feed.parse parser readSize).transcript answer
        (feed.parse parser readSize).feed
  /-- The parse was started, and its end has been told. -/
  | started {reactor : Reactor ν ε} {operation : Operation ν ε} {start : Request ν ε}
      {during : List (Request ν ε)} {transcript : List (Event ν ε)}
      {answer : Except Fault (Result ν ε)} (undertakes : reactor.Undertakes operation start during)
      (tells : (reactor.news operation.id (start :: during)).Tells operation.id transcript
        answer) :
      Finishes operation.parser operation.readSize (reactor.feedAt operation.place) transcript
        answer ((reactor.after (start :: during)).feedAt operation.place)

variable {parser : Parser ν ε} {readSize : UInt64} {first last : Feed}
variable {transcript : List (Event ν ε)}

/-- However it was done, a parse that has ended is a passage. -/
theorem Finishes.passage {answer : Except Fault (Result ν ε)} (hread : readSize ≠ 0)
    (hfinishes : Finishes parser readSize first transcript answer last) :
    Passage parser readSize first transcript answer last := by
  cases hfinishes with
  | waited hanswer => exact (course_of_parse hread hanswer).passage
  | started undertakes tells =>
      exact Reactor.passage_of_tells undertakes.clear undertakes.hosts undertakes.parse hread
        undertakes.tended tells

/-- Over a foreign source every read of a parse brings a foreign code. -/
theorem Passage.foreign {answer : Except Fault (Result ν ε)} (hread : readSize ≠ 0)
    (foreign : first.source.Foreign)
    (hpassage : Passage parser readSize first transcript answer last) :
    ∀ delivery ∈ Event.deliveries transcript, delivery.code.category ≠ .parsing :=
  fun delivery hmem => foreign.category_ne ((hpassage.gave hread).brings delivery hmem)

end Feed

/-! ## A parse that is alone -/

namespace Reactor

/-- A parse that is started on a feed of its own, and then given its turns. -/
theorem undertakes_only (feed : Feed) (id : Nat) (parser : Parser ν ε) (readSize : UInt64)
    (counts : List (Option Nat)) :
    feed.reactor.Undertakes { id, place := .only, parser, readSize } (.start id 0 0 parser readSize)
      (counts.map Request.run) where
  clear := clear_of_idle rfl
  hosts := hosts_only feed
  parse := rfl
  tended request hmem := by
    obtain ⟨count?, -, rfl⟩ := List.mem_map.mp hmem
    exact .inl (spares_run count?)

end Reactor

namespace Feed

variable [Allocator]

/-- The news of a parse that was started on a feed of its own and then given all turns that it asks
for. -/
def news (feed : Feed) (parser : Parser ν ε) (readSize : UInt64) : News ν ε :=
  feed.reactor.news 0 [.start 0 0 0 parser readSize, .run none]

/-- The feed that such a parse leaves behind. -/
def leftBehind (feed : Feed) (parser : Parser ν ε) (readSize : UInt64) : Feed :=
  (feed.reactor.after [.start 0 0 0 parser readSize, .run none]).feedAt .only

variable {parser : Parser ν ε} {readSize : UInt64}

/-- A parse that is alone has finished when its completion is there. -/
theorem finishes_of_news {feed : Feed} {windows : List (List UInt8)} {result : Result ν ε}
    (hnews : (feed.news parser readSize).completions.map Reactor.account? =
      [some (0, windows, result)]) :
    ∃ transcript, Event.windows transcript = windows ∧
      Finishes parser readSize feed transcript (.ok result) (feed.leftBehind parser readSize) := by
  obtain ⟨transcript, hcompletions, hwindows⟩ := Reactor.exists_transcript_of_account? hnews
  have undertakes := Reactor.undertakes_only feed 0 parser readSize [none]
  refine ⟨transcript, hwindows, .started undertakes (.completed ?_)⟩
  have hmem : .parsed 0 transcript result ∈ (feed.news parser readSize).completions := by
    rw [hcompletions]
    exact List.mem_cons_self
  exact hmem

end Feed

/-! ## The party at fault -/

/-- Errors name the party at fault, over any source whose codes are none of this library's own: a parse
that ends without a fault has a value or an error, and not both, and which one, and the kind of the
error, follow from the last outcome and the last read, in both directions.  The parser's own account
and a code of the source are passed on unchanged. -/
theorem errors_name_the_party_at_fault [Allocator] {parser : Parser ν ε} {readSize : UInt64}
    {first last : Feed} {transcript : List (Event ν ε)} {result : Result ν ε}
    (valid : first.buffer.Valid) (foreign : first.source.Foreign) (hread : readSize ≠ 0)
    (hfinishes : Feed.Finishes parser readSize first transcript (.ok result) last) :
    Feed.Blames first.buffer.limit transcript result := by
  have hpassage := hfinishes.passage hread
  exact (hpassage.closing hread valid).blames (hpassage.foreign hread foreign)

/-- A word whose second half comes together with a reset of the connection. -/
def resetWord : Feed where
  source :=
    { chunks := [[0x41], [0x42, 0x20]]
      injections := [{ turn := 2, code := .connectionReset, keepsBytes := true }] }
  buffer := .ofLimit 8

theorem source_of_reset_word_is_blamed :
    ∃ waited started,
      Feed.Blames 8 waited (.failed (.ofRead .connectionReset) : Result (List UInt8) BadByte) ∧
      Feed.Blames 8 started (.failed (.ofRead .connectionReset) : Result (List UInt8) BadByte) ∧
      Event.windows waited = [[], [0x41]] ∧ Event.windows started = [[], [0x41]] ∧
      (Event.deliveries waited).getLast? =
        some { bytes := [0x42, 0x20], code := .connectionReset } := by
  have valid : resetWord.buffer.Valid := Buffer.valid_ofLimit 8
  have foreign : resetWord.source.Foreign := ⟨by decide, by decide⟩
  have hread : (4 : UInt64) ≠ 0 := by decide
  have hanswer : (resetWord.parse Parser.token 4).answer =
      some (.ok (.failed (.ofRead .connectionReset))) := by
    decide +kernel
  have hnews : (resetWord.news Parser.token 4).completions.map Reactor.account? =
      [some (0, [[], [0x41]], .failed (.ofRead .connectionReset))] := by
    decide +kernel
  obtain ⟨started, hwindows, hstarted⟩ := Feed.finishes_of_news hnews
  exact ⟨_, started,
    errors_name_the_party_at_fault valid foreign hread (.waited hanswer),
    errors_name_the_party_at_fault valid foreign hread hstarted,
    by decide +kernel, hwindows, by decide +kernel⟩

/-! ## Input that is cut short -/

/-- A short read is never reported to a parser that has been shown enough: if it keeps its decisions,
it wants more of the last window that it was shown, and of every front of it.  The window that the parse
leaves behind is that one and the bytes that came with the end of the stream, so over a source that
brings none with it, the parser wants more of all that was received. -/
theorem short_reads_are_truncations [Allocator] {parser : Parser ν ε} (keeps : parser.Keeps)
    {readSize : UInt64} {first last : Feed} {transcript : List (Event ν ε)} {failure : Failure ε}
    (valid : first.buffer.Valid) (foreign : first.source.Foreign) (hread : readSize ≠ 0)
    (hfinishes : Feed.Finishes parser readSize first transcript (.ok (.failed failure)) last)
    (hcode : failure.code = .shortRead) :
    ∃ window bytes, Feed.CutShort parser transcript last window bytes ∧
      (first.source.EndsBare → bytes = [] ∧
        ∀ front, front <+: last.buffer.window → (parser front).isMore = true) := by
  have hpassage := hfinishes.passage hread
  have hkind : failure.kind = .shortRead := by
    rw [Failure.kind, hcode]
    rfl
  obtain ⟨window, bytes, hshort⟩ :=
    (hpassage.closing hread valid).cutShort keeps (hpassage.foreign hread foreign) hkind
  refine ⟨window, bytes, hshort, fun bare => ?_⟩
  have hbrings := (hpassage.gave hread).brings _ (List.mem_of_getLast? hshort.delivery)
  obtain rfl : bytes = [] := bare.bytes_eq_nil hbrings rfl
  refine ⟨rfl, ?_⟩
  rw [hshort.left, List.append_nil]
  exact hshort.incomplete

/-- Two letters of a word, and then nothing. -/
def unfinished : Feed where
  source := { chunks := [[0x41], [0x42]] }
  buffer := .ofLimit 8

theorem unfinished_word_is_truncated :
    (unfinished.parse Parser.token 4).answer = some (.ok (.failed (.ofRead .endOfStream))) ∧
      ∀ front, front <+: (unfinished.parse Parser.token 4).feed.buffer.window →
        (Parser.token front).isMore = true := by
  have hanswer : (unfinished.parse Parser.token 4).answer =
      some (.ok (.failed (.ofRead .endOfStream))) := by
    decide +kernel
  have valid : unfinished.buffer.Valid := Buffer.valid_ofLimit 8
  have foreign : unfinished.source.Foreign := ⟨by decide, by decide⟩
  have bare : unfinished.source.EndsBare := by decide
  obtain ⟨window, bytes, -, hbare⟩ := short_reads_are_truncations
    Parser.stable_token.keeps_decisions valid foreign (by decide) (.waited hanswer) rfl
  exact ⟨hanswer, (hbare bare).2⟩

/-- A word with its end, which comes together with the end of the stream. -/
def complete : Feed where
  source :=
    { chunks := [[0x41, 0x42, 0x20]]
      injections := [{ turn := 1, code := .endOfStream, keepsBytes := true }] }
  buffer := .ofLimit 8

/-- The word is in the window with its end, and is reported as cut short, by a parse that waits and by
one that was started. -/
theorem complete_word_reported_cut_short :
    Parser.token.Keeps ∧ complete.source.Foreign ∧ complete.buffer.Valid ∧
      complete.buffer.size ≤ complete.buffer.limit ∧
      (complete.parse Parser.token 4).answer = some (.ok (.failed { code := .shortRead })) ∧
      Parser.token (complete.parse Parser.token 4).feed.buffer.window = .done [0x41, 0x42] 3 ∧
      (complete.news Parser.token 4).completions.map Reactor.account? =
        [some (0, [[]], .failed { code := .shortRead })] ∧
      Parser.token (complete.leftBehind Parser.token 4).buffer.window = .done [0x41, 0x42] 3 := by
  refine ⟨Parser.stable_token.keeps_decisions, ⟨by decide, by decide⟩, Buffer.valid_ofLimit 8,
    by decide, ?_, ?_, ?_, ?_⟩ <;> decide +kernel

end StreamParse
