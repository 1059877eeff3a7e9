import StreamParse.Proofs.Shape

/-!
# How a parse closes

A parse that meets no fault closes in one of four ways, and which one can be told from its last look
and its last read: with a value, with a rejection, with a full window, or with a read that failed.

The failure that it leaves is a code, and its kind is found out later from the code alone.  Over a
source that keeps to codes of its own the kind is never wrong: it names the parser, the limit, the end
of the stream or the source exactly where that was the last thing to happen.  A code of this library
that comes from the source would be taken for the library's own.
-/

namespace StreamParse

variable {ν ε : Type}

/-! ## What reads bring -/

namespace Source

/-- What a read of a source may bring: bytes of a chunk, the code that the source ends with, or an
injected code, with bytes only where the injection keeps them.  A read that is cancelled brings
nothing. -/
inductive Brings (source : Source) : Delivery → Prop
  | chunk (bytes : List UInt8) : Brings source { bytes }
  | ended : Brings source { code := source.atEnd.code }
  | injected {injection : Injection} (hmem : injection ∈ source.injections) {bytes : List UInt8}
      (hbytes : injection.keepsBytes = false → bytes = []) :
      Brings source { bytes, code := injection.code }
  | cancelled : Brings source { code := .operationAborted }

/-- The codes of a source are none of this library's own. -/
structure Foreign (source : Source) : Prop where
  ends : source.atEnd.code.category ≠ .parsing
  injected : ∀ injection ∈ source.injections, injection.code.category ≠ .parsing

/-- No bytes come with an end of the stream. -/
def EndsBare (source : Source) : Prop :=
  ∀ injection ∈ source.injections, injection.code = .endOfStream → injection.keepsBytes = false

instance (source : Source) : Decidable source.EndsBare :=
  inferInstanceAs (Decidable (∀ injection ∈ source.injections, _))

variable {source left : Source} {deliveries : List Delivery} {delivery : Delivery}

theorem brings_draw (source : Source) (room : Nat) : source.Brings (source.draw room).1 := by
  rw [draw]
  split
  · exact .ended
  · exact .chunk _

/-- Sources that end alike and have the same injections bring the same. -/
theorem Brings.congr {other : Source} (hbrings : other.Brings delivery)
    (hends : other.atEnd = source.atEnd) (hinjections : other.injections = source.injections) :
    source.Brings delivery := by
  cases hbrings with
  | chunk bytes => exact .chunk bytes
  | ended =>
      rw [hends]
      exact .ended
  | injected hmem hbytes =>
      rw [hinjections] at hmem
      exact .injected hmem hbytes
  | cancelled => exact .cancelled

theorem brings_read (source : Source) (room : Nat) : source.Brings (source.read room).1 := by
  have hdraw := brings_draw { source with reads := source.reads + 1 } room
  cases hinjection : source.injection? (source.reads + 1) with
  | none =>
      rw [read_of_none room hinjection]
      exact hdraw.congr rfl rfl
  | some injection =>
      have hmem : injection ∈ source.injections := by
        rw [injection?] at hinjection
        exact List.mem_of_find?_eq_some hinjection
      cases hkeeps : injection.keepsBytes with
      | true =>
          rw [read_of_keeps room hinjection hkeeps]
          exact .injected hmem fun hdrops =>
            absurd (hkeeps.symm.trans hdrops) Bool.false_ne_true.symm
      | false =>
          rw [read_of_drops room hinjection hkeeps]
          exact .injected hmem fun _ => rfl

/-- Reads change neither the end of a source nor its injections. -/
theorem Gave.same (hgave : source.Gave deliveries left) :
    left.atEnd = source.atEnd ∧ left.injections = source.injections := by
  induction hgave with
  | nothing => exact ⟨rfl, rfl⟩
  | read _ _ ih =>
      rw [atEnd_read, injections_read]
      exact ih
  | cancelled _ _ ih => exact ih

theorem Gave.brings (hgave : source.Gave deliveries left) :
    ∀ delivery ∈ deliveries, source.Brings delivery := by
  induction hgave with
  | nothing => exact nofun
  | @read deliveries left room hgave _ ih =>
      obtain ⟨hends, hinjections⟩ := hgave.same
      intro delivery hmem
      rcases List.mem_append.mp hmem with hmem | hmem
      · exact ih delivery hmem
      · rw [List.mem_singleton.mp hmem]
        exact (left.brings_read room).congr hends hinjections
  | cancelled _ _ ih =>
      intro delivery hmem
      rcases List.mem_append.mp hmem with hmem | hmem
      · exact ih delivery hmem
      · rw [List.mem_singleton.mp hmem]
        exact .cancelled

theorem Foreign.category_ne (foreign : source.Foreign) (hbrings : source.Brings delivery) :
    delivery.code.category ≠ .parsing := by
  cases hbrings with
  | chunk => exact nofun
  | ended => exact foreign.ends
  | injected hmem _ => exact foreign.injected _ hmem
  | cancelled => exact nofun

theorem EndsBare.bytes_eq_nil (bare : source.EndsBare) (hbrings : source.Brings delivery)
    (hcode : delivery.code = .endOfStream) : delivery.bytes = [] := by
  cases hbrings with
  | chunk => cases hcode
  | ended => rfl
  | injected hmem hbytes => exact hbytes (bare _ hmem hcode)
  | cancelled => rfl

end Source

/-! ## What codes tell -/

namespace Failure

/-- The failure that a read leaves holds an error exactly if the read failed. -/
theorem holdsError_ofRead (code : Code) :
    (ofRead code : Failure ε).holdsError = code.failed :=
  code.failed_asParseFailure

/-- An end of the stream is a short read, and every other foreign code is the source's. -/
theorem kind_ofRead {code : Code} (hfailed : code.failed = true)
    (hforeign : code.category ≠ .parsing) :
    (ofRead code : Failure ε).kind = if code = .endOfStream then .shortRead else .source := by
  split
  · next hends =>
    rw [hends]
    rfl
  · next hends =>
    have hcode : (ofRead code : Failure ε).code = code := Code.asParseFailure_of_ne hends
    have hother : ∀ own : Code, own.category = .parsing → code ≠ own := by
      rintro _ hown rfl
      exact hforeign hown
    rw [kind, hcode, hfailed, if_neg (by decide), if_neg (hother _ rfl), if_neg (hother _ rfl),
      if_neg (hother _ rfl)]

end Failure

/-! ## What stays undecided -/

namespace Parser

variable {parser : Parser ν ε}

/-- Each decision is kept on every longer window. -/
def Keeps (parser : Parser ν ε) : Prop :=
  ∀ window, (parser window).isDecided = true → ∀ rest, parser (window ++ rest) = parser window

theorem Stable.keeps_decisions (stable : parser.Stable) : parser.Keeps :=
  fun _ hdecided rest => stable.keeps hdecided rest

/-- A parser that wants more of a window has wanted more of every front of it. -/
theorem Keeps.isMore_of_prefix (keeps : parser.Keeps) {front window : List UInt8}
    (hfront : front <+: window) (hmore : (parser window).isMore = true) :
    (parser front).isMore = true := by
  obtain ⟨rest, rfl⟩ := hfront
  cases hopen : (parser front).isMore with
  | true => rfl
  | false =>
      have hdecided : (parser front).isDecided = true := congrArg not hopen
      rw [keeps front hdecided rest, hopen] at hmore
      exact hmore

end Parser

/-- The last look was at a window of `limit` bytes, and the parser asked for more. -/
def Event.AsksBeyond (limit : UInt64) (transcript : List (Event ν ε)) : Prop :=
  (∃ hint, (outcomes transcript).getLast? = some (.more hint)) ∧
    ∃ window, (windows transcript).getLast? = some window ∧ window.length = limit.toNat

/-! ## The four ways -/

namespace Feed

/-- How a parse without a fault closes: its events, the feed that it leaves behind, and its result. -/
inductive Closing (parser : Parser ν ε) (limit : UInt64) (transcript : List (Event ν ε))
    (last : Feed) : Result ν ε → Prop
  | value {value : ν} {used : Nat}
      (houtcome : (Event.outcomes transcript).getLast? = some (.done value used))
      (hreceived : ∀ delivery ∈ (Event.deliveries transcript).getLast?,
        delivery.code.failed = false) :
      Closing parser limit transcript last (.value value)
  | rejection {error : ε}
      (houtcome : (Event.outcomes transcript).getLast? = some (.reject error))
      (hreceived : ∀ delivery ∈ (Event.deliveries transcript).getLast?,
        delivery.code.failed = false) :
      Closing parser limit transcript last (.failed (.rejection error))
  | overflow {hint : Option Nat} {window : List UInt8}
      (houtcome : (Event.outcomes transcript).getLast? = some (.more hint))
      (hwindow : (Event.windows transcript).getLast? = some window)
      (hmore : parser window = .more hint) (hfull : window.length = limit.toNat)
      (hreceived : ∀ delivery ∈ (Event.deliveries transcript).getLast?,
        delivery.code.failed = false)
      (hleft : last.buffer.window = window) :
      Closing parser limit transcript last (.failed .overflow)
  | read {hint : Option Nat} {window : List UInt8} {delivery : Delivery}
      (houtcome : (Event.outcomes transcript).getLast? = some (.more hint))
      (hwindow : (Event.windows transcript).getLast? = some window)
      (hmore : parser window = .more hint) (hroom : window.length < limit.toNat)
      (hdelivery : (Event.deliveries transcript).getLast? = some delivery)
      (hfailed : delivery.code.failed = true)
      (hleft : last.buffer.window = window ++ delivery.bytes) :
      Closing parser limit transcript last (.failed (.ofRead delivery.code))

variable {parser : Parser ν ε} {readSize : UInt64} {first mid last : Feed}
variable {past rest transcript : List (Event ν ε)} {result : Result ν ε}

/-- The last outcome and the last window are those of the last turn. -/
theorem getLast?_outcomes_lastTurn (past : List (Event ν ε)) (parser : Parser ν ε) (mid : Feed)
    (delivery? : Option Delivery) :
    (Event.outcomes (past ++ lastTurn parser mid delivery?)).getLast? =
      some (parser mid.buffer.window) := by
  rw [Event.outcomes_append, outcomes_lastTurn, List.getLast?_concat]

theorem getLast?_windows_lastTurn (past : List (Event ν ε)) (parser : Parser ν ε) (mid : Feed)
    (delivery? : Option Delivery) :
    (Event.windows (past ++ lastTurn parser mid delivery?)).getLast? =
      some mid.buffer.window := by
  rw [Event.windows_append, windows_lastTurn, List.getLast?_concat]

section Allocations

variable [Allocator]

/-- The reads behind which a parse went on succeeded. -/
theorem Reaches.received (hreaches : Reaches parser readSize first past mid) :
    ∀ delivery ∈ Event.deliveries past, delivery.code.failed = false := by
  induction hreaches with
  | nothing => exact nofun
  | read _ _ hreceived ih =>
      intro delivery hmem
      rw [Event.deliveries_append] at hmem
      rcases List.mem_append.mp hmem with hmem | hmem
      · exact ih delivery hmem
      · rw [List.mem_singleton.mp hmem]
        exact hreceived

omit [Allocator] in
/-- A read that failed closes a parse that wanted more and had room for it. -/
theorem closing_of_read {hint : Option Nat} {delivery : Delivery}
    (hmore : parser mid.buffer.window = .more hint)
    (hroom : mid.buffer.size.toNat < mid.buffer.limit.toNat)
    (hfailed : delivery.code.failed = true)
    (hleft : last.buffer.window = mid.buffer.window ++ delivery.bytes) :
    Closing parser mid.buffer.limit (past ++ lastTurn parser mid (some delivery)) last
      (.failed (.ofRead delivery.code)) := by
  have houtcome := getLast?_outcomes_lastTurn past parser mid (some delivery)
  have hwindow := getLast?_windows_lastTurn past parser mid (some delivery)
  rw [hmore] at houtcome
  refine .read houtcome hwindow hmore ?_ ?_ hfailed hleft
  · rw [Buffer.length_window]
    exact hroom
  · rw [Event.deliveries_append, deliveries_lastTurn, Option.toList_some, List.getLast?_concat]

theorem Ends.closing (hread : readSize ≠ 0) (valid : mid.buffer.Valid)
    (hreceived : ∀ delivery ∈ Event.deliveries past, delivery.code.failed = false)
    (hends : Ends parser readSize mid rest (.ok result) last) :
    Closing parser mid.buffer.limit (past ++ rest) last result := by
  cases hends with
  | @look _ buffer hturn =>
      have hreceived' : ∀ delivery ∈ (Event.deliveries
          (past ++ Feed.lastTurn parser mid none)).getLast?, delivery.code.failed = false := by
        intro delivery hmem
        rw [Event.deliveries_append, deliveries_lastTurn, Option.toList_none,
          List.append_nil] at hmem
        exact hreceived delivery (List.mem_of_getLast? hmem)
      have houtcome := getLast?_outcomes_lastTurn past parser mid none
      have hwindow := getLast?_windows_lastTurn past parser mid none
      have hleads := Buffer.leads_of_turn hread hturn
      change Closing parser _ (past ++ Feed.lastTurn parser mid none) _ _
      generalize hmore : parser mid.buffer.window = outcome at hleads houtcome
      cases hleads with
      | value hused => exact .value houtcome hreceived'
      | rejection => exact .rejection houtcome hreceived'
      | overflow hfull =>
          refine .overflow houtcome hwindow hmore ?_ hreceived' rfl
          rw [Buffer.length_window, hfull]
  | read hreads hfailed =>
      obtain ⟨hint, _, _, hmore, hroom, -⟩ := hreads.starved hread
      exact closing_of_read hmore hroom hfailed (hreads.window hread valid)
  | @cancelled area buffer hturn hholds =>
      obtain ⟨hint, hmore, hroom, hreserve⟩ := Buffer.starves_of_reads hread hturn
      obtain ⟨valid', hoffset, harea⟩ := valid.reserve hreserve
      have hleft : (Feed.cancelled { mid with buffer } area).buffer.window =
          mid.buffer.window ++ (Delivery.mk [] .operationAborted).bytes := by
        rw [← Buffer.window_reserve hreserve]
        exact valid'.window_commit_fill hoffset harea (Nat.zero_le _)
      exact closing_of_read hmore hroom rfl hleft

/-- Whatever a parse comes to that meets no fault, it closes in one of the four ways. -/
theorem Passage.closing (hread : readSize ≠ 0) (valid : first.buffer.Valid)
    (hpassage : Passage parser readSize first transcript (.ok result) last) :
    Closing parser first.buffer.limit transcript last result := by
  cases hpassage with
  | intro hreaches hends =>
      rw [← hreaches.limit hread]
      exact hends.closing hread (hreaches.valid hread valid) hreaches.received

theorem Ends.gave (hread : readSize ≠ 0) {answer : Except Fault (Result ν ε)}
    (hends : Ends parser readSize mid rest answer last) :
    mid.source.Gave (Event.deliveries rest) last.source := by
  cases hends with
  | look => exact .nothing
  | read hreads _ =>
      obtain ⟨room, hroom, hdelivery, hsource⟩ := hreads.source hread
      change mid.source.Gave [_] _
      rw [hdelivery, hsource]
      exact Source.Gave.nothing.read hroom
  | cancelled _ hholds => exact Source.Gave.nothing.cancelled hholds

/-- The reads of a parse are those of its source, and there are no others. -/
theorem Passage.gave (hread : readSize ≠ 0) {answer : Except Fault (Result ν ε)}
    (hpassage : Passage parser readSize first transcript answer last) :
    first.source.Gave (Event.deliveries transcript) last.source := by
  cases hpassage with
  | intro hreaches hends =>
      rw [Event.deliveries_append]
      exact (hreaches.gave hread).append (hends.gave hread)

end Allocations

/-! ## Who is to blame -/

/-- What a result tells of the last outcome and the last read behind it, at a window of at most `limit`
bytes. -/
structure Blames (limit : UInt64) (transcript : List (Event ν ε)) (result : Result ν ε) : Prop where
  /-- There is a value or an error, and never both. -/
  either : result.failure.holdsError = !result.isValue
  value : ∀ value, result = .value value ↔
    ∃ used, (Event.outcomes transcript).getLast? = some (.done value used)
  none : result.failure.kind = .none ↔ result.isValue = true
  parser : result.failure.kind = .parser ↔
    ∃ error, (Event.outcomes transcript).getLast? = some (.reject error)
  /-- Only a parser has more to say than the code, and it is passed on as it was said. -/
  detail : ∀ error, result.failure.detail = some error ↔
    (Event.outcomes transcript).getLast? = some (.reject error)
  overflow : result.failure.kind = .overflow ↔ Event.AsksBeyond limit transcript
  shortRead : result.failure.kind = .shortRead ↔
    ∃ delivery, (Event.deliveries transcript).getLast? = some delivery ∧
      delivery.code = .endOfStream
  source : result.failure.kind = .source ↔
    ∃ delivery, (Event.deliveries transcript).getLast? = some delivery ∧
      delivery.code.failed = true ∧ delivery.code ≠ .endOfStream
  /-- A code of the source is passed on unchanged. -/
  code : result.failure.kind = .source →
    (Event.deliveries transcript).getLast?.map Delivery.code = some result.failure.code

/-- Where the last read succeeded, neither the end of the stream nor the source is to blame. -/
theorem not_blamed_of_received {delivery? : Option Delivery}
    (hreceived : ∀ delivery ∈ delivery?, delivery.code.failed = false) :
    (¬ ∃ delivery, delivery? = some delivery ∧ delivery.code = .endOfStream) ∧
      ¬ ∃ delivery, delivery? = some delivery ∧ delivery.code.failed = true ∧
        delivery.code ≠ .endOfStream := by
  constructor
  · rintro ⟨delivery, hmem, hcode⟩
    have hreceived := hreceived delivery hmem
    rw [hcode] at hreceived
    cases hreceived
  · rintro ⟨delivery, hmem, hfailed, -⟩
    rw [hreceived delivery hmem] at hfailed
    cases hfailed

theorem Closing.blames {limit : UInt64} (hclosing : Closing parser limit transcript last result)
    (hforeign : ∀ delivery ∈ Event.deliveries transcript, delivery.code.category ≠ .parsing) :
    Blames limit transcript result := by
  cases hclosing with
  | @value value used houtcome hreceived =>
      have hkind : (Result.value value : Result ν ε).failure.kind = .none := rfl
      obtain ⟨hends, hsource⟩ := not_blamed_of_received hreceived
      exact {
        either := rfl
        value := by simp [houtcome]
        none := iff_of_true hkind rfl
        parser := by simp [hkind, houtcome]
        detail := by simp [houtcome, Result.failure, Failure.empty]
        overflow := by simp [hkind, houtcome, Event.AsksBeyond]
        shortRead := iff_of_false nofun hends
        source := iff_of_false nofun hsource
        code := nofun }
  | @rejection error houtcome hreceived =>
      have hkind : (Result.failed (.rejection error) : Result ν ε).failure.kind = .parser := rfl
      obtain ⟨hends, hsource⟩ := not_blamed_of_received hreceived
      exact {
        either := rfl
        value := by simp [houtcome]
        none := iff_of_false nofun nofun
        parser := iff_of_true hkind ⟨_, houtcome⟩
        detail := by simp [houtcome, Result.failure, Failure.rejection]
        overflow := by simp [hkind, houtcome, Event.AsksBeyond]
        shortRead := iff_of_false nofun hends
        source := iff_of_false nofun hsource
        code := nofun }
  | overflow houtcome hwindow _ hfull hreceived _ =>
      have hkind : (Result.failed .overflow : Result ν ε).failure.kind = .overflow := rfl
      obtain ⟨hends, hsource⟩ := not_blamed_of_received hreceived
      exact {
        either := rfl
        value := by simp [houtcome]
        none := iff_of_false nofun nofun
        parser := by simp [hkind, houtcome]
        detail := by simp [houtcome, Result.failure, Failure.overflow]
        overflow := iff_of_true hkind ⟨⟨_, houtcome⟩, _, hwindow, hfull⟩
        shortRead := iff_of_false nofun hends
        source := iff_of_false nofun hsource
        code := nofun }
  | @read hint window delivery houtcome hwindow _ hroom hdelivery hfailed _ =>
      have hkind : (Result.failed (.ofRead delivery.code) : Result ν ε).failure.kind =
          if delivery.code = .endOfStream then .shortRead else .source :=
        Failure.kind_ofRead hfailed (hforeign delivery (List.mem_of_getLast? hdelivery))
      have hroom' : window.length ≠ limit.toNat := Nat.ne_of_lt hroom
      have hnone : (Result.failed (.ofRead delivery.code) : Result ν ε).failure.detail = none := rfl
      by_cases hends : delivery.code = .endOfStream
      · rw [if_pos hends] at hkind
        exact {
          either := (Failure.holdsError_ofRead delivery.code).trans hfailed
          value := by simp [houtcome]
          none := iff_of_false (by simp [hkind]) nofun
          parser := by simp [hkind, houtcome]
          detail := by simp [hnone, houtcome]
          overflow := by simp [hkind, hwindow, hroom', Event.AsksBeyond]
          shortRead := iff_of_true hkind ⟨_, hdelivery, hends⟩
          source := by
            rw [hkind]
            simp [hdelivery, hends]
          code := by simp [hkind] }
      · rw [if_neg hends] at hkind
        have hcode : (Result.failed (.ofRead delivery.code) : Result ν ε).failure.code =
            delivery.code :=
          Code.asParseFailure_of_ne hends
        exact {
          either := (Failure.holdsError_ofRead delivery.code).trans hfailed
          value := by simp [houtcome]
          none := iff_of_false (by simp [hkind]) nofun
          parser := by simp [hkind, houtcome]
          detail := by simp [hnone, houtcome]
          overflow := by simp [hkind, hwindow, hroom', Event.AsksBeyond]
          shortRead := by simp [hkind, hdelivery, hends]
          source := iff_of_true hkind ⟨_, hdelivery, hfailed, hends⟩
          code := fun _ => by rw [hdelivery, hcode, Option.map_some] }

/-! ## Input that is cut short -/

/-- What lies behind a short read: the parser wanted more of the last window that it was shown, and of
every front of it, and the read behind that look has brought the end of the stream, and perhaps bytes
that the parser was not shown. -/
structure CutShort (parser : Parser ν ε) (transcript : List (Event ν ε)) (last : Feed)
    (window bytes : List UInt8) : Prop where
  shown : (Event.windows transcript).getLast? = some window
  delivery : (Event.deliveries transcript).getLast? = some { bytes, code := .endOfStream }
  left : last.buffer.window = window ++ bytes
  incomplete : ∀ front, front <+: window → (parser front).isMore = true

theorem Closing.cutShort {limit : UInt64} {failure : Failure ε} (keeps : parser.Keeps)
    (hclosing : Closing parser limit transcript last (.failed failure))
    (hforeign : ∀ delivery ∈ Event.deliveries transcript, delivery.code.category ≠ .parsing)
    (hkind : failure.kind = .shortRead) :
    ∃ window bytes, CutShort parser transcript last window bytes := by
  cases hclosing with
  | rejection => cases hkind
  | overflow => cases hkind
  | @read hint window delivery _ hwindow hmore _ hdelivery hfailed hleft =>
      have hforeign := hforeign delivery (List.mem_of_getLast? hdelivery)
      rw [Failure.kind_ofRead hfailed hforeign] at hkind
      have hends : delivery.code = .endOfStream := by
        by_contra hother
        rw [if_neg hother] at hkind
        cases hkind
      refine ⟨window, delivery.bytes, hwindow, ?_, hleft, ?_⟩
      · rw [hdelivery, ← hends]
      · intro front hfront
        exact keeps.isMore_of_prefix hfront (congrArg Outcome.isMore hmore)

end Feed

end StreamParse
