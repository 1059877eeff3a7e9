import StreamParse.Proofs.Course
import StreamParse.Proofs.Parser.Text

/-!
# Fragmentation

What a parse comes to depends on the data, the limit, and the way in which the source ends, and on
nothing else: not on the chunks, the cap or the read size, and not on how much of the data was in
the buffer already.  A stable parser decides on some front of the data within the limit, or on
none; every window of a parse is such a front, and the parse ends with a decision as soon as one
of them brings it.

An injected failure interrupts a parse.  One that is not interrupted comes to its conclusion.
-/

namespace StreamParse

namespace Parser

variable {ν ε : Type}

/-- What `parser` concludes from data when the window holds at most `limit` bytes and the data ends
with `code`: the result, and the bytes that are left of the data. -/
inductive Concludes (parser : Parser ν ε) (limit : Nat) (code : Code) (data : List UInt8) :
    Result ν ε → List UInt8 → Prop
  | value {front : List UInt8} {value : ν} {used : Nat} (hfront : front <+: data)
      (hlength : front.length ≤ limit) (hdone : parser front = .done value used) :
      Concludes parser limit code data (.value value) (data.drop used)
  | rejection {front : List UInt8} {error : ε} (hfront : front <+: data)
      (hlength : front.length ≤ limit) (hreject : parser front = .reject error) :
      Concludes parser limit code data (.failed (.rejection error)) data
  | overflow
      (hopen : ∀ front, front <+: data → front.length ≤ limit → (parser front).isDecided = false)
      (hlong : limit ≤ data.length) :
      Concludes parser limit code data (.failed .overflow) data
  | exhausted
      (hopen : ∀ front, front <+: data → front.length ≤ limit → (parser front).isDecided = false)
      (hshort : data.length < limit) :
      Concludes parser limit code data (.failed (.ofRead code)) data

/-- The conclusion, computed from one look at as much of the data as the window holds. -/
def conclusion (parser : Parser ν ε) (limit : Nat) (code : Code) (data : List UInt8) :
    Result ν ε × List UInt8 :=
  match parser (data.take limit) with
  | .done value used => (.value value, data.drop used)
  | .reject error => (.failed (.rejection error), data)
  | .more _ => (.failed (if limit ≤ data.length then .overflow else .ofRead code), data)

/-- A decision on a front of the data is the decision on all of the data that the window holds. -/
theorem Stable.eq_of_front {parser : Parser ν ε} (stable : parser.Stable)
    {front data : List UInt8} {limit : Nat} (hfront : front <+: data)
    (hlength : front.length ≤ limit) (hdecided : (parser front).isDecided = true) :
    parser (data.take limit) = parser front := by
  obtain ⟨rest, hrest⟩ := List.prefix_take_iff.mpr ⟨hfront, hlength⟩
  rw [← hrest]
  exact stable.keeps hdecided rest

/-- What is undecided was undecided all along. -/
theorem Stable.open_of_take {parser : Parser ν ε} (stable : parser.Stable)
    {data : List UInt8} {limit : Nat} {hint : Option Nat}
    (hmore : parser (data.take limit) = .more hint) (front : List UInt8) (hfront : front <+: data)
    (hlength : front.length ≤ limit) : (parser front).isDecided = false := by
  cases hdecided : (parser front).isDecided with
  | false => rfl
  | true =>
      rw [stable.eq_of_front hfront hlength hdecided] at hmore
      rw [hmore] at hdecided
      exact hdecided.symm

theorem more_of_open {parser : Parser ν ε} {data : List UInt8} {limit : Nat}
    (hopen : ∀ front, front <+: data → front.length ≤ limit →
      (parser front).isDecided = false) : ∃ hint, parser (data.take limit) = .more hint := by
  have hdecided := hopen (data.take limit) (List.take_prefix _ _) (List.length_take_le _ _)
  cases houtcome : parser (data.take limit) with
  | more hint => exact ⟨hint, rfl⟩
  | done value used =>
      rw [houtcome] at hdecided
      cases hdecided
  | reject error =>
      rw [houtcome] at hdecided
      cases hdecided

/-- A stable parser concludes exactly one thing. -/
theorem Stable.concludes_iff {parser : Parser ν ε} (stable : parser.Stable) {limit : Nat}
    {code : Code} {data rest : List UInt8} {result : Result ν ε} :
    parser.Concludes limit code data result rest ↔
      parser.conclusion limit code data = (result, rest) := by
  constructor
  · intro h
    rw [conclusion]
    cases h with
    | value hfront hlength hdone =>
        rw [stable.eq_of_front hfront hlength (congrArg Outcome.isDecided hdone), hdone]
    | rejection hfront hlength hreject =>
        rw [stable.eq_of_front hfront hlength (congrArg Outcome.isDecided hreject), hreject]
    | overflow hopen hlong =>
        obtain ⟨hint, hmore⟩ := more_of_open hopen
        rw [hmore]
        simp only [if_pos hlong]
    | exhausted hopen hshort =>
        obtain ⟨hint, hmore⟩ := more_of_open hopen
        rw [hmore]
        simp only [if_neg (Nat.not_le_of_lt hshort)]
  · intro h
    have hfront := List.take_prefix limit data
    have hlength := List.length_take_le limit data
    rw [conclusion] at h
    split at h
    · next value used hdone =>
      cases h
      exact .value hfront hlength hdone
    · next error hreject =>
      cases h
      exact .rejection hfront hlength hreject
    · next hint hmore =>
      have hopen := stable.open_of_take hmore
      split at h
      · next hlong =>
        cases h
        exact .overflow hopen hlong
      · next hshort =>
        cases h
        exact .exhausted hopen (Nat.lt_of_not_le hshort)

end Parser

namespace Event

variable {ν ε : Type}

/-- Whether the last of these events is a read that was injected into `source`. -/
def interrupted (transcript : List (Event ν ε)) (source : Source) : Bool :=
  match transcript.getLast? with
  | some (.read _) => (source.injection? source.reads).isSome
  | _ => false

theorem interrupted_cons_cons {first second : Event ν ε} {transcript : List (Event ν ε)}
    (hne : transcript ≠ []) (source : Source) :
    interrupted (first :: second :: transcript) source = interrupted transcript source := by
  obtain ⟨event, events, rfl⟩ := List.exists_cons_of_ne_nil hne
  simp only [interrupted, List.getLast?_cons_cons]

theorem interrupted_of_calm {source : Source} (hcalm : source.injections = [])
    (transcript : List (Event ν ε)) : interrupted transcript source = false := by
  rw [interrupted, Source.injection?, hcalm]
  split <;> rfl

end Event

namespace Feed

variable {ν ε : Type} {parser : Parser ν ε} {readSize : UInt64}

/-- The front of the pending bytes that a window within the limit can hold is the window itself,
when it is full or nothing is unread. -/
theorem take_pending_eq_window {feed : Feed} {limit : Nat} (hsize : feed.buffer.size.toNat ≤ limit)
    (hfull : feed.buffer.size.toNat = limit ∨ feed.source.unread = []) :
    feed.pending.take limit = feed.buffer.window := by
  rw [pending]
  rcases hfull with hfull | hunread
  · rw [List.take_left' (by rw [Buffer.length_window, hfull])]
  · rw [hunread, List.append_nil]
    exact List.take_of_length_le (by rw [Buffer.length_window]; exact hsize)

theorem window_prefix_pending (feed : Feed) : feed.buffer.window <+: feed.pending :=
  List.prefix_append _ _

section Parses

variable [Allocator]

/-- A read that fails and was not injected has found nothing left to read. -/
theorem Reads.exhausted {feed next : Feed} {delivery : Delivery} (hread : readSize ≠ 0)
    (hreads : Reads parser readSize feed delivery next) (hfailed : delivery.code.failed = true)
    (hcalm : next.source.injection? next.source.reads = none) :
    feed.source.unread = [] ∧ delivery.code = feed.source.atEnd.code := by
  obtain ⟨room, _, hdelivery, hsource⟩ := hreads.source hread
  have hnone : feed.source.injection? (feed.source.reads + 1) = none := by
    rw [hsource, Source.reads_read, Source.injection?, Source.injections_read] at hcalm
    exact hcalm
  rw [hdelivery] at hfailed
  obtain ⟨hunread, hcode⟩ := Source.read_failed hnone hfailed
  rw [hdelivery, hcode]
  exact ⟨hunread, rfl⟩

/-- A parse of a stable parser that is not interrupted, and has the memory it asks for, comes to the
conclusion that its data allows. -/
theorem Course.concludes (stable : parser.Stable) {feed last : Feed}
    {transcript : List (Event ν ε)} {answer : Except Fault (Result ν ε)} (hread : readSize ≠ 0)
    (valid : feed.buffer.Valid) (hsize : feed.buffer.size.toNat ≤ feed.buffer.limit.toNat)
    (hcourse : Course parser readSize feed transcript answer last)
    (hmemory : answer ≠ .error .outOfMemory)
    (hcalm : Event.interrupted transcript last.source = false) :
    ∃ result, answer = .ok result ∧
      parser.Concludes feed.buffer.limit.toNat feed.source.atEnd.code feed.pending result
        last.pending := by
  induction hcourse with
  | @ended feed answer buffer hturn =>
      have hleads := Buffer.leads_of_turn hread hturn
      generalize houtcome : parser feed.buffer.window = outcome at hleads
      have hlength : feed.buffer.window.length ≤ feed.buffer.limit.toNat := by
        rw [Buffer.length_window]
        exact hsize
      cases hleads with
      | @value value used hused =>
          refine ⟨_, rfl, ?_⟩
          rw [pending_discard valid hused]
          exact .value feed.window_prefix_pending hlength houtcome
      | overuse hused =>
          have hle := stable.used_le houtcome
          rw [Buffer.length_window] at hle
          exact absurd hused (Nat.not_lt_of_le hle)
      | rejection => exact ⟨_, rfl, .rejection feed.window_prefix_pending hlength houtcome⟩
      | overflow hfull =>
          have hfull : feed.buffer.size.toNat = feed.buffer.limit.toNat :=
            congrArg UInt64.toNat hfull
          have htake := take_pending_eq_window hsize (.inl hfull)
          rw [← htake] at houtcome
          refine ⟨_, rfl, .overflow (stable.open_of_take houtcome) ?_⟩
          rw [← hfull, ← Buffer.length_window]
          exact feed.window_prefix_pending.length_le
      | overLimit hover => exact absurd hsize (Nat.not_le_of_lt hover)
      | outOfMemory _ _ => exact absurd rfl hmemory
  | @failed feed next delivery hreads hfailed =>
      obtain ⟨hint, _, _, houtcome, hroom, _⟩ := hreads.starved hread
      have hnone : next.source.injection? next.source.reads = none :=
        Option.not_isSome_iff_eq_none.mp (Bool.eq_false_iff.mp hcalm)
      obtain ⟨hunread, hcode⟩ := hreads.exhausted hread hfailed hnone
      have htake := take_pending_eq_window hsize (.inr hunread)
      rw [← htake] at houtcome
      refine ⟨_, rfl, ?_⟩
      rw [hreads.pending hread valid, hcode]
      refine .exhausted (stable.open_of_take houtcome) ?_
      rw [pending, hunread, List.append_nil, Buffer.length_window]
      exact hroom
  | @received feed next last delivery events answer hreads _ hrest ih =>
      rw [Event.interrupted_cons_cons hrest.transcript_ne_nil] at hcalm
      have hconcludes := ih (hreads.valid hread valid) (hreads.size_le hread valid) hmemory hcalm
      obtain ⟨room, _, _, hsource⟩ := hreads.source hread
      rw [hreads.limit hread, hreads.pending hread valid, hsource, Source.atEnd_read] at hconcludes
      exact hconcludes

/-- Where nothing is injected nothing interrupts. -/
theorem interrupted_parse {feed : Feed} (parser : Parser ν ε) (readSize : UInt64)
    (live : feed.source.Live) (hcalm : feed.source.injections = []) :
    Event.interrupted (feed.parse parser readSize).transcript
      (feed.parse parser readSize).feed.source = false := by
  obtain ⟨answer, hanswer⟩ := feed.parse_answers parser readSize live
  apply Event.interrupted_of_calm
  rw [injections_parse hanswer, hcalm]

/-- A parse of a stable parser that nothing interrupts ends with its conclusion. -/
theorem parse_concludes (stable : parser.Stable) {feed : Feed} (ready : feed.Ready)
    (hread : readSize ≠ 0)
    (hcalm : Event.interrupted (feed.parse parser readSize).transcript
      (feed.parse parser readSize).feed.source = false)
    (hmemory : (feed.parse parser readSize).answer ≠ some (.error .outOfMemory)) :
    ∃ result, (feed.parse parser readSize).answer = some (.ok result) ∧
      parser.Concludes feed.buffer.limit.toNat feed.source.atEnd.code feed.pending result
        (feed.parse parser readSize).feed.pending := by
  obtain ⟨answer, hanswer⟩ := feed.parse_answers parser readSize ready.live
  have hcourse := course_of_parse hread hanswer
  rw [hanswer] at hmemory ⊢
  obtain ⟨result, rfl, hconcludes⟩ := hcourse.concludes stable hread ready.valid ready.size_le
    (fun hfault => hmemory (congrArg some hfault)) hcalm
  exact ⟨result, rfl, hconcludes⟩

/-- Over a live source without injections a parse of a stable parser ends, and what it ends with
is the one conclusion that the limit, the end of the source and the data allow.  The data is the
window followed by the unread bytes; how it is cut up leaves no trace. -/
theorem parse_concludes_iff (stable : parser.Stable) {feed : Feed} (valid : feed.buffer.Valid)
    (hsize : feed.buffer.size ≤ feed.buffer.limit) (live : feed.source.Live)
    (hcalm : feed.source.injections = []) (hread : readSize ≠ 0)
    (hmemory : (feed.parse parser readSize).answer ≠ some (.error .outOfMemory)) :
    ∃ result, (feed.parse parser readSize).answer = some (.ok result) ∧
      ∀ result' rest,
        parser.Concludes feed.buffer.limit.toNat feed.source.atEnd.code feed.pending result' rest ↔
          result' = result ∧ rest = (feed.parse parser readSize).feed.pending := by
  have ready : feed.Ready := ⟨valid, UInt64.le_iff_toNat_le.mp hsize, live⟩
  obtain ⟨result, hanswer, hconcludes⟩ := parse_concludes stable ready hread
    (interrupted_parse parser readSize live hcalm) hmemory
  refine ⟨result, hanswer, ?_⟩
  intro result' rest
  rw [stable.concludes_iff] at hconcludes ⊢
  rw [hconcludes, Prod.mk.injEq]
  exact and_congr eq_comm eq_comm

end Parses

/-- The word `GET` and a byte behind it, the first letter in the window and the others in pieces,
with empty chunks between them. -/
def wordInPieces : Feed where
  source := { chunks := [[], [0x45], [], [0x54, 0x20, 0x78]], cap := some 1 }
  buffer := { size := 1, capacity := 2, limit := 8, storage := .ofList [0x47] }

/-- The word is found, and the byte behind it is left. -/
theorem parse_wordInPieces :
    (wordInPieces.parse Parser.token 3).answer = some (.ok (.value [0x47, 0x45, 0x54])) ∧
      (wordInPieces.parse Parser.token 3).feed.pending = [0x78] := by
  have hmemory : (wordInPieces.parse Parser.token 3).answer ≠ some (.error .outOfMemory) := by
    have hanswer : (wordInPieces.parse Parser.token 3).answer =
        some (.ok (.value [0x47, 0x45, 0x54])) := rfl
    rw [hanswer]
    simp
  have valid : wordInPieces.buffer.Valid := ⟨by decide, by decide⟩
  have live : wordInPieces.source.Live :=
    ⟨fun hcap => Option.some_inj.mp hcap ▸ Nat.one_pos, rfl⟩
  obtain ⟨result, hanswer, hiff⟩ := parse_concludes_iff Parser.stable_token valid (by decide) live
    rfl (by decide) hmemory
  have hdone : Parser.token [0x47, 0x45, 0x54, 0x20] = .done [0x47, 0x45, 0x54] 4 := rfl
  obtain ⟨rfl, hrest⟩ := (hiff _ _).mp (.value (by decide) (by decide) hdone)
  exact ⟨hanswer, hrest.symm⟩

end Feed

end StreamParse
