import StreamParse.Proofs.Conservation
import StreamParse.Proofs.Fragmentation
import StreamParse.Proofs.Parser.Line

/-!
# From parsing to raw reading

A session whose input is framed gives the values of its frames, one parse after another, however the
input is cut up.  The bytes behind the last frame are its body.  Some of them may have been read ahead
by then, and others not; a caller that goes on with raw reads is given all of them, in order, and then
the code that the source ends with.
-/

namespace StreamParse

variable {ν ε : Type}

/-- Without injections a read succeeds, or finds the source used up. -/
theorem Source.read_of_calm {source : Source} (hcalm : source.injections = []) (room : Nat) :
    (source.read room).1.code = .ok ∨
      source.unread = [] ∧ (source.read room).1 = { code := source.atEnd.code } := by
  have hnone : source.injection? (source.reads + 1) = none := by
    rw [injection?, hcalm]
    rfl
  rw [read_of_none room hnone]
  cases hchunks : source.chunks with
  | nil => exact .inr (by simp [unread, draw, hchunks])
  | cons chunk chunks => exact .inl (by simp [draw])

/-- A value, the bytes that it is parsed from, and the way in which the caller wants it. -/
structure Frame (ν ε : Type) where
  mode : AnswerMode ε
  bytes : List UInt8
  value : ν

/-- The parser takes all bytes of a frame for its value, and they fit into a window. -/
structure Frame.Suits (frame : Frame ν ε) (parser : Parser ν ε) (limit : UInt64) : Prop where
  done : parser frame.bytes = .done frame.value frame.bytes.length
  fits : frame.bytes.length ≤ limit.toNat

/-- A frame at the front of the pending bytes is what a parse comes to, and is gone after it. -/
theorem Feed.parse_frame [Allocator] {parser : Parser ν ε} (stable : parser.Stable) {feed : Feed}
    (ready : feed.Ready) (hcalm : feed.source.injections = []) {readSize : UInt64}
    (hread : readSize ≠ 0) {frame : Frame ν ε} (suits : frame.Suits parser feed.buffer.limit)
    {rest : List UInt8} (hpending : feed.pending = frame.bytes ++ rest)
    (hmemory : (feed.parse parser readSize).answer ≠ some (.error .outOfMemory)) :
    (feed.parse parser readSize).answer = some (.ok (.value frame.value)) ∧
      (feed.parse parser readSize).feed.pending = rest := by
  obtain ⟨result, hanswer, hconcludes⟩ := parse_concludes stable ready hread
    (interrupted_parse parser readSize ready.live hcalm) hmemory
  have hfront : frame.bytes <+: feed.pending := hpending ▸ List.prefix_append frame.bytes rest
  have hvalue : parser.Concludes feed.buffer.limit.toNat feed.source.atEnd.code feed.pending
      (.value frame.value) (feed.pending.drop frame.bytes.length) :=
    .value hfront suits.fits suits.done
  have hsame := (stable.concludes_iff.mp hconcludes).symm.trans (stable.concludes_iff.mp hvalue)
  obtain ⟨rfl, hleft⟩ := Prod.mk.inj hsame
  rw [hpending, List.drop_left] at hleft
  exact ⟨hanswer, hleft⟩

namespace Session

/-- What the parse answers, if the reply is that to a parse. -/
def Reply.answer? : Reply ν ε → Option (Answer ν ε)
  | .parsed answer _ => answer
  | _ => none

/-- What a raw read brings as far as its reply tells. -/
def Reply.delivery? : Reply ν ε → Option Delivery
  | .read delivery => some delivery
  | .bytes delivered => some { bytes := delivered }
  | .readFailed code => some { code := code }
  | _ => none

/-- A raw read into areas that take a byte or more. -/
inductive Command.Takes : Command ν ε → Prop
  | read {sizes : List Nat} (hroom : 0 < sizes.foldr (· + ·) 0) : Takes (.read sizes)
  | readBytes {sizes : List Nat} (hroom : 0 < sizes.foldr (· + ·) 0) : Takes (.readBytes sizes)

/-- A session in good order, with these bytes pending, this limit, a read size that asks for something,
and this code at the end of a source without injections. -/
structure Holds (session : Session) (limit : UInt64) (code : Code) (data : List UInt8) : Prop where
  ready : session.feed.Ready
  calm : session.feed.source.injections = []
  readSize : session.readSize ≠ 0
  limit : session.feed.buffer.limit = limit
  code : session.feed.source.atEnd.code = code
  pending : session.pending = data

variable {session : Session} {limit : UInt64} {code : Code} {data rest : List UInt8}
variable {parser : Parser ν ε}

/-! ## Raw reads -/

/-- The raw reads that can still succeed, each of which takes a buffered byte or wears the source
down. -/
def effort (session : Session) : Nat :=
  session.feed.buffer.size.toNat + session.feed.source.endurance

/-- A raw read of a session that holds some bytes: it hands out the first of them, perhaps none, or all
of them are gone and it tells the end. -/
inductive Hands (session : Session) (limit : UInt64) (code : Code) (data : List UInt8) :
    Delivery → Session → Prop
  | bytes {bytes left : List UInt8} {next : Session} (hdata : data = bytes ++ left)
      (holds : next.Holds limit code left) (hless : next.effort < session.effort) :
      Hands session limit code data { bytes := bytes } next
  | ended {next : Session} (hdata : data = []) : Hands session limit code data { code := code } next

/-- A window that has a byte gives one up. -/
theorem size_takeBuffered_lt {buffer : Buffer} (valid : buffer.Valid) (hbuffered : buffer.size ≠ 0)
    {room : Nat} (hroom : 0 < room) :
    (takeBuffered buffer room).2.size.toNat < buffer.size.toNat := by
  have hpos : buffer.size.toNat ≠ 0 := fun hnone => hbuffered (UInt64.toNat_inj.mp hnone)
  have hbound := buffer.size.toNat_lt
  have htaken : (buffer.window.take room).length = min room buffer.size.toNat := by
    rw [List.length_take, Buffer.length_window]
  have hword : (min room buffer.size.toNat).toUInt64.toNat = min room buffer.size.toNat :=
    Word.toNat_ofNat (by omega)
  have hleft : (takeBuffered buffer room).2.size.toNat =
      buffer.size.toNat - min room buffer.size.toNat := by
    rw [← Buffer.length_window, takeBuffered, valid.window_discard, List.length_drop,
      Buffer.length_window, htaken, hword]
  omega

/-- Bytes that were read ahead are handed out without a word to the source. -/
theorem Holds.hands_buffered (holds : session.Holds limit code data)
    (hbuffered : session.feed.buffer.size ≠ 0) {room : Nat} (hroom : 0 < room) :
    session.Hands limit code data (session.read room).1 (session.read room).2 := by
  have valid := holds.ready.valid
  have hserved := @served_read Unit Unit session valid holds.ready.live room
  rw [read_of_buffered hbuffered] at hserved ⊢
  refine .bytes (holds.pending.symm.trans hserved.conserved.symm) ?_ ?_
  · exact {
      ready := {
        valid := hserved.valid
        size_le := by
          change (session.feed.buffer.discard _).size.toNat ≤
            (session.feed.buffer.discard _).limit.toNat
          rw [Buffer.limit_discard]
          exact Nat.le_trans (Buffer.size_discard_le _ _) holds.ready.size_le
        live := holds.ready.live }
      calm := holds.calm
      readSize := holds.readSize
      limit := (Buffer.limit_discard _ _).trans holds.limit
      code := holds.code
      pending := rfl }
  · exact Nat.add_lt_add_right (size_takeBuffered_lt valid hbuffered hroom) _

/-- Without such bytes the source is read. -/
theorem Holds.hands_empty (holds : session.Holds limit code data)
    (hempty : session.feed.buffer.size = 0) {room : Nat} (hroom : 0 < room) :
    session.Hands limit code data (session.read room).1 (session.read room).2 := by
  have valid := holds.ready.valid
  have live := holds.ready.live
  have hserved := @served_read Unit Unit session valid live room
  have hdata := holds.pending.symm.trans hserved.conserved.symm
  rw [read_of_empty hempty] at hserved hdata ⊢
  rcases session.feed.source.read_of_calm holds.calm room with hok | ⟨hunread, hends⟩
  · have hdelivery : (session.feed.source.read room).1 =
        { bytes := (session.feed.source.read room).1.bytes } := by
      rw [← hok]
    have hworn := live.endurance_read_lt hroom (congrArg Code.failed hok)
    rw [hdelivery]
    refine .bytes hdata ?_ (Nat.add_lt_add_left hworn _)
    exact {
      ready := ⟨hserved.valid, holds.ready.size_le, hserved.live⟩
      calm := (Source.injections_read _ _).trans holds.calm
      readSize := holds.readSize
      limit := holds.limit
      code := (congrArg AtEnd.code (Source.atEnd_read _ _)).trans holds.code
      pending := rfl }
  · have hwindow : session.feed.buffer.window = [] := by
      apply List.eq_nil_of_length_eq_zero
      rw [Buffer.length_window, hempty]
      rfl
    rw [hends, holds.code]
    refine .ended ?_
    rw [← holds.pending, Session.pending, Feed.pending, hwindow, hunread]
    rfl

theorem Holds.hands (holds : session.Holds limit code data) {room : Nat}
    (hroom : 0 < room) :
    session.Hands limit code data (session.read room).1 (session.read room).2 := by
  by_cases hempty : session.feed.buffer.size = 0
  · exact holds.hands_empty hempty hroom
  · exact holds.hands_buffered hempty hroom

section Histories

variable [Allocator]

/-- The reply to a raw read tells what it has handed out. -/
theorem Holds.perform_takes (holds : session.Holds limit code data) {command : Command ν ε}
    (takes : command.Takes) :
    ∃ delivery, (session.perform command).1.delivery? = some delivery ∧
      session.Hands limit code data delivery (session.perform command).2 := by
  cases takes with
  | read hroom => exact ⟨_, rfl, holds.hands hroom⟩
  | @readBytes sizes hroom =>
      have hands := holds.hands hroom
      refine ⟨_, ?_, hands⟩
      rw [Session.perform]
      generalize session.read (sizes.foldr (· + ·) 0) = handed at hands
      obtain ⟨delivery, next⟩ := handed
      change Reply.delivery? (if delivery.code.failed then .readFailed delivery.code
        else .bytes delivery.bytes) = some delivery
      cases hands with
      | bytes => rfl
      | ended =>
          have hfailed : code.failed = true := holds.code ▸ holds.ready.live.ends
          rw [if_pos hfailed]
          rfl

/-- Raw reads, whatever areas they are given, hand out all that is pending, in order, and then the code
of the end. -/
theorem Holds.drains (holds : session.Holds limit code data) {calls : Nat → Command ν ε}
    (takes : ∀ n, (calls n).Takes) :
    ∃ pieces : List (List UInt8),
      (session.replies ((List.range (pieces.length + 1)).map calls)).map Reply.delivery? =
          pieces.map (fun bytes => some { bytes := bytes }) ++ [some { code := code }] ∧
        pieces.flatten = data := by
  induction heffort : session.effort using Nat.strongRecOn generalizing session data calls with
  | ind effort ih =>
      obtain ⟨delivery, hdelivery, hands⟩ := holds.perform_takes (takes 0)
      cases hands with
      | ended hdata =>
          refine ⟨[], ?_, hdata.symm⟩
          change [(session.perform (calls 0)).1.delivery?] = _
          rw [hdelivery]
          rfl
      | @bytes bytes left next hdata holds' hless =>
          obtain ⟨pieces, hpieces, hflatten⟩ := ih _ (heffort ▸ hless) holds'
            (fun n => takes (n + 1)) rfl
          refine ⟨bytes :: pieces, ?_, ?_⟩
          · rw [List.length_cons, List.range_succ_eq_map, List.map_cons, List.map_map, replies,
              List.map_cons, hdelivery]
            exact congrArg _ hpieces
          · rw [List.flatten_cons, hflatten, hdata]

/-! ## Parses -/

/-- One parse takes one frame. -/
theorem Holds.parse (stable : parser.Stable) {frame : Frame ν ε} (suits : frame.Suits parser limit)
    (holds : session.Holds limit code (frame.bytes ++ rest))
    (hmemory : (session.perform (.parse frame.mode parser)).1.answer? ≠
      some (.refused .outOfMemory)) :
    (session.perform (.parse frame.mode parser)).1.answer? =
        some (frame.mode.present (.ok (.value frame.value))) ∧
      (session.perform (.parse frame.mode parser)).2.Holds limit code rest := by
  rw [perform_parse] at hmemory ⊢
  have hmemory' : (session.feed.parse parser session.readSize).answer ≠
      some (.error .outOfMemory) := by
    intro hlacks
    apply hmemory
    rw [Reply.answer?, hlacks]
    rfl
  rw [← holds.limit] at suits
  obtain ⟨hanswer, hleft⟩ := Feed.parse_frame stable holds.ready holds.calm holds.readSize suits
    holds.pending hmemory'
  constructor
  · rw [Reply.answer?, hanswer]
    rfl
  · exact {
      ready := (Feed.course_of_parse holds.readSize hanswer).ready holds.readSize holds.ready
      calm := (Feed.injections_parse hanswer).trans holds.calm
      readSize := holds.readSize
      limit := (Feed.limit_parse hanswer).trans holds.limit
      code := (congrArg AtEnd.code (Feed.atEnd_parse hanswer)).trans holds.code
      pending := hleft }

/-- A parse for each frame. -/
def parses (parser : Parser ν ε) (frames : List (Frame ν ε)) : List (Command ν ε) :=
  frames.map fun frame => .parse frame.mode parser

/-- As many parses as there are frames take them all, in order, and nothing behind them. -/
theorem Holds.parses (stable : parser.Stable) {frames : List (Frame ν ε)}
    (suits : ∀ frame ∈ frames, frame.Suits parser limit)
    (holds : session.Holds limit code (frames.flatMap Frame.bytes ++ rest))
    (hmemory : ∀ reply ∈ session.replies (parses parser frames),
      reply.answer? ≠ some (.refused .outOfMemory)) :
    (session.replies (parses parser frames)).map Reply.answer? =
        frames.map (fun frame => some (frame.mode.present (.ok (.value frame.value)))) ∧
      (session.run (parses parser frames)).Holds limit code rest := by
  induction frames generalizing session with
  | nil => exact ⟨rfl, holds⟩
  | cons frame frames ih =>
      rw [List.flatMap_cons, List.append_assoc] at holds
      obtain ⟨hanswer, holds'⟩ := holds.parse stable (suits frame List.mem_cons_self)
        (hmemory _ List.mem_cons_self)
      obtain ⟨hanswers, holds''⟩ := ih
        (fun other hmem => suits other (List.mem_cons_of_mem _ hmem)) holds'
        (fun reply hmem => hmemory reply (List.mem_cons_of_mem _ hmem))
      refine ⟨?_, holds''⟩
      change _ :: _ = _ :: _
      rw [hanswer]
      exact congrArg _ hanswers

/-! ## Lines and a body -/

/-- A session that is new, apart from its settings. -/
def tuned (source : Source) (readSize limit : UInt64) : Session :=
  (ofSource source).run ([.setReadSize readSize, .setLimit limit] : List (Command Unit Unit))

theorem tuned_eq (source : Source) {readSize : UInt64} (hread : readSize ≠ 0) (limit : UInt64) :
    tuned source readSize limit =
      { feed := { source, buffer := .ofLimit limit }, readSize } := by
  have hset : (ofSource source).setReadSize readSize =
      .ok { feed := { source, buffer := .unlimited }, readSize } := if_neg hread
  have hlimit : ¬ limit < Buffer.unlimited.size := UInt64.not_lt_zero
  rw [tuned, run_cons, run_cons, run_nil, perform,
    configure_eq (InPlace.attempts_setReadSize readSize), hset, perform,
    configure_eq (InPlace.attempts_setLimit limit), setLimit, Buffer.setLimit, if_neg hlimit]
  rfl

theorem holds_tuned {source : Source} (live : source.Live) (hcalm : source.injections = [])
    {readSize : UInt64} (hread : readSize ≠ 0) (limit : UInt64) :
    (tuned source readSize limit).Holds limit source.atEnd.code source.unread := by
  rw [tuned_eq source hread]
  exact {
    ready := ⟨Buffer.valid_ofLimit limit, Nat.zero_le _, live⟩
    calm := hcalm
    readSize := hread
    limit := rfl
    code := rfl
    pending := by rw [pending, Feed.pending, Buffer.window_ofLimit, List.nil_append] }

/-- A line with its end, as a parse of lines takes it. -/
def lineFrame (mode : AnswerMode BadByte) (line : List UInt8) : Frame (List UInt8) BadByte where
  mode
  bytes := line ++ Parser.endOfLine
  value := line

omit [Allocator] in
theorem suits_lineFrame {line : List UInt8} (unbroken : Parser.Unbroken line)
    (hfits : line.length + 2 ≤ limit.toNat) (mode : AnswerMode BadByte) :
    (lineFrame mode line).Suits Parser.line limit where
  done := unbroken.line
  fits := by
    rw [lineFrame, List.length_append]
    exact hfits

/-- Input that begins with lines, and goes on with a body of any bytes: however it comes in, as many
parses as there are lines give these lines, in order and in whatever mode.  Raw reads after them, into
whatever areas, give the body, in order, and nothing fails until there is nothing left of it; the next
read then brings the code of the end, and no bytes. -/
theorem switching_loses_nothing {source : Source} (live : source.Live)
    (hcalm : source.injections = []) {readSize limit : UInt64} (hread : readSize ≠ 0)
    {lines : List (AnswerMode BadByte × List UInt8)} {body : List UInt8}
    (hunread : source.unread = lines.flatMap (fun line => line.2 ++ Parser.endOfLine) ++ body)
    (unbroken : ∀ line ∈ lines, Parser.Unbroken line.2)
    (hlimit : ∀ line ∈ lines, line.2.length + 2 ≤ limit.toNat) :
    let session := tuned source readSize limit
    let parses := lines.map fun line => .parse line.1 Parser.line
    (∀ reply ∈ session.replies parses, reply.answer? ≠ some (.refused .outOfMemory)) →
    (session.replies parses).map Reply.answer? =
        lines.map (fun line => some (line.1.present (.ok (.value line.2)))) ∧
      ∀ calls : Nat → Command (List UInt8) BadByte, (∀ n, (calls n).Takes) →
        ∃ pieces : List (List UInt8),
          ((session.run parses).replies ((List.range (pieces.length + 1)).map calls)).map
              Reply.delivery? =
            pieces.map (fun bytes => some { bytes := bytes }) ++ [some { code := source.atEnd.code }] ∧
          pieces.flatten = body := by
  intro session parses hmemory
  have hframes : parses =
      Session.parses Parser.line (lines.map fun line => lineFrame line.1 line.2) := by
    rw [Session.parses, List.map_map]
    rfl
  have hbytes : (lines.map fun line => lineFrame line.1 line.2).flatMap Frame.bytes =
      lines.flatMap fun line => line.2 ++ Parser.endOfLine := by
    rw [List.flatMap_map]
    rfl
  have suits : ∀ frame ∈ lines.map fun line => lineFrame line.1 line.2,
      frame.Suits Parser.line limit := by
    intro frame hmem
    obtain ⟨line, hline, rfl⟩ := List.mem_map.mp hmem
    exact suits_lineFrame (unbroken line hline) (hlimit line hline) line.1
  have holds : session.Holds limit source.atEnd.code source.unread :=
    holds_tuned live hcalm hread limit
  rw [hunread, ← hbytes] at holds
  rw [hframes] at hmemory ⊢
  obtain ⟨hanswers, holds'⟩ := holds.parses Parser.stable_line suits hmemory
  refine ⟨?_, fun calls takes => holds'.drains takes⟩
  rw [hanswers, List.map_map]
  rfl

end Histories

/-- Three lines, of which the first ends with a carriage return and the last begins with a line feed, and
a body that begins with an end of line; some of their ends are cut in two. -/
def linesAndBody : Source where
  chunks := [[0x61, 0x0d], [], [0x0d], [0x0a, 0x0d, 0x0a, 0x0a, 0x62, 0x0d], [0x0a, 0x0d, 0x0a, 0x78],
    [0x79]]
  cap := some 3

def threeLines : List (AnswerMode BadByte × List UInt8) :=
  [(.result, [0x61, 0x0d]), (.value, []), (.reporting .empty, [0x0a, 0x62])]

/-- Reads into one byte and into three, in turn, the latter in two areas. -/
def smallReads (n : Nat) : Command (List UInt8) BadByte :=
  if n % 2 = 0 then .read [1] else .readBytes [2, 1]

theorem lines_and_body_lose_nothing :
    let session := tuned linesAndBody 5 4
    let parses := threeLines.map fun line => .parse line.1 Parser.line
    (session.replies parses).map Reply.answer? =
        [some (.result (.value [0x61, 0x0d])), some (.value []),
          some (.report (some [0x0a, 0x62]) .empty)] ∧
      ∃ pieces : List (List UInt8),
        ((session.run parses).replies ((List.range (pieces.length + 1)).map smallReads)).map
            Reply.delivery? =
          pieces.map (fun bytes => some { bytes := bytes }) ++ [some { code := .endOfStream }] ∧
        pieces.flatten = [0x0d, 0x0a, 0x78, 0x79] := by
  intro session parses
  have live : linesAndBody.Live := ⟨fun hcap => Option.some_inj.mp hcap ▸ Nat.zero_lt_succ 2, rfl⟩
  have hmemory : ∀ reply ∈ session.replies parses,
      reply.answer? ≠ some (.refused .outOfMemory) := by
    decide +kernel
  have takes : ∀ n, (smallReads n).Takes := by
    intro n
    rw [smallReads]
    split
    · exact .read Nat.one_pos
    · exact .readBytes (Nat.zero_lt_succ 2)
  obtain ⟨hanswers, hreads⟩ := @switching_loses_nothing _ linesAndBody live rfl 5 4 (by decide)
    threeLines [0x0d, 0x0a, 0x78, 0x79] (by decide) (by decide) (by decide) hmemory
  exact ⟨hanswers, hreads smallReads takes⟩

end Session

end StreamParse
