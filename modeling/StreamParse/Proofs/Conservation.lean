import StreamParse.Parser.Scripted
import StreamParse.Proofs.Course
import StreamParse.Session.Command

/-!
# Conservation

A session is a pipe: what it has handed out, followed by what it still holds and what its source has
not given yet, is the same sequence of bytes at every moment.  A parse hands out the bytes that its
value was read from, a raw read the bytes that it delivers, and everything else hands out nothing,
whether it succeeds, fails or is refused.  The place that the session has reached in its input never
moves back.
-/

namespace StreamParse

variable {ν ε : Type}

namespace AnswerMode

/-- What the caller of a parse is given for what the parse came to. -/
def present (mode : AnswerMode ε) : Except Fault (Result ν ε) → Answer ν ε
  | .error fault => .refused fault
  | .ok found =>
      match mode with
      | .result => .result found
      | .reporting _ => .report found.value? found.failure
      | .value =>
          match found with
          | .value given => .value given
          | .failed failure => .failed failure

end AnswerMode

namespace Answer

def succeeded : Answer ν ε → Bool
  | .result found => found.isValue
  | .report found? _ => found?.isSome
  | .value _ => true
  | _ => false

/-- A value is a value in whichever way it is presented. -/
theorem succeeded_present (mode : AnswerMode ε) (answer : Except Fault (Result ν ε)) :
    (mode.present answer).succeeded = StreamParse.succeeded answer := by
  cases answer with
  | error fault => rfl
  | ok found => cases mode <;> cases found <;> rfl

end Answer

namespace Feed

theorem answer_parseAs [Allocator] (feed : Feed) (mode : AnswerMode ε) (parser : Parser ν ε)
    (readSize : UInt64) :
    (feed.parseAs mode parser readSize).answer =
      (feed.parse parser readSize).answer.map mode.present := by
  cases mode <;>
    (simp only [parseAs, parseReporting, parseValue, Run.map]
     generalize (feed.parse parser readSize).answer = answer
     rcases answer with _ | fault | value | failure <;> rfl)

/-- What a parse presents, hands out and leaves pending. -/
theorem retired_append_pending_parse [Allocator] (feed : Feed) (parser : Parser ν ε)
    (readSize : UInt64) {answer : Except Fault (Result ν ε)} (valid : feed.buffer.Valid)
    (hanswer : (feed.parse parser readSize).answer = some answer) :
    (if StreamParse.succeeded answer then
      Event.usedBytes (feed.parse parser readSize).transcript else []) ++
        (feed.parse parser readSize).feed.pending = feed.pending := by
  by_cases hread : readSize = 0
  · subst hread
    cases hanswer
    rfl
  · exact (course_of_parse hread hanswer).retired_append_pending hread valid

end Feed

namespace Session

/-- The bytes that a reply hands out: those that a value was read from, or those of a raw read. -/
def Reply.retired : Reply ν ε → List UInt8
  | .parsed (some answer) transcript =>
      if answer.succeeded then Event.usedBytes transcript else []
  | .read delivery => delivery.bytes
  | .bytes delivered => delivered
  | _ => []

/-- Only a parse without end has no answer. -/
def Reply.isAnswered : Reply ν ε → Bool
  | .parsed answer _ => answer.isSome
  | _ => true

/-- Whether the reply to a command tells which bytes it hands out.  A read that gives bytes only
where it has not failed keeps silent about those that came with a failure. -/
def Command.isOpen : Command ν ε → Bool
  | .readBytes _ => false
  | _ => true

/-- The place in the input that a session has reached since `start`: the bytes that were taken from
the source, less those that wait in the window. -/
def reached (start session : Session) : Int :=
  (start.feed.source.unread.length - session.feed.source.unread.length : Int) -
    session.feed.buffer.size.toNat

/-- A command that was carried out, by what it hands out and by the session after it. -/
structure Served (session : Session) (reply : Reply ν ε) (next : Session) : Prop where
  valid : next.feed.buffer.Valid
  live : next.feed.source.Live
  conserved : reply.retired ++ next.pending = session.pending
  answered : reply.isAnswered = true

/-! ## One command -/

section Histories

variable [Allocator]

/-- The reply to a parse presents what the parse came to, and the session keeps its feed. -/
theorem perform_parse (session : Session) (mode : AnswerMode ε) (parser : Parser ν ε) :
    session.perform (.parse mode parser) =
      (.parsed ((session.feed.parse parser session.readSize).answer.map mode.present)
          (session.feed.parse parser session.readSize).transcript,
        { session with feed := (session.feed.parse parser session.readSize).feed }) := by
  simp only [perform, parseAs, resume, Feed.answer_parseAs, Feed.transcript_parseAs,
    Feed.feed_parseAs]

theorem served_parse {session : Session} (valid : session.feed.buffer.Valid)
    (live : session.feed.source.Live) (mode : AnswerMode ε) (parser : Parser ν ε) :
    Served session (session.perform (.parse mode parser)).1
      (session.perform (.parse mode parser)).2 := by
  obtain ⟨answer, hanswer⟩ := session.feed.parse_answers parser session.readSize live
  have hconserved :=
    session.feed.retired_append_pending_parse parser session.readSize valid hanswer
  rw [perform_parse, hanswer]
  refine ⟨Feed.valid_parse hanswer valid, Feed.live_parse hanswer live, ?_, rfl⟩
  rw [Option.map_some, Reply.retired, Answer.succeeded_present]
  exact hconserved

omit [Allocator] in
theorem read_of_empty {session : Session} (hempty : session.feed.buffer.size = 0)
    (room : Nat) :
    session.read room =
      ((session.feed.source.read room).1,
        { session with feed :=
          { session.feed with source := (session.feed.source.read room).2 } }) := by
  rw [Session.read, if_pos hempty]

omit [Allocator] in
theorem read_of_buffered {session : Session} (hbuffered : session.feed.buffer.size ≠ 0)
    (room : Nat) :
    session.read room =
      ((takeBuffered session.feed.buffer room).1,
        { session with feed :=
          { session.feed with buffer := (takeBuffered session.feed.buffer room).2 } }) := by
  rw [Session.read, if_neg hbuffered]

omit [Allocator] in
/-- Bytes that were read ahead are handed out first, and the source is asked only when there are
none. -/
theorem served_read {session : Session} (valid : session.feed.buffer.Valid)
    (live : session.feed.source.Live) (room : Nat) :
    Served session (.read (session.read room).1 : Reply ν ε) (session.read room).2 := by
  by_cases hempty : session.feed.buffer.size = 0
  · have hwindow : session.feed.buffer.window = [] := by
      apply List.eq_nil_of_length_eq_zero
      rw [Buffer.length_window, hempty]
      rfl
    rw [read_of_empty hempty]
    refine ⟨valid, live.read room, ?_, rfl⟩
    change (session.feed.source.read room).1.bytes ++ (session.feed.buffer.window ++ _) =
      session.feed.buffer.window ++ session.feed.source.unread
    rw [hwindow, List.nil_append, List.nil_append, Source.read_unread]
  · have hused : (session.feed.buffer.window.take room).length ≤
        session.feed.buffer.size.toNat := by
      rw [← Buffer.length_window]
      exact List.length_take_le' _ _
    rw [read_of_buffered hempty]
    refine ⟨valid.discard _, live, ?_, rfl⟩
    change session.feed.buffer.window.take room ++
      Feed.pending { session.feed with buffer := _ } = session.feed.pending
    have hsplit : session.feed.pending = session.feed.buffer.window.take room ++
        (session.feed.buffer.window.drop room ++ session.feed.source.unread) := by
      rw [← List.append_assoc, List.take_append_drop, Feed.pending]
    have hrest : session.feed.pending.drop (session.feed.buffer.window.take room).length =
        session.feed.buffer.window.drop room ++ session.feed.source.unread := by
      rw [hsplit, List.drop_left]
    rw [takeBuffered, Feed.pending_discard valid hused, hrest]
    exact hsplit.symm

omit [Allocator] in
/-- A setting touches neither the window nor the source. -/
theorem served_configure {session : Session} (valid : session.feed.buffer.Valid)
    (live : session.feed.source.Live) {setting : Mutation Session Unit}
    {attempt : Session → Except Fault Session}
    (attempts : setting.Attempts fun session =>
      (attempt session).map fun session => ((), session))
    (hattempt : ∀ next, attempt session = .ok next → next.feed.buffer.Valid ∧
      next.feed.source = session.feed.source ∧
      next.feed.buffer.window = session.feed.buffer.window) :
    Served session (session.configure setting : Reply ν ε × Session).1
      (session.configure setting : Reply ν ε × Session).2 := by
  rw [configure_eq attempts]
  cases h : attempt session with
  | error fault => exact ⟨valid, live, rfl, rfl⟩
  | ok next =>
      obtain ⟨valid', hsource, hwindow⟩ := hattempt next h
      refine ⟨valid', ?_, ?_, rfl⟩
      · change next.feed.source.Live
        rw [hsource]
        exact live
      · change next.feed.buffer.window ++ next.feed.source.unread = session.pending
        rw [hwindow, hsource]
        rfl

/-- Every command keeps the account straight, apart from a read that hides what it gives. -/
theorem served_perform {session : Session} (valid : session.feed.buffer.Valid)
    (live : session.feed.source.Live) {command : Command ν ε} (hopen : command.isOpen = true) :
    Served session (session.perform command).1 (session.perform command).2 := by
  cases command with
  | parse mode parser => exact served_parse valid live mode parser
  | read sizes => exact served_read valid live (sizes.foldr (· + ·) 0)
  | readBytes sizes => cases hopen
  | setReadSize readSize =>
      apply served_configure valid live (InPlace.attempts_setReadSize readSize)
      intro next hnext
      rw [setReadSize] at hnext
      split at hnext
      · cases hnext
      · cases hnext
        exact ⟨valid, rfl, rfl⟩
  | setLimit limit =>
      apply served_configure valid live (InPlace.attempts_setLimit limit)
      intro next hnext
      rw [setLimit] at hnext
      cases hset : session.feed.buffer.setLimit limit with
      | error fault =>
          rw [hset] at hnext
          cases hnext
      | ok buffer =>
          rw [hset] at hnext
          cases hnext
          refine ⟨valid.setLimit hset, rfl, ?_⟩
          rw [Buffer.setLimit] at hset
          split at hset
          · cases hset
          · cases hset
            rfl
  | settings => exact ⟨valid, live, rfl, rfl⟩

/-! ## A whole session -/

/-- The account of a history is the account of its commands, one after another. -/
theorem served_run {session : Session} (valid : session.feed.buffer.Valid)
    (live : session.feed.source.Live) {commands : List (Command ν ε)}
    (hopen : ∀ command ∈ commands, command.isOpen = true) :
    (session.run commands).feed.buffer.Valid ∧ (session.run commands).feed.source.Live ∧
      (session.replies commands).flatMap Reply.retired ++ (session.run commands).pending =
        session.pending ∧
      ∀ reply ∈ session.replies commands, reply.isAnswered = true := by
  induction commands generalizing session with
  | nil => exact ⟨valid, live, rfl, fun reply hmem => absurd hmem List.not_mem_nil⟩
  | cons command commands ih =>
      have hserved := served_perform valid live (hopen command List.mem_cons_self)
      obtain ⟨valid', live', hrest, hanswered⟩ := ih hserved.valid hserved.live
        (fun command hmem => hopen command (List.mem_cons_of_mem _ hmem))
      refine ⟨valid', live', ?_, ?_⟩
      · rw [replies, run_cons, List.flatMap_cons, List.append_assoc, hrest, hserved.conserved]
      · intro reply hmem
        rw [replies] at hmem
        rcases List.mem_cons.mp hmem with rfl | hlater
        · exact hserved.answered
        · exact hanswered reply hlater

omit [Allocator] in
/-- A session has reached all that is not pending. -/
theorem reached_eq (start session : Session) :
    reached start session = (start.feed.source.unread.length : Int) - session.pending.length := by
  rw [reached, pending, Feed.pending, List.length_append, Buffer.length_window]
  omega

/-- Over a live source, and through every history, the bytes that a session has handed out, those
in its window and those unread are the bytes that it began with; every command is answered; and
the place that the session has reached never moves back. -/
theorem replies_conserve {session : Session} (valid : session.feed.buffer.Valid)
    (live : session.feed.source.Live) (commands : List (Command ν ε))
    (hopen : ∀ command ∈ commands, command.isOpen = true) :
    (session.replies commands).flatMap Reply.retired ++
        ((session.run commands).feed.buffer.window ++
          (session.run commands).feed.source.unread) =
      session.feed.buffer.window ++ session.feed.source.unread ∧
    (∀ reply ∈ session.replies commands, reply.isAnswered = true) ∧
    ∀ before after, commands = before ++ after →
      reached session (session.run before) ≤ reached session (session.run commands) := by
  obtain ⟨_, _, hconserved, hanswered⟩ := served_run valid live hopen
  refine ⟨hconserved, hanswered, ?_⟩
  rintro before after rfl
  obtain ⟨valid', live', _⟩ := served_run valid live
    (fun command hmem => hopen command (List.mem_append_left after hmem))
  obtain ⟨_, _, hlater, _⟩ := served_run valid' live'
    (fun command hmem => hopen command (List.mem_append_right before hmem))
  rw [run_append, reached_eq, reached_eq, ← hlater, List.length_append]
  omega

end Histories

/-- A session with a byte read ahead, over a source whose first two reads fail: one with its bytes,
the other without. -/
def failingReads : Session where
  feed :=
    { source :=
        { chunks := [[0x45, 0x54], [0x20, 0x78]], cap := some 2,
          injections := [{ turn := 1, code := .connectionReset, keepsBytes := true },
            { turn := 2, code := .timedOut }] }
      buffer := { size := 1, capacity := 1, limit := 4, storage := .ofList [0x47] } }
  readSize := 2

/-- Parses that are interrupted, refused and answered, with reads between them. -/
def parsesAndReads : List (Command (List UInt8) BadByte) :=
  [.parse .value Parser.token, .read [0, 1, 1], .parse .result Parser.token,
    .parse (.reporting .empty) Parser.greedy, .setLimit 0, .parse .result Parser.token, .read [2]]

/-- Two reads that fail and a parser that breaks its promise cost no byte. -/
theorem failing_reads_conserve_bytes :
    (failingReads.replies parsesAndReads).flatMap Reply.retired ++
        ((failingReads.run parsesAndReads).feed.buffer.window ++
          (failingReads.run parsesAndReads).feed.source.unread) =
      [0x47, 0x45, 0x54, 0x20, 0x78] ∧
    (∀ reply ∈ failingReads.replies parsesAndReads, reply.isAnswered = true) ∧
    ∀ before after, parsesAndReads = before ++ after →
      reached failingReads (failingReads.run before) ≤
        reached failingReads (failingReads.run parsesAndReads) := by
  have valid : failingReads.feed.buffer.Valid := ⟨by decide, by decide⟩
  have live : failingReads.feed.source.Live :=
    ⟨fun hcap => Option.some_inj.mp hcap ▸ Nat.two_pos, rfl⟩
  have hopen : ∀ command ∈ parsesAndReads, command.isOpen = true := by
    simp [parsesAndReads, Command.isOpen]
  exact replies_conserve valid live parsesAndReads hopen

end Session

end StreamParse
