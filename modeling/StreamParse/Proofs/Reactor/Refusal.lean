import StreamParse.Parser.Scripted
import StreamParse.Proofs.Reactor.Endings
import StreamParse.Proofs.Refusal

/-!
# Requests that are refused

A request whose arguments are at fault is refused, and the refusal is all that comes of it: the
response tells the fault, no parser has seen a window, and the reactor is the one that was asked, with
its buffers, its sources, its sessions and its queue.  So it is with a request for room that memory
does not allow.  Nothing is taken back on the way: each operation works in place, and tests all that it
has to test, memory included, before it changes anything.

Only a parse that has begun meets faults that lie elsewhere.  It has read by then, and what it has
read is in the window.
-/

namespace StreamParse

variable {ν ε : Type}

namespace Session

/-- The fault that a reply tells. -/
def Reply.fault? : Reply ν ε → Option Fault
  | .refused fault => some fault
  | .parsed (some (.refused fault)) _ => some fault
  | _ => none

/-- The reply to a command that was refused before anything was done. -/
def Command.refusal (fault : Fault) : Command ν ε → Reply ν ε
  | .parse _ _ => .parsed (some (.refused fault)) []
  | _ => .refused fault

def Command.parses : Command ν ε → Bool
  | .parse _ _ => true
  | _ => false

/-- The fault that lies in the arguments of a command, the settings among them. -/
def misuse? (session : Session) : Command ν ε → Option Fault
  | .parse _ _ => readSizeMisuse? session.readSize
  | .setReadSize readSize => readSizeMisuse? readSize
  | .setLimit limit => session.feed.buffer.misuse? (.setLimit limit)
  | _ => none

end Session

/-- The fault that a reply tells of the request itself. -/
def Reply.fault? : Reply ν ε → Option Fault
  | .refused fault => some fault
  | .session reply => reply.fault?
  | .started (.error fault) _ => some fault
  | _ => none

namespace Request

/-- The reply to a request that was refused before anything was done: no parser was asked. -/
def refusal (fault : Fault) : Request ν ε → Reply ν ε
  | .parse _ _ _ _ _ => .session (.parsed (some (.refused fault)) [])
  | .session _ command => .session (command.refusal fault)
  | .start _ _ _ _ _ | .startSessionParse _ _ _ => .started (.error fault) []
  | _ => .refused fault

/-- Whether a request begins a parse. -/
def parses : Request ν ε → Bool
  | .parse _ _ _ _ _ | .start _ _ _ _ _ | .startSessionParse _ _ _ => true
  | .session _ command => command.parses
  | _ => false

@[simp]
theorem fault?_refusal (request : Request ν ε) (fault : Fault) :
    (request.refusal fault).fault? = some fault := by
  cases request with
  | session seat command => cases command <;> rfl
  | _ => rfl

end Request

namespace Reactor

/-- The fault that lies in the arguments of a request whose indices all stand for something. -/
def misuse? (reactor : Reactor ν ε) : Request ν ε → Option Fault
  | .buffer index command => do
      let buffer ← reactor.buffers[index]?
      buffer.misuse? command
  | .refill source index count => do
      let _ ← reactor.sources[source]?
      let buffer ← reactor.buffers[index]?
      buffer.roomMisuse? count
  | .parse source index _ _ readSize | .start _ source index _ readSize => do
      let _ ← reactor.sources[source]?
      let _ ← reactor.buffers[index]?
      readSizeMisuse? readSize
  | .session index command => do
      let _ ← reactor.seats[index]?
      (reactor.sessionAt index).misuse? command
  | .startSessionParse _ index _ => do
      let seat ← reactor.seats[index]?
      readSizeMisuse? seat.readSize
  | _ => none

variable [Allocator]

/-- How a request is refused: for its arguments exactly where they are at fault, and without a trace. -/
structure Refuses (reactor : Reactor ν ε) (request : Request ν ε) : Prop where
  /-- A parse may come to outgrow the limit later than its arguments are looked at. -/
  misuse (fault : Fault) : fault.isMisuse = true → (request.parses = true → fault ≠ .overLimit) →
    ((reactor.serve request).reply.fault? = some fault ↔ reactor.misuse? request = some fault)
  traceless (fault : Fault) : (request.parses = true → fault = .zeroReadSize) →
    (reactor.serve request).reply.fault? = some fault →
    reactor.serve request = reactor.reply (request.refusal fault)

variable {reactor : Reactor ν ε} {request : Request ν ε}

/-! ## Ways to be refused -/

theorem refuses_of_faultless (hreply : (reactor.serve request).reply.fault? = none)
    (hmisuse : reactor.misuse? request = none) : reactor.Refuses request where
  misuse fault _ _ := by rw [hreply, hmisuse]
  traceless fault _ hfault := by
    rw [hreply] at hfault
    cases hfault

theorem refuses_of_unknown (hrespond : reactor.respond request = none)
    (hmisuse : reactor.misuse? request = none) : reactor.Refuses request := by
  refine refuses_of_faultless ?_ hmisuse
  rw [serve, hrespond]
  rfl

/-- A request that is an attempt is refused for what the attempt meets. -/
theorem refuses_of_attempt {α : Type} (attempt : Except Fault α)
    (herror : ∀ fault, attempt = .error fault →
      reactor.serve request = reactor.reply (request.refusal fault))
    (hok : ∀ found, attempt = .ok found → (reactor.serve request).reply.fault? = none)
    (hmisuse : ∀ fault, fault.isMisuse = true →
      (attempt = .error fault ↔ reactor.misuse? request = some fault)) :
    reactor.Refuses request := by
  have hfault : ∀ fault,
      (reactor.serve request).reply.fault? = some fault ↔ attempt = .error fault := by
    intro fault
    cases hattempt : attempt with
    | error other =>
        rw [herror other hattempt, reply, Request.fault?_refusal, Option.some.injEq,
          Except.error.injEq]
    | ok found =>
        rw [hok found hattempt]
        exact iff_of_false (by rintro ⟨⟩) (by rintro ⟨⟩)
  exact {
    misuse := fun fault hkind _ => (hfault fault).trans (hmisuse fault hkind)
    traceless := fun fault _ hmet => herror fault ((hfault fault).mp hmet) }

theorem refuses_of_zeroReadSize
    (hserve : reactor.serve request = reactor.reply (request.refusal .zeroReadSize))
    (hmisuse : reactor.misuse? request = some .zeroReadSize) : reactor.Refuses request where
  misuse fault _ _ := by rw [hserve, reply, Request.fault?_refusal, hmisuse]
  traceless fault _ hfault := by
    rw [hserve, reply, Request.fault?_refusal] at hfault
    rw [← Option.some.inj hfault, hserve]

/-- A parse that has begun meets no fault that lies in its arguments. -/
theorem refuses_of_begun (hparses : request.parses = true)
    (hmisuse : reactor.misuse? request = none)
    (hfault : ∀ fault, (reactor.serve request).reply.fault? = some fault →
      fault.isMisuse = true → fault = .overLimit) : reactor.Refuses request where
  misuse fault hkind hlimit := by
    rw [hmisuse]
    exact iff_of_false (fun hmet => hlimit hparses (hfault fault hmet hkind)) nofun
  traceless fault hzero hmet := by
    have hlimit := hfault fault hmet (by rw [hzero hparses]; rfl)
    rw [hzero hparses] at hlimit
    cases hlimit

/-! ## Parses -/

theorem parse_misuse {feed : Feed} {parser : Parser ν ε} {readSize : UInt64} {fault : Fault}
    (hread : readSize ≠ 0)
    (hanswer : (feed.parse parser readSize).answer = some (.error fault))
    (hmisuse : fault.isMisuse = true) : fault = .overLimit :=
  (Feed.course_of_parse hread hanswer).passage.fault hread hmisuse

omit [Allocator] in
/-- The reply that presents a parse tells the fault that the parse has met. -/
theorem fault?_parsed {mode : AnswerMode ε} {answer? : Option (Except Fault (Result ν ε))}
    {transcript : List (Event ν ε)} {fault : Fault}
    (hfault : Session.Reply.fault? (.parsed (answer?.map mode.present) transcript) = some fault) :
    answer? = some (.error fault) := by
  rcases answer? with _ | other | found
  · cases hfault
  · cases hfault
    rfl
  · exfalso
    revert hfault
    cases mode <;> cases found <;> exact nofun

/-- The first look of an operation meets no fault that lies in its arguments. -/
theorem begin_misuse {operation : Operation ν ε} {feed : Feed} {fault : Fault}
    (hread : operation.readSize ≠ 0)
    (hanswer : (operation.begin feed).outcome.1 = .error fault)
    (hmisuse : fault.isMisuse = true) : fault = .overLimit := by
  rcases hturn : feed.buffer.turn operation.readSize (operation.parser feed.buffer.window) with
    ⟨⟨other | result⟩ | area, buffer⟩
  · simp only [Operation.begin, if_neg hread, Operation.drive_of_ended hturn] at hanswer
    cases hanswer
    exact (Feed.Ends.of_fault hread (.look hturn)).2.2 hmisuse
  · simp only [Operation.begin, if_neg hread, Operation.drive_of_ended hturn] at hanswer
    cases hanswer
  · simp only [Operation.begin, if_neg hread, Operation.drive_of_reads hturn] at hanswer
    cases hanswer

/-- A parse that is started at a place. -/
theorem refuses_of_start {id : Nat} {place : Place} {parser : Parser ν ε} {readSize : UInt64}
    (hserve : reactor.serve request = reactor.respondStart id place parser readSize)
    (hparses : request.parses = true)
    (hrefusal : request.refusal .zeroReadSize = .started (.error .zeroReadSize) [])
    (hmisuse : reactor.misuse? request = readSizeMisuse? readSize) : reactor.Refuses request := by
  by_cases hread : readSize = 0
  · subst hread
    refine refuses_of_zeroReadSize ?_ hmisuse
    rw [hserve, hrefusal]
    rfl
  · rw [readSizeMisuse?_of_ne hread] at hmisuse
    refine refuses_of_begun hparses hmisuse fun fault hfault hkind => ?_
    rw [hserve, respondStart_eq] at hfault
    refine @begin_misuse _ _ _ { id, place, parser, readSize } (reactor.feedAt place) fault hread ?_
      hkind
    generalize Operation.begin _ _ = stint at hfault ⊢
    obtain ⟨⟨answer, events⟩, feed, remnant⟩ := stint
    cases answer with
    | error other => exact congrArg Except.error (Option.some.inj hfault)
    | ok _ => cases hfault

/-! ## Every request -/

omit [Allocator] in
theorem feedAt_listed {source index : Nat} {s : Source} {b : Buffer}
    (hsource : reactor.sources[source]? = some s) (hbuffer : reactor.buffers[index]? = some b) :
    reactor.feedAt (.listed source index) = { source := s, buffer := b } := by
  simp [feedAt, List.getD_eq_getElem?_getD, hsource, hbuffer]

theorem refuses_buffer (reactor : Reactor ν ε) (index : Nat) (command : Buffer.Command) :
    reactor.Refuses (.buffer index command) := by
  cases hbuffer : reactor.buffers[index]? with
  | none =>
      exact refuses_of_unknown (by rw [respond_buffer, hbuffer]; rfl)
        (by rw [misuse?, hbuffer]; rfl)
  | some b =>
      refine refuses_of_attempt (b.perform command) ?_ ?_ fun fault hkind => ?_
      · intro fault hperform
        rw [serve, respond_buffer, hbuffer]
        simp only [Option.bind_eq_bind, Option.bind_some, hperform]
        rfl
      · intro found hperform
        rw [serve, respond_buffer, hbuffer]
        simp only [Option.bind_eq_bind, Option.bind_some, hperform]
        cases found.1 <;> rfl
      · rw [Buffer.perform_misuse_iff hkind, misuse?, hbuffer]
        rfl

/-- A look alone meets only the fault of an overuse, which is none of its arguments. -/
theorem refuses_look (reactor : Reactor ν ε) (index : Nat) (parser : Parser ν ε)
    (readSize : UInt64) : reactor.Refuses (.look index parser readSize) := by
  cases hbuffer : reactor.buffers[index]? with
  | none => exact refuses_of_unknown (by rw [respond_look, hbuffer]; rfl) rfl
  | some b =>
      refine refuses_of_attempt (b.look parser readSize) ?_ ?_ fun fault hkind => ?_
      · intro fault hlook
        rw [serve, respond_look, hbuffer]
        simp only [Option.bind_eq_bind, Option.bind_some, hlook]
        rfl
      · intro found hlook
        rw [serve, respond_look, hbuffer]
        simp only [Option.bind_eq_bind, Option.bind_some, hlook]
        rfl
      · refine iff_of_false (fun hlook => ?_) (by rintro ⟨⟩)
        rw [Buffer.look] at hlook
        cases houtcome : parser b.window with
        | done value used =>
            by_cases hused : b.size.toNat < used
            · rw [houtcome, Buffer.judge_overuse hused] at hlook
              cases hlook
              cases hkind
            · simp [houtcome, Buffer.judge, hused] at hlook
        | reject error => simp [houtcome] at hlook
        | more hint =>
            simp only [houtcome, Buffer.judge] at hlook
            split at hlook <;> cases hlook

theorem refuses_refill (reactor : Reactor ν ε) (source index : Nat) (count : UInt64) :
    reactor.Refuses (.refill source index count) := by
  cases hsource : reactor.sources[source]? with
  | none =>
      exact refuses_of_unknown (by rw [respond_refill, hsource]; rfl)
        (by rw [misuse?, hsource]; rfl)
  | some s =>
    cases hbuffer : reactor.buffers[index]? with
    | none =>
        exact refuses_of_unknown (by rw [respond_refill, hsource, hbuffer]; rfl)
          (by rw [misuse?, hsource, hbuffer]; rfl)
    | some b =>
        refine refuses_of_attempt (Feed.refill { source := s, buffer := b } count) ?_ ?_
          fun fault hkind => ?_
        · intro fault hrefill
          rw [serve, respond_refill, hsource, hbuffer]
          simp only [Option.bind_eq_bind, Option.bind_some, hrefill]
          rfl
        · intro found hrefill
          rw [serve, respond_refill, hsource, hbuffer]
          simp only [Option.bind_eq_bind, Option.bind_some, hrefill]
          rfl
        · have hmisuse : reactor.misuse? (.refill source index count : Request ν ε) =
              b.roomMisuse? count := by
            rw [misuse?, hsource, hbuffer]
            rfl
          rw [hmisuse, ← Buffer.reserve_misuse_iff hkind, Feed.refill]
          cases hreserve : b.reserve count with
          | error other => simp [bind, Except.bind]
          | ok found => simp [bind, Except.bind, pure, Except.pure]

theorem refuses_parse (reactor : Reactor ν ε) (source index : Nat) (mode : AnswerMode ε)
    (parser : Parser ν ε) (readSize : UInt64) :
    reactor.Refuses (.parse source index mode parser readSize) := by
  cases hsource : reactor.sources[source]? with
  | none =>
      exact refuses_of_unknown (by rw [respond, hsource]; rfl) (by rw [misuse?, hsource]; rfl)
  | some s =>
    cases hbuffer : reactor.buffers[index]? with
    | none =>
        exact refuses_of_unknown (by rw [respond, hsource, hbuffer]; rfl)
          (by rw [misuse?, hsource, hbuffer]; rfl)
    | some b =>
        have hmisuse : reactor.misuse? (.parse source index mode parser readSize) =
            readSizeMisuse? readSize := by
          rw [misuse?, hsource, hbuffer]
          rfl
        have hserve : reactor.serve (.parse source index mode parser readSize) =
            { reply := .session (.parsed
                ((Feed.parse { source := s, buffer := b } parser readSize).answer.map mode.present)
                (Feed.parse { source := s, buffer := b } parser readSize).transcript)
              reactor := reactor.putFeed (.listed source index)
                (Feed.parse { source := s, buffer := b } parser readSize).feed } := by
          rw [serve_parse ⟨(List.getElem?_eq_some_iff.mp hsource).1,
            (List.getElem?_eq_some_iff.mp hbuffer).1⟩, feedAt_listed hsource hbuffer]
        by_cases hread : readSize = 0
        · subst hread
          refine refuses_of_zeroReadSize ?_ hmisuse
          rw [hserve, Feed.parse_zero, ← feedAt_listed hsource hbuffer, putFeed_feedAt]
          rfl
        · rw [readSizeMisuse?_of_ne hread] at hmisuse
          refine refuses_of_begun rfl hmisuse fun fault hfault hkind => ?_
          rw [hserve] at hfault
          exact parse_misuse hread (fault?_parsed hfault) hkind

omit [Allocator] in
/-- To put back the session that was found changes nothing. -/
theorem putSession_sessionAt (reactor : Reactor ν ε) (index : Nat) :
    reactor.putSession index (reactor.sessionAt index) = reactor := by
  have hseats : reactor.seats.set index (reactor.seatAt index) = reactor.seats :=
    set_getD_self reactor.seats index _
  simp only [putSession, sessionAt, putFeed_feedAt, setSeat, hseats]

omit [Allocator] in
theorem setReadSize_misuse_iff {session : Session} {readSize : UInt64} {fault : Fault} :
    session.setReadSize readSize = .error fault ↔ readSizeMisuse? readSize = some fault := by
  rw [Session.setReadSize, readSizeMisuse?]
  by_cases hread : readSize = 0
  · rw [if_pos hread, if_pos hread, Except.error.injEq, Option.some.injEq]
  · rw [if_neg hread, if_neg hread]
    exact iff_of_false (by rintro ⟨⟩) (by rintro ⟨⟩)

theorem session_setLimit_misuse_iff {session : Session} {limit : UInt64} {fault : Fault} :
    session.setLimit limit = .error fault ↔
      session.feed.buffer.misuse? (.setLimit limit) = some fault := by
  rw [← Buffer.setLimit_misuse_iff, Session.setLimit, Buffer.perform]
  cases session.feed.buffer.setLimit limit <;> simp [Except.map]

omit [Allocator] in
theorem misuse?_session {index : Nat} (hindex : index < reactor.seats.length)
    (command : Session.Command ν ε) :
    reactor.misuse? (.session index command) = (reactor.sessionAt index).misuse? command := by
  rw [misuse?, List.getElem?_eq_getElem hindex]
  rfl

/-- A setting is an attempt, and a refused one puts back the session that was found. -/
theorem refuses_of_setting {index : Nat} {command : Session.Command ν ε}
    {setting : Mutation Session Unit} {attempt : Session → Except Fault Session}
    (hindex : index < reactor.seats.length) (hparses : command.parses = false)
    (hperform : (reactor.sessionAt index).perform command =
      (reactor.sessionAt index).configure setting)
    (attempts : setting.Attempts fun session => (attempt session).map fun session => ((), session))
    (hmisuse : ∀ {fault}, attempt (reactor.sessionAt index) = .error fault ↔
      (reactor.sessionAt index).misuse? command = some fault) :
    reactor.Refuses (.session index command) := by
  refine refuses_of_attempt (attempt (reactor.sessionAt index)) ?_ ?_ fun fault _ => ?_
  · intro fault hfault
    rw [serve_session hindex, hperform, Session.configure_eq attempts, hfault,
      putSession_sessionAt]
    cases command <;> first | rfl | cases hparses
  · intro next hnext
    rw [serve_session hindex, hperform, Session.configure_eq attempts, hnext]
    rfl
  · rw [misuse?_session hindex]
    exact hmisuse

theorem refuses_sessionParse {index : Nat} (hindex : index < reactor.seats.length)
    (mode : AnswerMode ε) (parser : Parser ν ε) :
    reactor.Refuses (.session index (.parse mode parser)) := by
  have hserve := serve_session hindex (.parse mode parser)
  have hmisuse := misuse?_session hindex (.parse mode parser)
  rw [Session.perform_parse] at hserve
  by_cases hread : (reactor.sessionAt index).readSize = 0
  · refine refuses_of_zeroReadSize ?_ (hmisuse.trans (if_pos hread))
    rw [hserve, hread, Feed.parse_zero, ← hread]
    exact congrArg (fun next => Response.mk _ [] none next) (putSession_sessionAt reactor index)
  · refine refuses_of_begun rfl (hmisuse.trans (if_neg hread)) fun fault hfault hkind => ?_
    rw [hserve] at hfault
    exact parse_misuse hread (fault?_parsed hfault) hkind

theorem refuses_session (reactor : Reactor ν ε) (index : Nat) (command : Session.Command ν ε) :
    reactor.Refuses (.session index command) := by
  cases hseat : reactor.seats[index]? with
  | none => exact refuses_of_unknown (by rw [respond, hseat]; rfl) (by rw [misuse?, hseat]; rfl)
  | some seat =>
      have hindex := (List.getElem?_eq_some_iff.mp hseat).1
      have hserve := serve_session hindex command
      have hmisuse := misuse?_session hindex command
      cases command with
      | parse mode parser => exact refuses_sessionParse hindex mode parser
      | setReadSize readSize =>
          exact refuses_of_setting hindex rfl rfl (Session.InPlace.attempts_setReadSize readSize)
            setReadSize_misuse_iff
      | setLimit limit =>
          exact refuses_of_setting hindex rfl rfl (Session.InPlace.attempts_setLimit limit)
            session_setLimit_misuse_iff
      | read sizes => exact refuses_of_faultless (by rw [hserve]; rfl) hmisuse
      | readBytes sizes =>
          refine refuses_of_faultless ?_ hmisuse
          rw [hserve]
          simp only [Session.perform]
          split <;> rfl
      | settings => exact refuses_of_faultless (by rw [hserve]; rfl) hmisuse

omit [Allocator] in
theorem fault?_respondCancel (reactor : Reactor ν ε) (source? : Option SourceId) :
    (reactor.respondCancel source?).reply.fault? = none := by
  cases source? <;> rfl

/-- A request that neither looks at its arguments nor asks a parser is never refused. -/
theorem fault?_of_plain {request : Request ν ε}
    (hplain : match request with
      | .buffer _ _ | .look _ _ _ | .refill _ _ _ | .parse _ _ _ _ _ | .start _ _ _ _ _
      | .session _ _ | .startSessionParse _ _ _ => False
      | _ => True) :
    (reactor.serve request).reply.fault? = none := by
  cases request with
  | addBuffer | abandon => rfl
  | run count? => cases count? <;> rfl
  | window index | moveBuffer index | nextRead index =>
      rw [serve, respond]
      cases reactor.buffers[index]? <;> rfl
  | assignBuffer index target =>
      rw [serve, respond]
      cases reactor.buffers[index]? <;> cases reactor.buffers[target]? <;> rfl
  | startSessionRead _ index | moveSeat index =>
      rw [serve, respond]
      cases reactor.seats[index]? <;> rfl
  | assignSeat index target =>
      rw [serve, respond]
      cases reactor.seats[index]? <;> cases reactor.seats[target]? <;> rfl
  | cancelSource source =>
      rw [serve, respond]
      cases reactor.sources[source]? with
      | none => rfl
      | some _ => exact fault?_respondCancel reactor (some (.listed source))
  | cancelSeat index =>
      rw [serve, respond]
      cases reactor.seats[index]? with
      | none => rfl
      | some _ => exact fault?_respondCancel reactor (reactor.sourceId? (.seat index))
  | _ => exact hplain.elim

/-- Every request is refused for its arguments exactly where they are at fault, and without a
trace. -/
theorem refuses (reactor : Reactor ν ε) (request : Request ν ε) : reactor.Refuses request := by
  cases request with
  | buffer index command => exact refuses_buffer reactor index command
  | refill source index count => exact refuses_refill reactor source index count
  | parse source index mode parser readSize =>
      exact refuses_parse reactor source index mode parser readSize
  | session index command => exact refuses_session reactor index command
  | start id source index parser readSize =>
      cases hsource : reactor.sources[source]? with
      | none =>
          exact refuses_of_unknown (by rw [respond, hsource]; rfl) (by rw [misuse?, hsource]; rfl)
      | some _ =>
        cases hbuffer : reactor.buffers[index]? with
        | none =>
            exact refuses_of_unknown (by rw [respond, hsource, hbuffer]; rfl)
              (by rw [misuse?, hsource, hbuffer]; rfl)
        | some _ =>
            exact refuses_of_start (by rw [serve, respond, hsource, hbuffer]; rfl) rfl rfl
              (by rw [misuse?, hsource, hbuffer]; rfl)
  | startSessionParse id index parser =>
      cases hseat : reactor.seats[index]? with
      | none => exact refuses_of_unknown (by rw [respond, hseat]; rfl) (by rw [misuse?, hseat]; rfl)
      | some seat =>
          exact refuses_of_start (by rw [serve, respond, hseat]; rfl) rfl rfl
            (by rw [misuse?, hseat]; rfl)
  | look index parser readSize => exact refuses_look reactor index parser readSize
  | _ => exact refuses_of_faultless (fault?_of_plain trivial) rfl

end Reactor

/-! ## Parses that have begun -/

/-- The events of a parse that goes on. -/
def Remnant.transcript : Remnant ν ε → List (Event ν ε)
  | queued (.finish _ transcript _) => transcript
  | queued (.arrive (.parse operation) _) | held (.parse operation) => operation.transcript
  | queued (.arrive (.read _) _) | held (.read _) => []

/-- What a reactor still has to do. -/
def Reactor.remnants (reactor : Reactor ν ε) : List (Remnant ν ε) :=
  reactor.queue.map .queued ++ reactor.held.map fun entry => .held entry.2

/-- A parse that waits for a read has asked for more at each look. -/
theorem Operation.waiting_not_overused [Allocator] {operation : Operation ν ε}
    {first mid : Feed} {past : List (Event ν ε)} {area : Area} {buffer : Buffer}
    (hread : operation.readSize ≠ 0)
    (hreaches : Feed.Reaches operation.parser operation.readSize first past mid)
    (hturn : mid.buffer.turn operation.readSize (operation.parser mid.buffer.window) =
      (.reads area, buffer)) : ¬ Event.Overused (operation.waiting past mid).transcript := by
  obtain ⟨hint, hmore, -⟩ := Buffer.starves_of_reads hread hturn
  rw [Operation.waiting, Event.overused_append, hmore]
  refine not_or.mpr ⟨hreaches.not_overused hread, ?_⟩
  rintro ⟨event, hmem, hover⟩
  rw [List.mem_singleton.mp hmem] at hover
  cases hover

/-- Of a parse that goes on no look was an overuse. -/
theorem Operation.Stage.not_overused [Allocator] {operation : Operation ν ε} {first feed : Feed}
    {remnant : Remnant ν ε} {news : News ν ε} (hread : operation.readSize ≠ 0)
    (stage : operation.Stage first feed (some remnant) news) :
    ¬ Event.Overused remnant.transcript := by
  cases stage with
  | settled hturn =>
      have hends := Feed.Ends.look hturn
      exact fun hover => absurd ((hends.overuse_iff hread).mpr hover) nofun
  | arriving hreaches hturn _ => exact waiting_not_overused hread hreaches hturn
  | held hreaches hturn _ => exact waiting_not_overused hread hreaches hturn
  | cancelled hreaches hturn _ => exact waiting_not_overused hread hreaches hturn

/-- So an overuse of a started parse is told at once. -/
theorem Reactor.Undertakes.not_overused [Allocator] {reactor : Reactor ν ε}
    {operation : Operation ν ε} {start : Request ν ε} {during : List (Request ν ε)}
    (undertakes : reactor.Undertakes operation start during) (hread : operation.readSize ≠ 0)
    {remnant : Remnant ν ε} (hmem : remnant ∈ (reactor.after (start :: during)).remnants)
    (hid : remnant.id = operation.id) : ¬ Event.Overused remnant.transcript := by
  have hosts' := (hosts_abandon reactor operation.place).mpr undertakes.hosts
  obtain ⟨source, hsource⟩ := hosts'.sourceId?
  obtain ⟨alone, shadow, career⟩ :=
    stages_of_clear undertakes.clear undertakes.hosts undertakes.parse hread undertakes.tended
  rcases List.mem_append.mp hmem with hmem | hmem
  · obtain ⟨task, htask, rfl⟩ := List.mem_map.mp hmem
    exact (career.of_queued shadow rfl hosts' htask hid).not_overused hread
  · obtain ⟨entry, hentry, rfl⟩ := List.mem_map.mp hmem
    exact (career.of_held shadow rfl hosts' hsource hentry hid).1.not_overused hread

/-- Faults leave no trace of what they refuse.  A request is refused for its arguments exactly where
the numbers that they stand for are at fault: room beyond the limit, more bytes than the window holds,
a limit below the window, a read size of zero.  The reactor is then as it was, no parser has been asked
and no source read, and so it is where memory does not allow the room, whatever its size.

A parse that has begun meets other faults, and that of an overuse exactly where its parser has claimed
more than it was shown; nothing of it goes on then.  Nothing is consumed and nothing more is read: the
window is the one that the parse began with and all that it has received, and a later parse goes on
from there. -/
theorem faults_leave_no_trace [Allocator] :
    (∀ (reactor : Reactor ν ε) (request : Request ν ε), reactor.Refuses request) ∧
    (∀ {parser : Parser ν ε} {readSize : UInt64} {first : Feed}, readSize ≠ 0 →
      Event.Overused (first.parse parser readSize).transcript →
      (first.parse parser readSize).answer = some (.error .overuse)) ∧
    (∀ {reactor : Reactor ν ε} {operation : Operation ν ε} {start : Request ν ε}
      {during : List (Request ν ε)}, reactor.Undertakes operation start during →
      operation.readSize ≠ 0 → ∀ remnant ∈ (reactor.after (start :: during)).remnants,
      remnant.id = operation.id → ¬ Event.Overused remnant.transcript) ∧
    ∀ {parser : Parser ν ε} {readSize : UInt64} {first last : Feed}
      {transcript : List (Event ν ε)} {answer : Except Fault (Result ν ε)},
      first.buffer.Valid → readSize ≠ 0 →
      Feed.Finishes parser readSize first transcript answer last →
      (answer = .error .overuse ↔ Event.Overused transcript) ∧
      ∀ fault, answer = .error fault →
        (fault.isMisuse = true → fault = .overLimit) ∧ Feed.Stopped first transcript last ∧
        ∀ {ν' ε' : Type} (next : Parser ν' ε') (nextSize : UInt64), nextSize ≠ 0 →
          Feed.Continues first transcript last next nextSize := by
  refine ⟨Reactor.refuses, fun hread hover => Feed.parse_overused hread hover,
    fun undertakes hread remnant hmem hid => undertakes.not_overused hread hmem hid, ?_⟩
  intro parser readSize first last transcript answer valid hread hfinishes
  have hpassage := hfinishes.passage hread
  refine ⟨hpassage.overuse_iff hread, ?_⟩
  rintro fault rfl
  have stopped := hpassage.stopped hread valid
  exact ⟨hpassage.fault hread, stopped, fun next _ hnext => stopped.continues next hnext⟩

/-- A word in two pieces. -/
def twoPieces : Feed := { source := { chunks := [[0x41, 0x42], [0x43, 0x20]] } }

/-- The first piece in a buffer without a limit. -/
def firstPiece : Reactor (List UInt8) BadByte where
  buffers := [{ size := 2, capacity := 4, storage := .ofList [0x41, 0x42] }]

/-- A request for room that wraps is refused, and so is one for eight bytes when memory is used up.  A
parser that claims too much of the first piece is found out, by a parse that waits and by one that was
started, and the word is there for the next parse. -/
theorem overclaimed_piece_leaves_no_trace :
    firstPiece.serve (.buffer 0 (.reserve 0xfffffffffffffffe [])) =
        firstPiece.reply (.refused .overLimit) ∧
      @Reactor.serve _ _ ⟨fun _ => false⟩ firstPiece (.buffer 0 (.reserve 8 [])) =
        firstPiece.reply (.refused .outOfMemory) ∧
      (twoPieces.parse Parser.greedy 4).answer = some (.error .overuse) ∧
      (∀ remnant ∈ (twoPieces.reactor.after [.start 0 0 0 Parser.greedy 4]).remnants,
        ¬ Event.Overused remnant.transcript) ∧
      ∃ transcript : List (Event (List UInt8) BadByte),
        Feed.Stopped twoPieces transcript (twoPieces.leftBehind Parser.greedy 4) ∧
        Event.received transcript = [0x41, 0x42] ∧
        ((twoPieces.leftBehind Parser.greedy 4).parse Parser.token 4).answer =
          some (.ok (.value [0x41, 0x42, 0x43])) ∧
        Parser.token.Concludes 0xffffffffffffffff .endOfStream twoPieces.pending
          (.value [0x41, 0x42, 0x43])
          ((twoPieces.leftBehind Parser.greedy 4).parse Parser.token 4).feed.pending := by
  obtain ⟨refuses, waits, goesOn, finished⟩ := @faults_leave_no_trace (List UInt8) BadByte _
  have hread : (4 : UInt64) ≠ 0 := by decide
  refine ⟨?_, ?_, ?_, ?_, ?_⟩
  · have refused := refuses firstPiece (.buffer 0 (.reserve 0xfffffffffffffffe []))
    have hmet := (refused.misuse .overLimit rfl nofun).mpr (by decide)
    exact refused.traceless .overLimit nofun hmet
  · obtain ⟨refuses, -⟩ := @faults_leave_no_trace (List UInt8) BadByte ⟨fun _ => false⟩
    obtain ⟨-, traceless⟩ := refuses firstPiece (.buffer 0 (.reserve 8 []))
    exact traceless .outOfMemory nofun rfl
  · have hover : (twoPieces.parse Parser.greedy 4).transcript.any Event.overuses = true := by
      decide +kernel
    exact waits hread (List.any_eq_true.mp hover)
  · have undertakes := Reactor.undertakes_only twoPieces 0 Parser.greedy 4 []
    have hids : (twoPieces.reactor.after [.start 0 0 0 Parser.greedy 4]).remnants.map Remnant.id =
        [0] := by
      decide +kernel
    intro remnant hmem
    have hid : remnant.id ∈ [0] := hids ▸ List.mem_map_of_mem hmem
    exact goesOn undertakes hread remnant hmem (List.mem_singleton.mp hid)
  · have undertakes := Reactor.undertakes_only twoPieces 0 Parser.greedy 4 [none]
    have hbreakdowns : (twoPieces.news Parser.greedy 4).breakdowns.map (fun breakdown =>
        (Event.received breakdown.transcript, breakdown.fault)) =
        [([0x41, 0x42], .overuse)] := by
      decide +kernel
    obtain ⟨breakdown, hsingle, htold⟩ := List.map_eq_singleton_iff.mp hbreakdowns
    have hmem : breakdown ∈ (twoPieces.news Parser.greedy 4).breakdowns := by
      rw [hsingle]
      exact List.mem_cons_self
    have valid : twoPieces.buffer.Valid := Buffer.valid_unlimited
    have hfinishes : Feed.Finishes Parser.greedy 4 twoPieces breakdown.transcript
        (.error breakdown.fault) (twoPieces.leftBehind Parser.greedy 4) :=
      .started undertakes (.broken hmem)
    obtain ⟨-, stopped, continues⟩ := (finished valid hread hfinishes).2 _ rfl
    have hanswer : ((twoPieces.leftBehind Parser.greedy 4).parse Parser.token 4).answer =
        some (.ok (.value [0x41, 0x42, 0x43])) := by
      decide +kernel
    have hcalm : Event.interrupted
        ((twoPieces.leftBehind Parser.greedy 4).parse Parser.token 4).transcript
        ((twoPieces.leftBehind Parser.greedy 4).parse Parser.token 4).feed.source = false := by
      decide +kernel
    obtain ⟨result, hresult, hconcludes⟩ := (continues Parser.token 4 hread).concludes
      Parser.stable_token (by decide) ⟨nofun, rfl⟩ hcalm (by rw [hanswer]; exact nofun)
    rw [hanswer] at hresult
    cases hresult
    exact ⟨breakdown.transcript, stopped, congrArg Prod.fst htold, hanswer, hconcludes⟩

end StreamParse
