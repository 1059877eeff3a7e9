import StreamParse.Proofs.Likeness
import StreamParse.Proofs.Reactor.Career

/-!
# Errands

An errand is one parse on a buffer: with which source and which parser, and how it is asked for.  It
is waited for, or it is started and then tended, by runs of the queue and by cancellations, for as
long as one likes; what is still outstanding after that is given up.  Errands are carried out one
after another on the same buffer.

Buffers that look alike cannot be told apart by errands.
-/

namespace StreamParse

variable {ν ε : Type}

/-! ## What is seen -/

def Session.Reply.packed : Session.Reply ν ε → Session.Reply ν ε
  | parsed answer transcript => parsed answer (transcript.map Event.packed)
  | reply => reply

def Reply.packed : Reply ν ε → Reply ν ε
  | started answer transcript => started answer (transcript.map Event.packed)
  | session reply => session reply.packed
  | reply => reply

def Completion.packed : Completion ν ε → Completion ν ε
  | parsed id transcript result => parsed id (transcript.map Event.packed) result
  | read id delivery => read id delivery

def Breakdown.packed (breakdown : Breakdown ν ε) : Breakdown ν ε :=
  { breakdown with transcript := breakdown.transcript.map Event.packed }

/-- All that a response tells, wherever windows lie in their allocations. -/
def Response.seen (response : Response ν ε) : News ν ε where
  replies := [response.reply.packed]
  completions := response.completions.map Completion.packed
  breakdowns := response.breakdown.toList.map Breakdown.packed

/-- What can be done for a parse that was started. -/
inductive Care where
  | run (count? : Option Nat)
  | cancel
  deriving DecidableEq, Repr

/-- How a parse is asked for. -/
inductive Manner (ε : Type) where
  | waited (mode : AnswerMode ε)
  | started (id : Nat) (cares : List Care)

structure Errand (ν ε : Type) where
  source : Source
  parser : Parser ν ε
  readSize : UInt64 := defaultReadSize
  manner : Manner ε

def Care.request : Care → Request ν ε
  | run count? => .run count?
  | cancel => .cancelSource 0

/-- A reactor with a single source and a single buffer. -/
def Feed.reactor (feed : Feed) : Reactor ν ε :=
  { buffers := [feed.buffer], sources := [feed.source] }

/-- The place of the one source and the one buffer. -/
def Place.only : Place := .listed 0 0

namespace Errand

def requests (errand : Errand ν ε) : List (Request ν ε) :=
  match errand.manner with
  | .waited mode => [.parse 0 0 mode errand.parser errand.readSize]
  | .started id cares => .start id 0 0 errand.parser errand.readSize :: cares.map Care.request

/-- What is told during an errand, and the feed that it leaves. -/
def carryOut [Allocator] (errand : Errand ν ε) (buffer : Buffer) : List (News ν ε) × Feed :=
  let reactor : Reactor ν ε := Feed.reactor { source := errand.source, buffer }
  ((reactor.serveAll errand.requests).map Response.seen,
    (reactor.after errand.requests).feedAt .only)

end Errand

namespace Buffer

/-- What is seen of errands that are carried out one after another: what is told, the source that is
left, and the buffer that is left, wherever its window lies. -/
def sights [Allocator] (buffer : Buffer) :
    List (Errand ν ε) → List (List (News ν ε) × Source × Buffer)
  | [] => []
  | errand :: errands =>
      let (seen, left) := errand.carryOut buffer
      (seen, left.source, left.buffer.packed) :: left.buffer.sights errands

end Buffer

/-! ## Stints -/

/-- What goes on of a parse on two feeds, and the bytes that are on their way to both. -/
inductive Remnant.Resemble :
    List UInt8 → Option (Remnant ν ε) → Option (Remnant ν ε) → Prop
  | ended : Resemble [] none none
  | finish {id : Nat} {events others : List (Event ν ε)} {result : Result ν ε}
      (hevents : events.map Event.packed = others.map Event.packed) :
      Resemble [] (some (.queued (.finish id events result)))
        (some (.queued (.finish id others result)))
  | arrive {operation : Operation ν ε} {others : List (Event ν ε)} {delivery : Delivery}
      (hevents : operation.transcript.map Event.packed = others.map Event.packed) :
      Resemble delivery.bytes (some (.queued (.arrive (.parse operation) delivery)))
        (some (.queued (.arrive (.parse { operation with transcript := others }) delivery)))
  | held {operation : Operation ν ε} {others : List (Event ν ε)}
      (hevents : operation.transcript.map Event.packed = others.map Event.packed) :
      Resemble [] (some (.held (.parse operation)))
        (some (.held (.parse { operation with transcript := others })))

/-- Two stints of which the same is seen. -/
structure Stint.Resembles {α β : Type} (seen : α → β) (stint other : Stint ν ε α) : Prop where
  outcome : seen stint.outcome = seen other.outcome
  left : ∃ pending, Remnant.Resemble pending stint.remnant other.remnant ∧
    stint.feed.Resembles pending other.feed

/-- What is seen of an answer and of the events that led to it. -/
def seenEvents {α : Type} : α × List (Event ν ε) → α × List (Event ν ε)
  | (answer, events) => (answer, events.map Event.packed)

theorem seenEvents_eq {α : Type} {answer : α} {events others : List (Event ν ε)}
    (hevents : events.map Event.packed = others.map Event.packed) :
    seenEvents (answer, events) = seenEvents (answer, others) :=
  congrArg (answer, ·) hevents

def seenEnding : Except (Breakdown ν ε) (Option (Completion ν ε)) →
    Except (Breakdown ν ε) (Option (Completion ν ε))
  | .ok completion? => .ok (completion?.map Completion.packed)
  | .error breakdown => .error breakdown.packed

/-- A read is started on both or held on both, and brings the same. -/
theorem Feed.startRead_resembles {feed other : Feed} {area area' : Area}
    (hsource : feed.source = other.source)
    (beckons : Buffer.Beckons area area' feed.buffer other.buffer) :
    (feed.startRead area).1 = (other.startRead area').1 ∧
      (feed.startRead area).2.Resembles
        (((feed.startRead area).1.map Delivery.bytes).getD [])
        (other.startRead area').2 := by
  have hbytes : (((feed.source.startRead area.size.toNat).1.map Delivery.bytes).getD []).length ≤
      area.size.toNat := by
    rw [Source.startRead]
    split
    · exact Nat.zero_le _
    · exact feed.source.length_read_le area.size.toNat
  have hread : feed.source.startRead area.size.toNat = other.source.startRead area'.size.toNat := by
    rw [hsource, beckons.size]
  have hfill := beckons.fill _ hbytes
  simp only [Feed.startRead, ← hread]
  exact ⟨trivial, rfl, hfill⟩

namespace Operation

variable {operation : Operation ν ε} {others : List (Event ν ε)} {feed other : Feed}

theorem packed_record (hevents : operation.transcript.map Event.packed = others.map Event.packed)
    {event event' : Event ν ε} (hevent : event.packed = event'.packed) :
    (operation.transcript ++ [event]).map Event.packed =
      (others ++ [event']).map Event.packed := by
  simp only [List.map_append, hevents, List.map_cons, hevent]

theorem seenEnding_deliver (operation : Operation ν ε)
    {outcome outcome' : Option (Except Fault (Result ν ε)) × List (Event ν ε)}
    (hsame : seenEvents outcome = seenEvents outcome') :
    seenEnding (operation.deliver outcome) = seenEnding (operation.deliver outcome') := by
  obtain ⟨answer, events⟩ := outcome
  obtain ⟨answer', events'⟩ := outcome'
  obtain ⟨rfl, hevents⟩ := Prod.mk.inj hsame
  rcases answer with _ | fault | result
  · rfl
  · simp only [deliver, seenEnding, Breakdown.packed, hevents]
  · simp only [deliver, seenEnding, Option.map_some, Completion.packed, hevents]

variable [Allocator]

theorem drive_resembles (resembles : feed.Resembles [] other)
    (hevents : operation.transcript.map Event.packed = others.map Event.packed) :
    (operation.drive feed).Resembles seenEvents
      ({ operation with transcript := others }.drive other) := by
  have hrecord := packed_record hevents (resembles.look operation.parser)
  have hsame := resembles.turn operation.parser operation.readSize
  rcases hturn : feed.buffer.turn operation.readSize (operation.parser feed.buffer.window) with
    ⟨turn, b⟩
  rcases hturn' : other.buffer.turn operation.readSize (operation.parser other.buffer.window) with
    ⟨turn', b'⟩
  rw [hturn, hturn'] at hsame
  cases hsame with
  | ended answer hbuffers =>
      rw [drive_of_ended hturn,
        @drive_of_ended _ _ _ { operation with transcript := others } _ _ _ hturn']
      exact ⟨congrArg (some answer, ·) hrecord, [], .ended, resembles.source, hbuffers⟩
  | @reads _ _ area area' beckons =>
      obtain ⟨hdelivery, hleft⟩ := @Feed.startRead_resembles { feed with buffer := b }
        { other with buffer := b' } area area' resembles.source beckons
      rw [drive_of_reads hturn,
        @drive_of_reads _ _ _ { operation with transcript := others } _ _ _ hturn']
      refine ⟨congrArg (none, ·) hrecord, _, ?_, hleft⟩
      dsimp only
      rw [← hdelivery]
      cases (Feed.startRead { feed with buffer := b } area).1 with
      | none => exact .held hrecord
      | some delivery => exact .arrive hrecord

/-- The same is seen of the call that starts a parse. -/
theorem begin_resembles (resembles : feed.Resembles [] other) (operation : Operation ν ε) :
    (operation.begin feed).Resembles seenEvents (operation.begin other) := by
  by_cases hread : operation.readSize = 0
  · rw [begin, begin, if_pos hread, if_pos hread]
    exact ⟨rfl, [], .ended, resembles⟩
  have hdrive : (operation.drive feed).Resembles seenEvents (operation.drive other) :=
    @drive_resembles _ _ operation operation.transcript _ _ _ resembles rfl
  rcases hstint : operation.drive feed with ⟨⟨answer, events⟩, left, remnant?⟩
  rcases hstint' : operation.drive other with ⟨⟨answer', events'⟩, left', remnant?'⟩
  rw [hstint, hstint'] at hdrive
  obtain ⟨houtcome, pending, hremnants, hleft⟩ := hdrive
  obtain ⟨rfl, hevents⟩ := Prod.mk.inj houtcome
  rw [begin, begin, if_neg hread, if_neg hread, hstint, hstint']
  rcases answer with _ | fault | result
  · exact ⟨seenEvents_eq hevents, pending, hremnants, hleft⟩
  · exact ⟨seenEvents_eq hevents, [], .ended, hleft.without⟩
  · exact ⟨seenEvents_eq hevents, [], .finish hevents, hleft.without⟩

/-- The same is seen of a parse whose read has ended. -/
theorem resume_resembles {delivery : Delivery}
    (resembles : feed.Resembles delivery.bytes other)
    (hevents : operation.transcript.map Event.packed = others.map Event.packed) :
    (operation.resume delivery feed).Resembles seenEnding
      ({ operation with transcript := others }.resume delivery other) := by
  have hrecord := @packed_record _ _ _ _ hevents (.read delivery) (.read delivery) rfl
  have hfeeds : Feed.Resembles []
      { feed with buffer := feed.buffer.commit delivery.bytes.length.toUInt64 }
      { other with buffer := other.buffer.commit delivery.bytes.length.toUInt64 } :=
    ⟨resembles.source, resembles.buffer.commit⟩
  cases hfailed : delivery.code.failed with
  | true =>
      simp only [resume, record, hfailed, if_true]
      refine ⟨?_, [], .ended, hfeeds⟩
      simp only [seenEnding, Option.map_some, Completion.packed, hrecord]
  | false =>
      rw [resume_of_received hfailed, resume_of_received hfailed]
      obtain ⟨houtcome, hleft⟩ :=
        @drive_resembles _ _ (operation.record (.read delivery)) _ _ _ _ hfeeds hrecord
      exact ⟨operation.seenEnding_deliver houtcome, hleft⟩

end Operation

/-- The same is seen of an entry of the queue. -/
theorem Task.perform_resembles [Allocator] {feed other : Feed} {task task' : Task ν ε}
    {pending : List UInt8} (resembles : feed.Resembles pending other)
    (hremnants : Remnant.Resemble pending (some (.queued task)) (some (.queued task'))) :
    (task.perform feed).Resembles seenEnding (task'.perform other) := by
  cases hremnants with
  | finish hevents =>
      refine ⟨?_, [], .ended, resembles⟩
      simp only [Task.perform, seenEnding, Option.map_some, Completion.packed, hevents]
  | arrive hevents => exact Operation.resume_resembles resembles hevents

namespace Reactor

/-! ## Reactors with one parse -/

/-- Two reactors with nothing but one parse, of which the same is seen. -/
inductive Twins : Reactor ν ε → Reactor ν ε → Prop
  | intro {feed other : Feed} {remnant? remnant?' : Option (Remnant ν ε)} {pending : List UInt8}
      (hplace : ∀ remnant ∈ remnant?, ∀ place ∈ remnant.place?, place = .only)
      (hremnants : Remnant.Resemble pending remnant? remnant?')
      (resembles : feed.Resembles pending other) :
      Twins (feed.reactor.leave .only remnant?) (other.reactor.leave .only remnant?')

structure Progress.Resembles (progress other : Progress ν ε) : Prop where
  ran : progress.ran = other.ran
  completions : progress.completions.map Completion.packed =
    other.completions.map Completion.packed
  breakdown : progress.breakdown.map Breakdown.packed = other.breakdown.map Breakdown.packed
  reactor : Twins progress.reactor other.reactor

variable {reactor other : Reactor ν ε}

theorem hosts_only (feed : Feed) : (feed.reactor : Reactor ν ε).Hosts .only :=
  ⟨Nat.one_pos, Nat.one_pos⟩

theorem Twins.sources (twins : Twins reactor other) : reactor.sources = other.sources := by
  cases twins with
  | intro hplace hremnants resembles =>
      cases hremnants <;> exact congrArg (fun source => [source]) resembles.source

theorem Twins.depth (twins : Twins reactor other) : reactor.depth = other.depth := by
  cases twins with
  | intro hplace hremnants resembles =>
      cases hremnants <;>
        simp [Reactor.depth, turns, leave, enqueue, await, hold, Feed.reactor, Place.only,
          sourceId?, resembles.source]

theorem Twins.cancel (twins : Twins reactor other) :
    (reactor.cancel (.listed 0)).1 = (other.cancel (.listed 0)).1 ∧
      Twins (reactor.cancel (.listed 0)).2 (other.cancel (.listed 0)).2 := by
  cases twins with
  | @intro feed feed' remnant? remnant?' pending hplace hremnants resembles =>
      have twins : Twins _ _ := .intro hplace hremnants resembles
      cases hremnants with
      | ended => exact ⟨rfl, twins⟩
      | finish => exact ⟨rfl, twins⟩
      | arrive => exact ⟨rfl, twins⟩
      | held hevents =>
          have hown := hplace _ rfl _ rfl
          rw [leave_held rfl, leave_held rfl, cancel_hold rfl, cancel_hold rfl]
          refine ⟨rfl, .intro ?_ (.arrive hevents) resembles⟩
          rintro _ ⟨⟩ _ ⟨⟩
          exact hown

theorem Twins.resembles (twins : Twins reactor other) :
    (reactor.feedAt .only).Resembles [] (other.feedAt .only) := by
  cases twins with
  | intro hplace hremnants resembles =>
      cases hremnants <;> exact resembles.without

theorem Progress.Resembles.seen {progress progress' : Progress ν ε}
    (resembles : progress.Resembles progress') :
    progress.response.seen = progress'.response.seen := by
  have hfault : progress.breakdown.map Breakdown.fault = progress'.breakdown.map Breakdown.fault := by
    have hpacked := congrArg (Option.map Breakdown.fault) resembles.breakdown
    rw [Option.map_map, Option.map_map] at hpacked
    exact hpacked
  have hbreakdowns : progress.breakdown.toList.map Breakdown.packed =
      progress'.breakdown.toList.map Breakdown.packed := by
    rw [← Option.toList_map, ← Option.toList_map, resembles.breakdown]
  simp only [Response.seen, Progress.response, resembles.ran, hfault, resembles.completions,
    hbreakdowns]

variable [Allocator]

theorem perform_reactor {feed : Feed} {task : Task ν ε}
    (hplace : ∀ place ∈ task.place?, place = .only) :
    feed.reactor.perform task =
      ((task.perform feed).outcome,
        (task.perform feed).feed.reactor.leave .only (task.perform feed).remnant) :=
  perform_putFeed (hosts_only feed) hplace

/-- The same is seen of both behind an entry of which the same is seen. -/
theorem behind_resembles {count : Nat}
    {outcome outcome' : Except (Breakdown ν ε) (Option (Completion ν ε))}
    (houtcome : seenEnding outcome = seenEnding outcome') (twins : Twins reactor other)
    (hrest : (reactor.run count).Resembles (other.run count)) :
    (behind count (outcome, reactor)).Resembles (behind count (outcome', other)) := by
  rcases outcome with breakdown | completion? <;> rcases outcome' with breakdown' | completion?'
  · exact ⟨rfl, rfl, congrArg some (Except.error.inj houtcome), twins⟩
  · exact absurd houtcome nofun
  · exact absurd houtcome nofun
  · refine ⟨congrArg (· + 1) hrest.ran, ?_, hrest.breakdown, hrest.reactor⟩
    have hcompletion : completion?.toList.map Completion.packed =
        completion?'.toList.map Completion.packed := by
      rw [← Option.toList_map, ← Option.toList_map, Except.ok.inj houtcome]
    simp only [behind, List.map_append, hcompletion, hrest.completions]

theorem Twins.run (twins : Twins reactor other) (count : Nat) :
    (reactor.run count).Resembles (other.run count) := by
  induction count generalizing reactor other with
  | zero => exact ⟨rfl, rfl, rfl, twins⟩
  | succ count ih =>
      have idle : reactor.queue = [] → other.queue = [] →
          (reactor.run (count + 1)).Resembles (other.run (count + 1)) := by
        intro hqueue hqueue'
        rw [run_of_idle hqueue, run_of_idle hqueue']
        exact ⟨rfl, rfl, rfl, twins⟩
      cases twins with
      | @intro feed feed' remnant? remnant?' pending hplace hremnants resembles =>
          rcases remnant? with _ | task | waiter
          · cases hremnants
            exact idle rfl rfl
          · obtain ⟨task', rfl⟩ : ∃ task', remnant?' = some (.queued task') := by
              cases hremnants <;> exact ⟨_, rfl⟩
            have hplace' : ∀ place ∈ task'.place?, place = .only := by
              cases hremnants <;> exact hplace _ rfl
            obtain ⟨houtcome, pending', hleft, hfeeds⟩ :=
              task.perform_resembles resembles hremnants
            have accounts := task.accounts_perform feed (hplace _ rfl)
            have twins' : Twins _ _ := .intro accounts.placed hleft hfeeds
            rw [leave, leave, run_enqueue rfl, run_enqueue rfl, perform_reactor (hplace _ rfl),
              perform_reactor hplace']
            exact behind_resembles houtcome twins' (ih twins')
          · cases hremnants
            exact idle rfl rfl

/-! ## Errands -/

/-- Whatever is done for a parse that was started, the same is seen. -/
theorem Twins.care (twins : Twins reactor other) (care : Care) :
    (reactor.serve care.request).seen = (other.serve care.request).seen ∧
      Twins (reactor.serve care.request).reactor (other.serve care.request).reactor := by
  cases care with
  | run count? =>
      cases count? with
      | some count =>
          have hrun := twins.run count
          exact ⟨hrun.seen, hrun.reactor⟩
      | none =>
          have hrun := twins.run reactor.depth
          have hdrain : other.drain = other.run reactor.depth := by rw [drain, twins.depth]
          change reactor.drain.response.seen = other.drain.response.seen ∧
            Twins reactor.drain.reactor other.drain.reactor
          rw [hdrain]
          exact ⟨hrun.seen, hrun.reactor⟩
  | cancel =>
      obtain ⟨hfound, hleft⟩ := twins.cancel
      rw [Care.request, serve, serve, respond, respond, twins.sources]
      cases other.sources[0]? with
      | none => exact ⟨rfl, twins⟩
      | some source =>
          refine ⟨?_, hleft⟩
          change Response.seen (reactor.reply (.cancelled (reactor.cancel (.listed 0)).1)) = _
          rw [hfound]
          rfl

theorem Twins.cares (twins : Twins reactor other) (cares : List Care) :
    (reactor.serveAll (cares.map Care.request)).map Response.seen =
        (other.serveAll (cares.map Care.request)).map Response.seen ∧
      Twins (reactor.after (cares.map Care.request)) (other.after (cares.map Care.request)) := by
  induction cares generalizing reactor other with
  | nil => exact ⟨rfl, twins⟩
  | cons care cares ih =>
      obtain ⟨hseen, twins'⟩ := twins.care care
      obtain ⟨hrest, hlast⟩ := ih twins'
      rw [List.map_cons, serveAll, serveAll, List.map_cons, List.map_cons, hseen, hrest]
      exact ⟨rfl, hlast⟩

/-- The start of a parse on feeds that look alike. -/
theorem twins_start {feed feed' : Feed} (resembles : feed.Resembles [] feed') (id : Nat)
    (parser : Parser ν ε) (readSize : UInt64) :
    (feed.reactor.serve (.start id 0 0 parser readSize)).seen =
        (feed'.reactor.serve (.start id 0 0 parser readSize)).seen ∧
      Twins (feed.reactor.serve (.start id 0 0 parser readSize)).reactor
        (feed'.reactor.serve (.start id 0 0 parser readSize)).reactor := by
  have hbegin := Operation.begin_resembles resembles { id, place := .only, parser, readSize }
  have accounts := Operation.accounts_begin { id, place := .only, parser, readSize } feed
  obtain ⟨houtcome, pending, hremnants, hleft⟩ := hbegin
  rw [serve_of_stands rfl (hosts_only feed).stands, serve_of_stands rfl (hosts_only feed').stands]
  refine ⟨?_, .intro accounts.placed hremnants hleft⟩
  exact congrArg (fun seen : Except Fault Unit × List (Event ν ε) =>
    ({ replies := [.started seen.1 seen.2] } : News ν ε)) houtcome

end Reactor

/-- The same is seen of an errand on buffers that look alike, and it leaves buffers that look
alike. -/
theorem Errand.carryOut_resembles [Allocator] {buffer other : Buffer}
    (resembles : buffer.Resembles [] other) (errand : Errand ν ε) :
    (errand.carryOut buffer).1 = (errand.carryOut other).1 ∧
      (errand.carryOut buffer).2.Resembles [] (errand.carryOut other).2 := by
  obtain ⟨source, parser, readSize, manner⟩ := errand
  have hfeeds : Feed.Resembles [] { source, buffer } { source, buffer := other } :=
    ⟨rfl, resembles⟩
  cases manner with
  | waited mode =>
      have hrun := hfeeds.parseAs mode parser readSize
      have hseen : ∀ feed : Feed, (feed.reactor.serveAll
            [.parse 0 0 mode parser readSize]).map Response.seen =
          [{ replies := [.session (.parsed (feed.parseAs mode parser readSize).answer
            ((feed.parseAs mode parser readSize).transcript.map Event.packed))] }] :=
        fun _ => rfl
      refine ⟨?_, hrun.feed⟩
      change List.map Response.seen _ = List.map Response.seen _
      simp only [requests]
      rw [hseen, hseen, hrun.answer, hrun.transcript]
  | started id cares =>
      obtain ⟨hseen, twins⟩ := Reactor.twins_start hfeeds id parser readSize
      obtain ⟨hrest, hlast⟩ := twins.cares cares
      refine ⟨?_, hlast.resembles⟩
      change _ :: _ = _ :: _
      rw [hseen, hrest]

/-- Errands cannot tell buffers that look alike apart. -/
theorem Buffer.sights_eq [Allocator] {buffer other : Buffer} (valid : buffer.Valid)
    (valid' : other.Valid) (hsame : buffer.packed = other.packed) (errands : List (Errand ν ε)) :
    buffer.sights errands = other.sights errands := by
  have resembles := valid.resembles valid' hsame
  clear valid valid' hsame
  induction errands generalizing buffer other with
  | nil => rfl
  | cons errand errands ih =>
      obtain ⟨hseen, hleft⟩ := errand.carryOut_resembles resembles
      simp only [sights, hseen, hleft.source, hleft.buffer.same, ih hleft.buffer]

end StreamParse
