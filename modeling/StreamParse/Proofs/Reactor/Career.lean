import StreamParse.Proofs.Passage
import StreamParse.Proofs.Reactor.Concurrency

/-!
# The career of an operation

A parse that was started goes from stage to stage.  It is settled in the call that starts it, or it
waits for a read: one whose bytes are written and whose entry is queued, one that its source holds, or
one that was cancelled.  Carrying out its entry leads from there to the next wait or to its end, and
what was told at the end is a passage of the parse.

However the requests of others come in between, and whenever its reads are cancelled, an operation of a
shared reactor is always at one of these stages.
-/

namespace StreamParse

variable {ν ε : Type}

namespace Feed

variable {feed : Feed}

/-- A read that is not held is done at once. -/
theorem startRead_of_free (hfree : feed.source.holdsNext = false) (area : Area) :
    feed.startRead area = (some (feed.receive area).1, feed.written area) := by
  rw [startRead, Source.startRead, hfree]
  rfl

theorem startRead_of_holds (hholds : feed.source.holdsNext = true) (area : Area) :
    feed.startRead area =
      (none, { source := { feed.source with reads := feed.source.reads + 1 }
               buffer := feed.buffer.fill area [] }) := by
  rw [startRead, Source.startRead, hholds]
  rfl

end Feed

/-- What is told when an entry of the queue is carried out. -/
def ending : Except (Breakdown ν ε) (Option (Completion ν ε)) → News ν ε
  | .ok completion? => { completions := completion?.toList }
  | .error breakdown => { breakdowns := [breakdown] }

namespace Operation

/-- What the start of an operation tells when the operation goes on. -/
def opened (operation : Operation ν ε) (first : Feed) : News ν ε where
  replies := [.started (.ok ())
    [.look first.buffer (operation.parser first.buffer.window)]]

/-- The operation when it waits for the read behind these events. -/
def waiting (operation : Operation ν ε) (past : List (Event ν ε)) (feed : Feed) : Operation ν ε :=
  { operation with
    transcript := past ++ [.look feed.buffer (operation.parser feed.buffer.window)] }

/-- The look behind which it waits has brought nothing yet. -/
theorem deliveries_waiting (operation : Operation ν ε) (past : List (Event ν ε)) (feed : Feed) :
    Event.deliveries (operation.waiting past feed).transcript = Event.deliveries past := by
  rw [waiting, Event.deliveries_append]
  exact List.append_nil _

variable [Allocator]

/-- What an operation has come to that began with this feed: the feed now, what of it goes on, and
what was told. -/
inductive Stage (operation : Operation ν ε) (first : Feed) :
    Feed → Option (Remnant ν ε) → News ν ε → Prop
  | settled {result : Result ν ε} {buffer : Buffer}
      (hturn : first.buffer.turn operation.readSize (operation.parser first.buffer.window) =
        (.ended (.ok result), buffer)) :
      Stage operation first { first with buffer }
        (some (.queued (.finish operation.id
          [.look first.buffer (operation.parser first.buffer.window)] result)))
        (operation.opened first)
  | arriving {past : List (Event ν ε)} {mid : Feed} {area : Area} {buffer : Buffer}
      (hreaches : Feed.Reaches operation.parser operation.readSize first past mid)
      (hturn : mid.buffer.turn operation.readSize (operation.parser mid.buffer.window) =
        (.reads area, buffer))
      (hfree : mid.source.holdsNext = false) :
      Stage operation first (Feed.written { mid with buffer } area)
        (some (.queued (.arrive (.parse (operation.waiting past mid))
          (Feed.receive { mid with buffer } area).1)))
        (operation.opened first)
  | held {past : List (Event ν ε)} {mid : Feed} {area : Area} {buffer : Buffer}
      (hreaches : Feed.Reaches operation.parser operation.readSize first past mid)
      (hturn : mid.buffer.turn operation.readSize (operation.parser mid.buffer.window) =
        (.reads area, buffer))
      (hholds : mid.source.holdsNext = true) :
      Stage operation first
        { source := { mid.source with reads := mid.source.reads + 1 }
          buffer := buffer.fill area [] }
        (some (.held (.parse (operation.waiting past mid)))) (operation.opened first)
  | cancelled {past : List (Event ν ε)} {mid : Feed} {area : Area} {buffer : Buffer}
      (hreaches : Feed.Reaches operation.parser operation.readSize first past mid)
      (hturn : mid.buffer.turn operation.readSize (operation.parser mid.buffer.window) =
        (.reads area, buffer))
      (hholds : mid.source.holdsNext = true) :
      Stage operation first
        { source := { mid.source with reads := mid.source.reads + 1 }
          buffer := buffer.fill area [] }
        (some (.queued (.arrive (.parse (operation.waiting past mid))
          { code := .operationAborted })))
        (operation.opened first)
  | refused {fault : Fault} {buffer : Buffer}
      (hturn : first.buffer.turn operation.readSize (operation.parser first.buffer.window) =
        (.ended (.error fault), buffer)) :
      Stage operation first { first with buffer } none
        { replies := [.started (.error fault)
            [.look first.buffer (operation.parser first.buffer.window)]] }
  | completed {transcript : List (Event ν ε)} {result : Result ν ε} {last : Feed}
      (hpassage : Feed.Passage operation.parser operation.readSize first transcript (.ok result)
        last) :
      Stage operation first last none
        (operation.opened first ++ { completions := [.parsed operation.id transcript result] })
  | broken {transcript : List (Event ν ε)} {fault : Fault} {last : Feed}
      (hpassage : Feed.Passage operation.parser operation.readSize first transcript
        (.error fault) last) :
      Stage operation first last none
        (operation.opened first ++
          { breakdowns := [{ id := operation.id, transcript, fault }] })

variable {operation : Operation ν ε} {first feed : Feed}

/-! ## From stage to stage -/

/-- A read that was started makes the operation wait. -/
theorem Stage.of_reads {past : List (Event ν ε)} {mid : Feed} {area : Area} {buffer : Buffer}
    (hreaches : Feed.Reaches operation.parser operation.readSize first past mid)
    (hturn : mid.buffer.turn operation.readSize (operation.parser mid.buffer.window) =
      (.reads area, buffer)) :
    operation.Stage first (Feed.startRead { mid with buffer } area).2
      (some (.ofRead (.parse (operation.waiting past mid))
        (Feed.startRead { mid with buffer } area).1))
      (operation.opened first) := by
  cases hholds : mid.source.holdsNext with
  | true =>
      rw [@Feed.startRead_of_holds { mid with buffer } hholds]
      exact .held hreaches hturn hholds
  | false =>
      rw [@Feed.startRead_of_free { mid with buffer } hholds]
      exact .arriving hreaches hturn hholds

/-- The call that starts an operation leads to its first stage. -/
theorem Stage.begin (hbefore : operation.transcript = []) (hread : operation.readSize ≠ 0)
    (first : Feed) :
    operation.Stage first (operation.begin first).feed (operation.begin first).remnant
      { replies := [.started (operation.begin first).outcome.1
          (operation.begin first).outcome.2] } := by
  rcases hturn : first.buffer.turn operation.readSize
    (operation.parser first.buffer.window) with ⟨⟨_ | result⟩ | area, buffer⟩
  · simp only [Operation.begin, if_neg hread, drive_of_ended hturn, hbefore, List.nil_append]
    exact .refused hturn
  · simp only [Operation.begin, if_neg hread, drive_of_ended hturn, hbefore, List.nil_append]
    exact .settled hturn
  · simp only [Operation.begin, if_neg hread, drive_of_reads hturn, hbefore, List.nil_append]
    have stage := Stage.of_reads .nothing hturn
    rw [waiting, List.nil_append] at stage
    simp only [record, hbefore, List.nil_append]
    exact stage

/-- What is told of an operation when the look behind a read has led to this. -/
def deliver (operation : Operation ν ε) :
    Option (Except Fault (Result ν ε)) × List (Event ν ε) →
      Except (Breakdown ν ε) (Option (Completion ν ε))
  | (none, _) => .ok none
  | (some (.ok result), events) => .ok (some (.parsed operation.id events result))
  | (some (.error fault), events) => .error { id := operation.id, transcript := events, fault }

theorem resume_of_received {delivery : Delivery} (hreceived : delivery.code.failed = false) :
    operation.resume delivery feed =
      ((operation.record (.read delivery)).drive
        { feed with buffer := feed.buffer.commit delivery.bytes.length.toUInt64 }).map
        operation.deliver := by
  simp only [Operation.resume, hreceived, Bool.false_eq_true, if_false]
  rfl

/-- A look after reads that succeeded ends the operation, or makes it wait again. -/
theorem Stage.drive {past : List (Event ν ε)} {mid : Feed}
    (hreaches : Feed.Reaches operation.parser operation.readSize first past mid) :
    operation.Stage first ({ operation with transcript := past }.drive mid).feed
      ({ operation with transcript := past }.drive mid).remnant
      (operation.opened first ++
        ending (operation.deliver
          ({ operation with transcript := past }.drive mid).outcome)) := by
  rcases hturn : mid.buffer.turn operation.readSize (operation.parser mid.buffer.window) with
    ⟨⟨fault | result⟩ | area, buffer⟩
  · rw [@drive_of_ended _ _ _ { operation with transcript := past } _ _ _ hturn]
    exact .broken (.intro hreaches (.look hturn))
  · rw [@drive_of_ended _ _ _ { operation with transcript := past } _ _ _ hturn]
    exact .completed (.intro hreaches (.look hturn))
  · rw [@drive_of_reads _ _ _ { operation with transcript := past } _ _ _ hturn]
    have stage := Stage.of_reads hreaches hturn
    rw [← News.append_empty (operation.opened first)] at stage
    exact stage

/-- A read that has ended makes the operation look again, unless it failed. -/
theorem Stage.resume {past : List (Event ν ε)} {mid next : Feed} {delivery : Delivery}
    (hreaches : Feed.Reaches operation.parser operation.readSize first past mid)
    (hreads : Feed.Reads operation.parser operation.readSize mid delivery next)
    (hnext : { feed with buffer := feed.buffer.commit delivery.bytes.length.toUInt64 } = next) :
    operation.Stage first ((operation.waiting past mid).resume delivery feed).feed
      ((operation.waiting past mid).resume delivery feed).remnant
      (operation.opened first ++
        ending ((operation.waiting past mid).resume delivery feed).outcome) := by
  cases hfailed : delivery.code.failed with
  | true =>
      simp only [Operation.resume, hfailed, if_true, hnext, waiting, record, List.append_assoc]
      exact .completed (.intro hreaches (.read hreads hfailed))
  | false =>
      have stage := Stage.drive (hreaches.read hreads hfailed)
      rw [resume_of_received hfailed, hnext]
      simp only [waiting, record, List.append_assoc]
      exact stage

/-- An entry of the queue leads to the next stage. -/
theorem Stage.perform {task : Task ν ε} {news : News ν ε}
    (stage : operation.Stage first feed (some (.queued task)) news) :
    operation.Stage first (task.perform feed).feed (task.perform feed).remnant
      (news ++ ending (task.perform feed).outcome) := by
  cases stage with
  | settled hturn => exact .completed (.intro .nothing (.look hturn))
  | arriving hreaches hturn hfree => exact Stage.resume hreaches (.intro hturn) rfl
  | @cancelled past mid area buffer hreaches hturn hholds =>
      have hpassage := Feed.Passage.intro hreaches (.cancelled hturn hholds)
      simp only [Task.perform, Operation.resume, waiting, record, List.append_assoc]
      exact .completed hpassage

/-- A cancellation sends a read that is held to the queue. -/
theorem Stage.cancel {waiter : Waiter ν ε} {news : News ν ε}
    (stage : operation.Stage first feed (some (.held waiter)) news) :
    operation.Stage first feed
      (some (.queued (.arrive waiter { code := .operationAborted }))) news := by
  cases stage with
  | held hreaches hturn hholds => exact .cancelled hreaches hturn hholds

end Operation

/-- What is so of an operation all along: of the feed at its place, of what goes on, and of what was
told.  No entry of the queue and no cancellation puts an end to it. -/
structure Lasts [Allocator] (id : Nat) (place : Place)
    (stage : Feed → Option (Remnant ν ε) → News ν ε → Prop) : Prop where
  own {feed : Feed} {task : Task ν ε} {news : News ν ε} :
    stage feed (some (.queued task)) news → task.id = id ∧ ∀ other ∈ task.place?, other = place
  perform {feed : Feed} {task : Task ν ε} {news : News ν ε} :
    stage feed (some (.queued task)) news →
      stage (task.perform feed).feed (task.perform feed).remnant
        (news ++ ending (task.perform feed).outcome)
  cancel {feed : Feed} {waiter : Waiter ν ε} {news : News ν ε} :
    stage feed (some (.held waiter)) news →
      stage feed (some (.queued (.arrive waiter { code := .operationAborted }))) news

/-- An operation is always at one of its stages. -/
theorem Operation.stage_lasts [Allocator] (operation : Operation ν ε) (first : Feed) :
    Lasts operation.id operation.place (operation.Stage first) where
  own stage := by
    cases stage with
    | settled => exact ⟨rfl, nofun⟩
    | arriving => exact ⟨rfl, by rintro _ ⟨⟩; rfl⟩
    | cancelled => exact ⟨rfl, by rintro _ ⟨⟩; rfl⟩
  perform := Stage.perform
  cancel := Stage.cancel

namespace Reactor

variable {base reactor alone : Reactor ν ε} {id : Nat} {place : Place} {news : News ν ε}
variable {stage : Feed → Option (Remnant ν ε) → News ν ε → Prop}

/-- A reactor with nothing but one operation, at one of its stages, and what was told of it. -/
inductive Career (base : Reactor ν ε) (place : Place)
    (stage : Feed → Option (Remnant ν ε) → News ν ε → Prop) : Reactor ν ε → News ν ε → Prop
  | intro {feed : Feed} {remnant? : Option (Remnant ν ε)} {news : News ν ε}
      (hstage : stage feed remnant? news) :
      Career base place stage ((base.putFeed place feed).leave place remnant?) news

/-- A read that is held is not in the queue. -/
theorem queue_leave_held (reactor : Reactor ν ε) (place : Place) (waiter : Waiter ν ε) :
    (reactor.leave place (some (.held waiter))).queue = reactor.queue := by
  rw [leave, await]
  split <;> rfl

theorem feedAt_leave (reactor : Reactor ν ε) (place : Place) (remnant? : Option (Remnant ν ε))
    (other : Place) : (reactor.leave place remnant?).feedAt other = reactor.feedAt other := by
  rcases remnant? with _ | task | waiter
  · rfl
  · cases other <;> rfl
  · rw [leave, await]
    split
    · cases other <;> rfl
    · rfl

/-- The feed of a reactor in its career is the feed of its stage. -/
theorem Shadow.feedAt_of_career {origin : Reactor ν ε}
    (shadow : Shadow origin id place reactor alone)
    (hosts : base.Hosts place) {feed : Feed} {remnant? : Option (Remnant ν ε)}
    (halone : alone = (base.putFeed place feed).leave place remnant?) :
    reactor.feedAt place = feed := by
  rw [feedAt_congr shadow.cells, halone, feedAt_leave, feedAt_putFeed hosts]

section Run

variable [Allocator]

/-- An entry that ends its operation tells nothing of others. -/
theorem news_behind_own {id count : Nat}
    {outcome : Except (Breakdown ν ε) (Option (Completion ν ε))} {next : Reactor ν ε}
    (hown : ∀ owner ∈ endings outcome, owner = id) :
    (∃ breakdown, outcome = .error breakdown ∧ (behind count (outcome, next)).reactor = next ∧
        (behind count (outcome, next)).news id = ending outcome) ∨
      (behind count (outcome, next)).reactor = (next.run count).reactor ∧
        (behind count (outcome, next)).news id = ending outcome ++ (next.run count).news id := by
  rcases outcome with breakdown | completion?
  · have hid : breakdown.id = id := hown _ List.mem_cons_self
    refine .inl ⟨breakdown, rfl, rfl, ?_⟩
    simp [behind, Progress.news, ending, hid]
  · refine .inr ⟨rfl, ?_⟩
    have hfilter : completion?.toList.filter (fun completion => completion.id == id) =
        completion?.toList := by
      rw [List.filter_eq_self]
      intro completion hmem
      exact beq_iff_eq.mpr (hown _ (List.mem_map_of_mem hmem))
    rw [news_behind, hfilter]
    rfl

/-- What an entry does to a reactor that has nothing else. -/
theorem perform_putFeed (hosts : base.Hosts place) {feed : Feed} {task : Task ν ε}
    (hplace : ∀ other ∈ task.place?, other = place) :
    (base.putFeed place feed).perform task =
      ((task.perform feed).outcome,
        (base.putFeed place (task.perform feed).feed).leave place
          (task.perform feed).remnant) := by
  cases hown : task.place? with
  | none =>
      cases task with
      | finish id transcript result => rfl
      | arrive waiter delivery =>
          cases waiter with
          | read id => rfl
          | parse other => exact absurd hown nofun
  | some other =>
      obtain rfl := hplace other hown
      have stands := ((hosts_putFeed base other feed other).mpr hosts).stands
      rw [perform_eq hown stands, feedAt_putFeed hosts, settle, putFeed_putFeed hosts.stands]

/-- Whatever is run of the queue, the operation goes from stage to stage. -/
theorem Career.run (lasts : Lasts id place stage) (hqueue : base.queue = [])
    (hosts : base.Hosts place) (career : Career base place stage alone news) (count : Nat) :
    Career base place stage (alone.run count).reactor
      (news ++ (alone.run count).news id) := by
  induction count generalizing alone news with
  | zero =>
      have hnews : (alone.run 0).news id = {} := rfl
      rw [hnews, News.append_empty]
      exact career
  | succ count ih =>
      have idle : ∀ other : Reactor ν ε, other.queue = [] →
          Career base place stage other news →
          Career base place stage (other.run (count + 1)).reactor
            (news ++ (other.run (count + 1)).news id) := by
        intro other hother career
        have hnews : Progress.news id { reactor := other } = {} := rfl
        rw [run_of_idle hother, hnews, News.append_empty]
        exact career
      cases career with
      | @intro feed remnant? news hstage =>
          have hput : (base.putFeed place feed).queue = [] := by
            rw [queue_putFeed, hqueue]
          rcases remnant? with _ | task | waiter
          · exact idle _ hput (.intro hstage)
          · obtain ⟨hid, hplace⟩ := lasts.own hstage
            have accounts := task.accounts_perform feed hplace
            have hown : ∀ owner ∈ endings (task.perform feed).outcome, owner = id := by
              intro owner hmem
              have hself := List.mem_append_left
                ((task.perform feed).remnant.toList.map Remnant.id) hmem
              rw [accounts.once, List.mem_singleton, hid] at hself
              exact hself
            have hrun := run_enqueue hput task count
            rw [perform_putFeed hosts hplace] at hrun
            have career : Career base place stage _ _ := .intro (lasts.perform hstage)
            rw [leave, hrun]
            rcases news_behind_own hown with ⟨breakdown, _, hreactor, hnews⟩ | ⟨hreactor, hnews⟩
            · rw [hreactor, hnews]
              exact career
            · rw [hreactor, hnews, ← News.append_assoc]
              exact ih career
          · exact idle _ ((queue_leave_held _ _ _).trans hput) (.intro hstage)

end Run

/-! ## Cancellations -/

/-- The read that a source holds moves to the queue. -/
theorem cancel_hold (hheld : reactor.held = []) (source : SourceId) (waiter : Waiter ν ε) :
    (reactor.hold source waiter).cancel source =
      (true, reactor.enqueue (.arrive waiter { code := .operationAborted })) := by
  simp [cancel, hold, enqueue, hheld]

/-- A read that is held is held by the source of its place. -/
theorem leave_held {source : SourceId} (hsource : reactor.sourceId? place = some source)
    (waiter : Waiter ν ε) :
    reactor.leave place (some (.held waiter)) = reactor.hold source waiter := by
  simp only [leave, await, hsource]

/-- A shadow that holds a read has nothing else to do. -/
theorem Shadow.held_own (shadow : Shadow base id place reactor alone)
    {entry : SourceId × Waiter ν ε} {first rest : List (SourceId × Waiter ν ε)}
    (hheld : reactor.held = first ++ entry :: rest) (hid : entry.2.id = id) :
    alone.queue = [] ∧ alone.held = [entry] ∧
      heldOf { reactor with held := first ++ rest } id = [] := by
  have hown : alone.held = first.filter (fun other => other.2.id == id) ++
      entry :: rest.filter (fun other => other.2.id == id) := by
    rw [← shadow.held, heldOf, hheld]
    simp [hid]
  have hsingle := shadow.single
  simp only [outstanding, hown, List.length_append, List.length_map, List.length_cons] at hsingle
  have hqueue : alone.queue = [] := List.length_eq_zero_iff.mp (by omega)
  have hfirst : first.filter (fun other => other.2.id == id) = [] :=
    List.length_eq_zero_iff.mp (by omega)
  have hrest : rest.filter (fun other => other.2.id == id) = [] :=
    List.length_eq_zero_iff.mp (by omega)
  rw [hfirst, hrest] at hown
  refine ⟨hqueue, hown, ?_⟩
  rw [heldOf, List.filter_append, hfirst, hrest]
  rfl

/-- The read that an operation's own source holds is cancelled in its shadow too. -/
theorem Shadow.cancel_own (shadow : Shadow base id place reactor alone) {source : SourceId}
    (hsource : base.sourceId? place = some source) :
    (alone.cancel source).1 = (reactor.cancel source).1 ∧
      Shadow base id place (reactor.cancel source).2 (alone.cancel source).2 := by
  rcases reactor.cancel_cases source with
    ⟨hnone, hcancel⟩ | ⟨waiter, first, rest, hheld, hcancel⟩
  · have hnone' : ∀ entry ∈ alone.held, entry.1 ≠ source := by
      intro entry hmem
      rw [← shadow.held] at hmem
      exact hnone entry (List.mem_filter.mp hmem).1
    rw [hcancel, cancel_of_not_held hnone']
    exact ⟨rfl, shadow⟩
  · have hmem : (source, waiter) ∈ reactor.held := by simp [hheld]
    obtain ⟨howner, hbeside⟩ := shadow.waiting (source, waiter) hmem
    have hid : waiter.id = id := howner.mpr hsource
    obtain ⟨hqueue, halone, hothers⟩ := shadow.held_own hheld hid
    have hidle : ({ alone with held := [] } : Reactor ν ε).outstanding = [] := by
      simp [outstanding, hqueue]
    have hcancel' : alone.cancel source = (true,
        enqueue { alone with held := [] } (.arrive waiter { code := .operationAborted })) := by
      simp [Reactor.cancel, halone]
    have shadow' : Shadow base id place { reactor with held := first ++ rest }
        { alone with held := [] } := {
      shadow with
      held := hothers
      single := by simp [hidle]
      waiting := fun other hother => shadow.waiting other (mem_held_of_mem hheld hother) }
    rw [hcancel, hcancel']
    refine ⟨rfl, shadow'.enqueue_own hidle hid ?_⟩
    intro other hother
    exact (hbeside other hother).1 hid

/-- The source that a request cancels is named by the places, and those stay. -/
theorem cancels?_congr {next : Reactor ν ε}
    (hsame : ∀ place, next.sourceId? place = reactor.sourceId? place) (request : Request ν ε) :
    next.cancels? request = reactor.cancels? request := by
  cases request <;> simp only [cancels?, hsame]

variable [Allocator]

theorem Career.cancel (lasts : Lasts id place stage) (hheld : base.held = []) {source : SourceId}
    (hsource : base.sourceId? place = some source)
    (career : Career base place stage alone news) :
    Career base place stage (alone.cancel source).2 news := by
  cases career with
  | @intro feed remnant? news hstage =>
      have hput : (base.putFeed place feed).held = [] := by
        rw [held_putFeed, hheld]
      have idle : ∀ other : Reactor ν ε, other.held = [] →
          Career base place stage other news →
          Career base place stage (other.cancel source).2 news := by
        intro other hother career
        rw [cancel_of_not_held (by simp [hother])]
        exact career
      rcases remnant? with _ | task | waiter
      · exact idle _ hput (.intro hstage)
      · exact idle _ hput (.intro hstage)
      · rw [leave_held ((sourceId?_putFeed base place feed place).trans hsource),
          cancel_hold hput]
        exact .intro (lasts.cancel hstage)

/-- A request that cancels either does so or is refused, and tells nothing of an operation. -/
theorem serve_of_cancels {request : Request ν ε} {source : SourceId}
    (hcancels : reactor.cancels? request = some source) (id : Nat) :
    (reactor.serve request).news id request = {} ∧
      ((reactor.serve request).reactor = reactor ∧ (reactor.serve request).reply = .unknown ∨
        reactor.serve request =
          { reply := .cancelled (reactor.cancel source).1
            reactor := (reactor.cancel source).2 }) := by
  cases request with
  | cancelSource index =>
      cases hcancels
      rw [serve, respond]
      cases reactor.sources[index]? with
      | none => exact ⟨rfl, .inl ⟨rfl, rfl⟩⟩
      | some _ => exact ⟨rfl, .inr rfl⟩
  | cancelSeat index =>
      rw [serve, respond]
      cases reactor.seats[index]? with
      | none => exact ⟨rfl, .inl ⟨rfl, rfl⟩⟩
      | some _ =>
          have hseat : reactor.sourceId? (.seat index) = some source := hcancels
          rw [hseat]
          exact ⟨rfl, .inr rfl⟩
  | _ => cases hcancels

end Reactor

namespace Request

/-- The parse that a request starts, where a seat has this read size. -/
def parse? (readSize : UInt64) : Request ν ε → Option (Operation ν ε)
  | start id source index parser readSize =>
      some { id, place := .listed source index, parser, readSize }
  | startSessionParse id seat parser => some { id, place := .seat seat, parser, readSize }
  | _ => none

/-- A request that cancels what is read for a place. -/
def Cancels (request : Request ν ε) (reactor : Reactor ν ε) (place : Place) : Prop :=
  ∃ source, reactor.cancels? request = some source ∧ reactor.sourceId? place = some source

/-- A request that leaves an operation alone, or cancels the read that it waits for. -/
def Tends (request : Request ν ε) (reactor : Reactor ν ε) (id : Nat) (place : Place) : Prop :=
  request.Spares reactor id place ∨ request.Cancels reactor place

variable {request : Request ν ε} {operation : Operation ν ε} {readSize : UInt64}

theorem starts?_of_parse? (hparse : request.parse? readSize = some operation) :
    request.starts? = some (operation.id, operation.place) ∧ operation.transcript = [] := by
  cases request with
  | start => cases hparse; exact ⟨rfl, rfl⟩
  | startSessionParse => cases hparse; exact ⟨rfl, rfl⟩
  | _ => exact absurd hparse nofun

theorem stint_of_parse? [Allocator] (hparse : request.parse? readSize = some operation)
    (feed : Feed) :
    request.stint readSize feed =
      (operation.begin feed).map fun (answer, events) => .started answer events := by
  cases request with
  | start => cases hparse; rfl
  | startSessionParse => cases hparse; rfl
  | _ => exact absurd hparse nofun

end Request

namespace Reactor

variable {base reactor alone : Reactor ν ε} {id : Nat} {place : Place} {news : News ν ε}
variable {stage : Feed → Option (Remnant ν ε) → News ν ε → Prop}

/-! ## Giving everything else up -/

theorem sourceId?_abandon (reactor : Reactor ν ε) (place : Place) :
    reactor.abandon.sourceId? place = reactor.sourceId? place := by
  cases place <;> rfl

theorem feedAt_abandon (reactor : Reactor ν ε) (place : Place) :
    reactor.abandon.feedAt place = reactor.feedAt place := by
  cases place <;> rfl

theorem readSizeAt_abandon (reactor : Reactor ν ε) (place : Place) :
    reactor.abandon.readSizeAt place = reactor.readSizeAt place := by
  cases place <;> rfl

theorem hosts_abandon (reactor : Reactor ν ε) (place : Place) :
    reactor.abandon.Hosts place ↔ reactor.Hosts place := by
  cases place <;> exact Iff.rfl

/-! ## Histories -/

variable [Allocator]

/-- Whatever a request does, the operation goes from stage to stage. -/
theorem Career.serve (lasts : Lasts id place stage) (hidle : base.outstanding = [])
    (hosts : base.Hosts place) {origin : Reactor ν ε}
    (horigin : ∀ place, base.sourceId? place = origin.sourceId? place)
    (shadow : Shadow origin id place reactor alone) (career : Career base place stage alone news)
    {request : Request ν ε} (tends : request.Tends origin id place) :
    ∃ alone', Shadow origin id place (reactor.serve request).reactor alone' ∧
      Career base place stage alone' (news ++ (reactor.serve request).news id request) := by
  obtain ⟨hqueue, hheld⟩ := List.append_eq_nil_iff.mp hidle
  rw [List.map_eq_nil_iff] at hqueue hheld
  rcases tends with spares | ⟨source, hcancels, hsource⟩
  · obtain ⟨own, abreast⟩ := shadow.serve spares
    refine ⟨_, abreast.shadow, ?_⟩
    rw [abreast.news]
    exact career.run lasts hqueue hosts own
  · rw [← cancels?_congr shadow.sourceId?] at hcancels
    obtain ⟨hnews, ⟨hreactor, -⟩ | hserve⟩ := serve_of_cancels hcancels id
    · rw [hnews, hreactor, News.append_empty]
      exact ⟨alone, shadow, career⟩
    · rw [hnews, hserve, News.append_empty]
      rw [← horigin] at hsource
      exact ⟨_, (shadow.cancel_own ((horigin _).symm.trans hsource)).2,
        career.cancel lasts hheld hsource⟩

/-- And so it does through a history. -/
theorem Career.after (lasts : Lasts id place stage) (hidle : base.outstanding = [])
    (hosts : base.Hosts place) {origin : Reactor ν ε}
    (horigin : ∀ place, base.sourceId? place = origin.sourceId? place)
    (shadow : Shadow origin id place reactor alone) (career : Career base place stage alone news)
    {history : List (Request ν ε)}
    (tended : ∀ request ∈ history, request.Tends origin id place) :
    ∃ alone', Shadow origin id place (reactor.after history) alone' ∧
      Career base place stage alone' (news ++ reactor.news id history) := by
  induction history generalizing reactor alone news with
  | nil =>
      rw [Reactor.news, News.append_empty]
      exact ⟨alone, shadow, career⟩
  | cons request history ih =>
      obtain ⟨alone', shadow', career'⟩ :=
        career.serve lasts hidle hosts horigin shadow (tended request List.mem_cons_self)
      rw [Reactor.news, ← News.append_assoc]
      exact ih shadow' career' fun other hmem => tended other (List.mem_cons_of_mem _ hmem)

/-- Whatever is so of a parse from its start on, and lasts, is so of it in a shared reactor where its
place was clear. -/
theorem career_of_clear {reactor : Reactor ν ε} {operation : Operation ν ε}
    (lasts : Lasts operation.id operation.place stage)
    (clear : reactor.Clear operation.id operation.place) (hosts : reactor.Hosts operation.place)
    (hstage : stage (operation.begin (reactor.feedAt operation.place)).feed
      (operation.begin (reactor.feedAt operation.place)).remnant
      { replies := [.started (operation.begin (reactor.feedAt operation.place)).outcome.1
          (operation.begin (reactor.feedAt operation.place)).outcome.2] })
    {start : Request ν ε}
    (hparse : start.parse? (reactor.readSizeAt operation.place) = some operation)
    {history : List (Request ν ε)}
    (tended : ∀ request ∈ history, request.Tends reactor operation.id operation.place) :
    ∃ alone,
      Shadow reactor operation.id operation.place (reactor.after (start :: history)) alone ∧
      Career reactor.abandon operation.place stage alone
        (reactor.news operation.id (start :: history)) := by
  obtain ⟨hstarts, -⟩ := Request.starts?_of_parse? hparse
  obtain ⟨hshadow, hnews⟩ := (clear.shadow hosts.stands).start rfl hstarts
  have hosts' : reactor.abandon.Hosts operation.place := (hosts_abandon reactor _).mpr hosts
  have hserve := serve_of_stands hstarts hosts'.stands
  rw [opening, feedAt_abandon, readSizeAt_abandon, Request.stint_of_parse? hparse] at hserve
  have hopening : (reactor.abandon.serve start).news operation.id start =
      { replies := [.started (operation.begin (reactor.feedAt operation.place)).outcome.1
          (operation.begin (reactor.feedAt operation.place)).outcome.2] } := by
    rw [hserve, Response.news, hstarts]
    simp [Stint.map]
  have career : Career reactor.abandon operation.place stage
      (reactor.abandon.serve start).reactor
      ((reactor.serve start).news operation.id start) := by
    rw [hnews, hopening, hserve]
    exact .intro hstage
  exact career.after lasts rfl hosts' (sourceId?_abandon reactor) hshadow tended

/-- A parse that may read something goes from stage to stage. -/
theorem stages_of_clear {reactor : Reactor ν ε} {operation : Operation ν ε}
    (clear : reactor.Clear operation.id operation.place) (hosts : reactor.Hosts operation.place)
    {start : Request ν ε}
    (hparse : start.parse? (reactor.readSizeAt operation.place) = some operation)
    (hread : operation.readSize ≠ 0) {history : List (Request ν ε)}
    (tended : ∀ request ∈ history, request.Tends reactor operation.id operation.place) :
    ∃ alone,
      Shadow reactor operation.id operation.place (reactor.after (start :: history)) alone ∧
      Career reactor.abandon operation.place
        (operation.Stage (reactor.feedAt operation.place)) alone
        (reactor.news operation.id (start :: history)) := by
  obtain ⟨-, hbefore⟩ := Request.starts?_of_parse? hparse
  exact career_of_clear (operation.stage_lasts _) clear hosts (.begin hbefore hread _) hparse tended

end Reactor

end StreamParse
