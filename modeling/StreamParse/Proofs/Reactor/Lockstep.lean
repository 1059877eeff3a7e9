import StreamParse.Proofs.Course
import StreamParse.Proofs.Reactor.Places

/-!
# In step with the queue

An operation of a reactor goes through the course of the parse that waits for its reads.  Each
read of the course is one entry of the queue: the bytes are written when the read is started and
join the window when the entry is carried out, and between the two nobody looks.  So the run that
empties the queue ends where the course ends, with the same feed and the same transcript.

The entries are counted from the bytes: where every read that succeeds brings one, the reactor is
prepared to carry out as many entries as there will be.
-/

namespace StreamParse

variable {ν ε : Type}

/-- Every read that succeeds brings a byte. -/
def Event.Fruitful (transcript : List (Event ν ε)) : Prop :=
  ∀ delivery ∈ Event.deliveries transcript, delivery.code.failed = false → delivery.bytes ≠ []

instance (transcript : List (Event ν ε)) : Decidable (Event.Fruitful transcript) :=
  inferInstanceAs (Decidable (∀ delivery ∈ Event.deliveries transcript, _ → _))

namespace Source

theorem length_unread_lt_patience (source : Source) :
    source.unread.length < source.patience := by
  rw [patience, Nat.add_assoc, Nat.add_assoc]
  exact Nat.lt_add_of_pos_right (Nat.succ_pos _)

/-- A source that does not hold its end does at once what a read does. -/
theorem startRead_of_ends {source : Source} (hend : source.atEnd ≠ .hold) (room : Nat) :
    source.startRead room = (some (source.read room).1, (source.read room).2) := by
  have hnever : source.holdsNext = false := by
    rw [holdsNext, beq_eq_false_iff_ne.mpr hend, Bool.false_and, Bool.false_and]
  rw [startRead, hnever]
  rfl

end Source

namespace Feed

variable [Allocator] {parser : Parser ν ε} {readSize : UInt64}

/-- What a read brings is taken from the unread bytes. -/
theorem Reads.length_unread {feed next : Feed} {delivery : Delivery} (hread : readSize ≠ 0)
    (hreads : Reads parser readSize feed delivery next) :
    delivery.bytes.length + next.source.unread.length = feed.source.unread.length := by
  obtain ⟨room, _, hdelivery, hsource⟩ := hreads.source hread
  rw [hdelivery, hsource, ← List.length_append, Source.read_unread]

/-- A read that brings a byte leaves fewer of them. -/
theorem Reads.length_unread_lt {feed next : Feed} {delivery : Delivery} (hread : readSize ≠ 0)
    (hreads : Reads parser readSize feed delivery next) (hbytes : delivery.bytes ≠ []) :
    next.source.unread.length < feed.source.unread.length := by
  rw [← hreads.length_unread hread]
  exact Nat.lt_add_of_pos_left (List.length_pos_iff.mpr hbytes)

/-- Where every read that succeeds brings a byte, there is one read at most for each unread byte,
and one that fails. -/
theorem Course.length_deliveries_le {feed last : Feed} {transcript : List (Event ν ε)}
    {answer : Except Fault (Result ν ε)} (hread : readSize ≠ 0)
    (hcourse : Course parser readSize feed transcript answer last)
    (fruitful : Event.Fruitful transcript) :
    (Event.deliveries transcript).length ≤ feed.source.unread.length + 1 := by
  induction hcourse with
  | ended _ => exact Nat.zero_le _
  | failed _ _ => exact Nat.le_add_left _ _
  | @received feed next last delivery events answer hreads hreceived _ ih =>
      have hbytes : delivery.bytes ≠ [] := fruitful delivery List.mem_cons_self hreceived
      have hrest := ih fun delivery hmem => fruitful delivery (List.mem_cons_of_mem _ hmem)
      have hless := hreads.length_unread_lt hread hbytes
      calc
        (Event.deliveries events).length + 1 ≤ next.source.unread.length + 1 + 1 :=
          Nat.succ_le_succ hrest
        _ ≤ feed.source.unread.length + 1 := Nat.succ_le_succ hless

/-- A parse whose reads bring bytes has an answer. -/
theorem parseWithin_answers_of_fruitful {turns : Nat} {feed : Feed} (hread : readSize ≠ 0)
    (fruitful : Event.Fruitful (parseWithin parser readSize turns feed).transcript)
    (hturns : feed.source.unread.length < turns) :
    ∃ answer, (parseWithin parser readSize turns feed).answer = some answer := by
  induction turns generalizing feed with
  | zero => exact absurd hturns (Nat.not_lt_zero _)
  | succ turns ih =>
      rcases hturn : feed.buffer.turn readSize (parser feed.buffer.window) with ⟨turn, buffer⟩
      cases turn with
      | ended other =>
          rw [parseWithin_ended turns hturn]
          exact ⟨other, rfl⟩
      | reads area =>
          cases hfailed : (receive { feed with buffer } area).1.code.failed with
          | true =>
              rw [parseWithin_failed turns hturn hfailed]
              exact ⟨_, rfl⟩
          | false =>
              rw [parseWithin_received turns hturn hfailed] at fruitful ⊢
              have hreads : Reads parser readSize feed _ _ := .intro hturn
              have hless := hreads.length_unread_lt hread
                (fruitful _ List.mem_cons_self hfailed)
              apply ih
              · intro delivery hmem
                exact fruitful delivery (List.mem_cons_of_mem _ hmem)
              · exact Nat.lt_of_lt_of_le hless (Nat.le_of_lt_succ hturns)

theorem parse_answers_of_fruitful {feed : Feed} (parser : Parser ν ε) (readSize : UInt64)
    (fruitful : Event.Fruitful (feed.parse parser readSize).transcript) :
    ∃ answer, (feed.parse parser readSize).answer = some answer := by
  by_cases hread : readSize = 0
  · rw [hread, parse_zero]
    exact ⟨_, rfl⟩
  · rw [parse_of_ne_zero feed parser hread] at fruitful ⊢
    apply parseWithin_answers_of_fruitful hread fruitful
    calc
      feed.source.unread.length < feed.source.patience :=
        feed.source.length_unread_lt_patience
      _ ≤ feed.source.turns := Nat.le_add_right _ _

/-- A feed between the start of a read and its end: the bytes are behind the window. -/
def written (feed : Feed) (area : Area) : Feed where
  source := (feed.receive area).2.source
  buffer := feed.buffer.fill area (feed.receive area).1.bytes

end Feed

namespace Reactor

variable [Allocator] {parser : Parser ν ε} {readSize : UInt64}
variable {reactor : Reactor ν ε} {place : Place}

/-! ## The queue -/

/-- With an empty queue there is nothing to carry out. -/
theorem run_of_idle (hidle : reactor.queue = []) (count : Nat) :
    reactor.run count = { reactor } := by
  cases count with
  | zero => rfl
  | succ count => simp [run, hidle]

/-- The progress of a run whose first entry came to this. -/
def behind (count : Nat) :
    Except (Breakdown ν ε) (Option (Completion ν ε)) × Reactor ν ε → Progress ν ε
  | (.error breakdown, reactor) => { reactor, breakdown := some breakdown }
  | (.ok completion, reactor) =>
      { reactor.run count with
        ran := (reactor.run count).ran + 1
        completions := completion.toList ++ (reactor.run count).completions }

/-- The first entry is carried out with the others still behind it. -/
theorem run_succ {task : Task ν ε} {queue : List (Task ν ε)}
    (hqueue : reactor.queue = task :: queue) (count : Nat) :
    reactor.run (count + 1) = behind count (perform { reactor with queue } task) := by
  rw [run, hqueue]
  dsimp only
  rcases perform { reactor with queue } task with ⟨breakdown | completion, next⟩ <;> rfl

/-- An entry with nothing in front of it is the first to be carried out. -/
theorem run_enqueue (hidle : reactor.queue = []) (task : Task ν ε) (count : Nat) :
    (reactor.enqueue task).run (count + 1) = behind count (reactor.perform task) := by
  have hqueue : (reactor.enqueue task).queue = [task] := by simp [enqueue, hidle]
  have hpopped : { reactor.enqueue task with queue := [] } = reactor := by simp [enqueue, ← hidle]
  rw [run_succ hqueue, hpopped]

/-- A queue that has run empty stays so. -/
theorem run_eq_of_idle {count more : Nat} (hidle : (reactor.run count).reactor.queue = [])
    (hmore : count ≤ more) : reactor.run more = reactor.run count := by
  induction count generalizing reactor more with
  | zero => exact run_of_idle hidle more
  | succ count ih =>
      obtain ⟨more, rfl⟩ : ∃ less, more = less + 1 := ⟨more - 1, by omega⟩
      cases hqueue : reactor.queue with
      | nil => rw [run_of_idle hqueue, run_of_idle hqueue]
      | cons task queue =>
          rw [run_succ hqueue] at hidle ⊢
          rw [run_succ hqueue]
          generalize perform { reactor with queue } task = performed at hidle ⊢
          rcases performed with ⟨breakdown | completion, next⟩
          · rfl
          · rw [behind, behind, ih hidle (Nat.le_of_succ_le_succ hmore)]

/-- A run that meets no fault may be cut in two. -/
theorem run_add {count : Nat} (hgoes : (reactor.run count).breakdown = none) (more : Nat) :
    reactor.run (count + more) =
      { (reactor.run count).reactor.run more with
        ran := (reactor.run count).ran + ((reactor.run count).reactor.run more).ran
        completions := (reactor.run count).completions ++
          ((reactor.run count).reactor.run more).completions } := by
  induction count generalizing reactor with
  | zero => simp [run]
  | succ count ih =>
      cases hqueue : reactor.queue with
      | nil => simp [run_of_idle hqueue]
      | cons task queue =>
          rw [Nat.succ_add, run_succ hqueue, run_succ hqueue]
          rw [run_succ hqueue] at hgoes
          generalize perform { reactor with queue } task = performed at hgoes ⊢
          rcases performed with ⟨breakdown | completion, next⟩
          · exact absurd hgoes (Option.some_ne_none _)
          · simp only [behind, ih hgoes, List.append_assoc, Nat.add_right_comm]

/-- An entry that only delivers its completion leaves the queue empty. -/
theorem drain_enqueue (hidle : reactor.queue = []) {task : Task ν ε} {completion : Completion ν ε}
    (hperform : reactor.perform task = (.ok (some completion), reactor)) :
    (reactor.enqueue task).drain = { reactor, ran := 1, completions := [completion] } := by
  rw [drain, depth, run_enqueue hidle, hperform, behind, run_of_idle hidle]
  rfl

/-! ## One turn -/

omit [Allocator] in
/-- A read that is started waits in the queue. -/
theorem startRead_eq (waiter : Waiter ν ε) {feed : Feed} (hend : feed.source.atEnd ≠ .hold)
    (area : Area) :
    reactor.startRead place feed area waiter =
      (reactor.putFeed place (feed.written area)).enqueue
        (.arrive waiter (feed.receive area).1) := by
  rw [startRead, Source.startRead_of_ends hend]
  rfl

section Turn

variable {id : Nat} {before : List (Event ν ε)} {feed : Feed} {buffer : Buffer}

theorem drive_ended {answer : Except Fault (Result ν ε)} (hfeed : reactor.feedAt place = feed)
    (hturn : feed.buffer.turn readSize (parser feed.buffer.window) = (.ended answer, buffer)) :
    reactor.drive { id, place, parser, readSize, transcript := before } =
      (some answer, before ++ [.look feed.buffer (parser feed.buffer.window)],
        reactor.putFeed place { feed with buffer }) := by
  subst hfeed
  simp [drive, Operation.record, hturn]

theorem drive_reads {area : Area} (hfeed : reactor.feedAt place = feed)
    (hend : feed.source.atEnd ≠ .hold)
    (hturn : feed.buffer.turn readSize (parser feed.buffer.window) = (.reads area, buffer)) :
    reactor.drive { id, place, parser, readSize, transcript := before } =
      (none, before ++ [.look feed.buffer (parser feed.buffer.window)],
        (reactor.putFeed place (Feed.written { feed with buffer } area)).enqueue
          (.arrive
            (.parse
              { id, place, parser, readSize, transcript :=
                  before ++ [.look feed.buffer (parser feed.buffer.window)] })
            (Feed.receive { feed with buffer } area).1)) := by
  subst hfeed
  have hstart := fun waiter : Waiter ν ε =>
    @startRead_eq ν ε reactor place waiter { reactor.feedAt place with buffer } hend area
  simp only [drive, Operation.record, hturn, hstart]

/-- What the entry of a read comes to when its operation has gone through the next turn. -/
def conclude (id : Nat) :
    Option (Except Fault (Result ν ε)) × List (Event ν ε) × Reactor ν ε →
      Except (Breakdown ν ε) (Option (Completion ν ε)) × Reactor ν ε
  | (none, _, reactor) => (.ok none, reactor)
  | (some (.ok result), events, reactor) => (.ok (some (.parsed id events result)), reactor)
  | (some (.error fault), events, reactor) => (.error { id, transcript := events, fault }, reactor)

/-- When the entry of a read is carried out its bytes join the window, also those of a failure. -/
theorem resume_failed {area : Area} (hosts : reactor.Hosts place)
    (hfailed : (feed.receive area).1.code.failed = true) :
    (reactor.putFeed place (feed.written area)).resume
        { id, place, parser, readSize, transcript := before } (feed.receive area).1 =
      (.ok (some (.parsed id (before ++ [.read (feed.receive area).1])
          (.failed (.ofRead (feed.receive area).1.code)))),
        reactor.putFeed place (feed.receive area).2) := by
  simp only [resume, Operation.record, feedAt_putFeed hosts, putFeed_putFeed hosts.stands, hfailed]
  rfl

theorem resume_received {area : Area} (hosts : reactor.Hosts place)
    (hreceived : (feed.receive area).1.code.failed = false) :
    (reactor.putFeed place (feed.written area)).resume
        { id, place, parser, readSize, transcript := before } (feed.receive area).1 =
      conclude id ((reactor.putFeed place (feed.receive area).2).drive
        { id, place, parser, readSize, transcript :=
            before ++ [.read (feed.receive area).1] }) := by
  have hnext : { feed.written area with
      buffer := (feed.written area).buffer.commit (feed.receive area).1.bytes.length.toUInt64 } =
      (feed.receive area).2 := rfl
  simp only [resume, Operation.record, feedAt_putFeed hosts, putFeed_putFeed hosts.stands,
    hreceived, hnext]
  rcases drive _ _ with ⟨_ | fault | result, events, next⟩ <;> rfl

end Turn

/-! ## The whole course -/

/-- What a run of the queue has to show for an operation that came to an answer: a completion, or
the operation that broke down and no completion. -/
inductive Settles (id : Nat) (transcript : List (Event ν ε)) (last : Reactor ν ε) :
    Except Fault (Result ν ε) → Progress ν ε → Prop
  | completed (result : Result ν ε) (ran : Nat) :
      Settles id transcript last (.ok result)
        { reactor := last, ran, completions := [.parsed id transcript result] }
  | broken (fault : Fault) (ran : Nat) :
      Settles id transcript last (.error fault)
        { reactor := last, ran, breakdown := some { id, transcript, fault } }

/-- The turn with which an operation goes through the rest of its course: without a read it has its
answer at once, and otherwise the run of the queue will have it. -/
inductive Starts (id : Nat) (transcript before : List (Event ν ε)) (last : Reactor ν ε)
    (answer : Except Fault (Result ν ε)) :
    Option (Except Fault (Result ν ε)) × List (Event ν ε) × Reactor ν ε → Prop
  | settled (hreads : Event.deliveries transcript = []) :
      Starts id transcript before last answer (some answer, before ++ transcript, last)
  | waiting {shown : List (Event ν ε)} {reactor : Reactor ν ε}
      (hreads : Event.deliveries transcript ≠ [])
      (hdepth : (Event.deliveries transcript).length ≤ reactor.depth)
      (hrun : ∀ count, (Event.deliveries transcript).length ≤ count →
        Settles id (before ++ transcript) last answer (reactor.run count)) :
      Starts id transcript before last answer (none, shown, reactor)

/-- An entry whose operation goes on is followed by the rest of the course. -/
theorem settles_of_starts {id : Nat} {transcript before : List (Event ν ε)} {last : Reactor ν ε}
    {answer : Except Fault (Result ν ε)} (hidle : last.queue = []) {count : Nat}
    {driven : Option (Except Fault (Result ν ε)) × List (Event ν ε) × Reactor ν ε}
    (hstarts : Starts id transcript before last answer driven)
    (hcount : (Event.deliveries transcript).length ≤ count) :
    Settles id (before ++ transcript) last answer (behind count (conclude id driven)) := by
  cases hstarts with
  | settled hreads =>
      cases answer with
      | error fault => exact .broken fault 0
      | ok result =>
          rw [conclude, behind, run_of_idle hidle]
          exact .completed result 1
  | @waiting shown reactor hreads hdepth hrun =>
      have hsettles := hrun count hcount
      rw [conclude, behind]
      generalize reactor.run count = progress at hsettles ⊢
      cases hsettles with
      | completed result ran => exact .completed result (ran + 1)
      | broken fault ran => exact .broken fault (ran + 1)

omit [Allocator] in
/-- The reactor is prepared for the reads that follow the one it waits for. -/
theorem length_le_depth {feed : Feed} {reads : Nat} (hosts : reactor.Hosts place)
    (task : Task ν ε) (hreads : reads ≤ feed.source.unread.length + 1) :
    reads + 1 ≤ ((reactor.putFeed place feed).enqueue task).depth := by
  have hosts' := (hosts_putFeed reactor place feed place).mpr hosts
  have hturns := turns_feedAt_le hosts'
  rw [feedAt_putFeed hosts feed] at hturns
  calc
    reads + 1 ≤ feed.source.patience + 1 :=
      Nat.succ_le_succ (Nat.le_trans hreads feed.source.length_unread_lt_patience)
    _ ≤ feed.source.turns + 1 := Nat.add_le_add_right (Nat.le_add_right _ _) 1
    _ ≤ (reactor.putFeed place feed).turns + 1 := Nat.add_le_add_right hturns 1
    _ ≤ ((reactor.putFeed place feed).enqueue task).depth :=
      Nat.add_le_add_right (Nat.le_add_left _ _) 1

/-- An operation goes through the course of the parse. -/
theorem starts_of_course {feed last : Feed} {transcript : List (Event ν ε)}
    {answer : Except Fault (Result ν ε)} (hread : readSize ≠ 0)
    (hcourse : Feed.Course parser readSize feed transcript answer last)
    (fruitful : Event.Fruitful transcript) (hosts : reactor.Hosts place)
    (hfeed : reactor.feedAt place = feed) (hend : feed.source.atEnd ≠ .hold)
    (hidle : reactor.queue = []) (id : Nat) (before : List (Event ν ε)) :
    Starts id transcript before (reactor.putFeed place last) answer
      (reactor.drive { id, place, parser, readSize, transcript := before }) := by
  induction hcourse generalizing reactor before with
  | ended hturn =>
      rw [drive_ended hfeed hturn]
      exact .settled rfl
  | @failed feed next delivery hreads hfailed =>
      cases hreads with
      | @intro area buffer hturn =>
          rw [drive_reads hfeed hend hturn]
          refine .waiting (List.cons_ne_nil _ _) (length_le_depth hosts _ (Nat.zero_le _)) ?_
          have hidle' : ∀ feed, (reactor.putFeed place feed).queue = [] := by
            intro feed
            rw [queue_putFeed, hidle]
          intro count hcount
          cases count with
          | zero => exact absurd hcount (Nat.not_succ_le_zero _)
          | succ count =>
              rw [run_enqueue (hidle' _), perform, resume_failed hosts hfailed, behind,
                run_of_idle (hidle' _), List.append_assoc]
              exact .completed _ _
  | @received feed next last delivery events answer hreads hreceived hrest ih =>
      cases hreads with
      | @intro area buffer hturn =>
          rw [drive_reads hfeed hend hturn]
          have fruitful' : Event.Fruitful events := by
            intro delivery hmem
            exact fruitful delivery (List.mem_cons_of_mem _ hmem)
          have hidle' : ∀ feed, (reactor.putFeed place feed).queue = [] := by
            intro feed
            rw [queue_putFeed, hidle]
          have hend' : (Feed.receive { feed with buffer } area).2.source.atEnd ≠ .hold := by
            rw [Feed.source_receive, Source.atEnd_read]
            exact hend
          have hlength := hrest.length_deliveries_le hread fruitful'
          refine .waiting (List.cons_ne_nil _ _) (length_le_depth hosts _ hlength) ?_
          have hstarts := ih fruitful' ((hosts_putFeed reactor place _ place).mpr hosts)
            (feedAt_putFeed hosts _) hend' (hidle' _)
            (before ++ [.look feed.buffer (parser feed.buffer.window)] ++
              [.read (Feed.receive { feed with buffer } area).1])
          rw [putFeed_putFeed hosts.stands] at hstarts
          intro count hcount
          cases count with
          | zero => exact absurd hcount (Nat.not_succ_le_zero _)
          | succ count =>
              have hsettles := settles_of_starts (hidle' _) hstarts (Nat.le_of_succ_le_succ hcount)
              rw [List.append_assoc, List.append_assoc] at hsettles
              rw [run_enqueue (hidle' _), perform, resume_received hosts hreceived]
              exact hsettles

end Reactor

end StreamParse
