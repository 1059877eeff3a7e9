import StreamParse.Proofs.Reactor.Lockstep
import StreamParse.Reactor.Request

/-!
# Stints

Between two waits an operation sees nothing of the reactor but the source and the buffer at its own
place.  What it does there is a stint: a function of that feed, which tells an outcome, leaves a feed
and may leave something behind, an entry of the queue or a read that its source holds.  A reactor that
starts an operation, or carries out its entry, puts the stint into effect and does nothing else.

A stint accounts for its operation exactly once: the operation has completed, or has broken down, or
has left one thing behind.
-/

namespace StreamParse

variable {ν ε α β : Type}

/-- What an operation leaves behind that will go on. -/
inductive Remnant (ν ε : Type) where
  | queued (task : Task ν ε)
  /-- A read that its source holds. -/
  | held (waiter : Waiter ν ε)

structure Stint (ν ε α : Type) where
  outcome : α
  feed : Feed
  remnant : Option (Remnant ν ε) := none

def Stint.map (f : α → β) (stint : Stint ν ε α) : Stint ν ε β :=
  { outcome := f stint.outcome, feed := stint.feed, remnant := stint.remnant }

/-- Where a waiter goes on when its read has ended, if it does. -/
def Waiter.place? : Waiter ν ε → Option Place
  | parse operation => some operation.place
  | read _ => none

/-- Where an entry is carried out, if not just anywhere. -/
def Task.place? : Task ν ε → Option Place
  | finish _ _ _ => none
  | arrive waiter _ => waiter.place?

namespace Remnant

def id : Remnant ν ε → Nat
  | queued task => task.id
  | held waiter => waiter.id

def place? : Remnant ν ε → Option Place
  | queued task => task.place?
  | held waiter => waiter.place?

/-- What remains of a waiter whose read was started. -/
def ofRead (waiter : Waiter ν ε) : Option Delivery → Remnant ν ε
  | some delivery => queued (.arrive waiter delivery)
  | none => held waiter

@[simp]
theorem id_ofRead (waiter : Waiter ν ε) (delivery? : Option Delivery) :
    (ofRead waiter delivery?).id = waiter.id := by
  cases delivery? <;> rfl

@[simp]
theorem place?_ofRead (waiter : Waiter ν ε) (delivery? : Option Delivery) :
    (ofRead waiter delivery?).place? = waiter.place? := by
  cases delivery? <;> rfl

end Remnant

/-! ## What operations do -/

/-- Starts a read into an area.  The bytes that it will bring are behind the window. -/
def Feed.startRead (feed : Feed) (area : Area) : Option Delivery × Feed :=
  let (delivery?, source) := feed.source.startRead area.size.toNat
  (delivery?, { source, buffer :=
    feed.buffer.fill area ((delivery?.map Delivery.bytes).getD []) })

variable [Allocator]

namespace Operation

/-- One look, and the start of a read if the parser starves. -/
def drive (operation : Operation ν ε) (feed : Feed) :
    Stint ν ε (Option (Except Fault (Result ν ε)) × List (Event ν ε)) :=
  let outcome := operation.parser feed.buffer.window
  let operation := operation.record (.look feed.buffer outcome)
  match feed.buffer.turn operation.readSize outcome with
  | (.ended answer, buffer) =>
      { outcome := (some answer, operation.transcript), feed := { feed with buffer } }
  | (.reads area, buffer) =>
      let (delivery?, feed) := Feed.startRead { feed with buffer } area
      { outcome := (none, operation.transcript), feed,
        remnant := some (.ofRead (.parse operation) delivery?) }

/-- The stint inside the call that starts the operation. -/
def begin (operation : Operation ν ε) (feed : Feed) :
    Stint ν ε (Except Fault Unit × List (Event ν ε)) :=
  if operation.readSize = 0 then { outcome := (.error .zeroReadSize, []), feed }
  else
    match operation.drive feed with
    | { outcome := (none, events), feed, remnant } =>
        { outcome := (.ok (), events), feed, remnant }
    | { outcome := (some (.ok result), events), feed, .. } =>
        { outcome := (.ok (), events), feed,
          remnant := some (.queued (.finish operation.id events result)) }
    | { outcome := (some (.error fault), events), feed, .. } =>
        { outcome := (.error fault, events), feed }

/-- The stint of an operation whose read has ended. -/
def resume (operation : Operation ν ε) (delivery : Delivery) (feed : Feed) :
    Stint ν ε (Except (Breakdown ν ε) (Option (Completion ν ε))) :=
  let operation := operation.record (.read delivery)
  let feed := { feed with buffer := feed.buffer.commit delivery.bytes.length.toUInt64 }
  if delivery.code.failed then
    { outcome := .ok (some (.parsed operation.id operation.transcript
        (.failed (.ofRead delivery.code)))), feed }
  else
    (operation.drive feed).map fun
      | (none, _) => .ok none
      | (some (.ok result), events) => .ok (some (.parsed operation.id events result))
      | (some (.error fault), events) => .error { id := operation.id, transcript := events, fault }

end Operation

/-- The stint that starts a read of raw bytes. -/
def Session.beginRead (id : Nat) (room : Nat) (feed : Feed) : Stint ν ε Unit :=
  if feed.buffer.size = 0 then
    let (delivery?, source) := feed.source.startRead room
    { outcome := (), feed := { feed with source },
      remnant := some (.ofRead (.read id) delivery?) }
  else
    let (delivery, buffer) := Session.takeBuffered feed.buffer room
    { outcome := (), feed := { feed with buffer },
      remnant := some (.queued (.arrive (.read id) delivery)) }

/-- The stint of an entry of the queue. -/
def Task.perform (task : Task ν ε) (feed : Feed) :
    Stint ν ε (Except (Breakdown ν ε) (Option (Completion ν ε))) :=
  match task with
  | .finish id transcript result => { outcome := .ok (some (.parsed id transcript result)), feed }
  | .arrive (.read id) delivery => { outcome := .ok (some (.read id delivery)), feed }
  | .arrive (.parse operation) delivery => operation.resume delivery feed

/-! ## What a stint accounts for -/

/-- Of an operation one thing is left: the end that the outcome tells, or what goes on.  That is
still at its place, and it is held only by a source that holds its reads. -/
structure Stint.Accounts (stint : Stint ν ε α) (id : Nat) (place : Place) (feed : Feed)
    (ended : List Nat) : Prop where
  once : ended ++ stint.remnant.toList.map Remnant.id = [id]
  placed : ∀ remnant ∈ stint.remnant, ∀ other ∈ remnant.place?, other = place
  held : ∀ waiter, stint.remnant = some (.held waiter) → feed.source.holdsNext = true

omit [Allocator] in
/-- What goes on has not ended. -/
theorem Stint.Accounts.of_remnant {stint : Stint ν ε α} {id : Nat} {place : Place} {feed : Feed}
    {ended : List Nat} (accounts : stint.Accounts id place feed ended) {remnant : Remnant ν ε}
    (hremnant : stint.remnant = some remnant) : ended = [] ∧ remnant.id = id := by
  have honce := accounts.once
  rw [hremnant, Option.toList_some, List.map_singleton] at honce
  cases ended with
  | nil => exact ⟨rfl, List.singleton_inj.mp honce⟩
  | cons other ended => simp at honce

/-- The operation whose end an entry of the queue came to, if it came to one. -/
def endings : Except (Breakdown ν ε) (Option (Completion ν ε)) → List Nat
  | .ok completion? => completion?.toList.map Completion.id
  | .error breakdown => [breakdown.id]

namespace Operation

section Drive

variable {operation : Operation ν ε} {feed : Feed} {buffer : Buffer}

theorem drive_of_ended {answer : Except Fault (Result ν ε)}
    (hturn : feed.buffer.turn operation.readSize (operation.parser feed.buffer.window) =
      (.ended answer, buffer)) :
    operation.drive feed =
      { outcome := (some answer, operation.transcript ++
          [.look feed.buffer (operation.parser feed.buffer.window)])
        feed := { feed with buffer } } := by
  simp only [drive, record, hturn]

theorem drive_of_reads {area : Area}
    (hturn : feed.buffer.turn operation.readSize (operation.parser feed.buffer.window) =
      (.reads area, buffer)) :
    operation.drive feed =
      { outcome := (none, operation.transcript ++
          [.look feed.buffer (operation.parser feed.buffer.window)])
        feed := (Feed.startRead { feed with buffer } area).2
        remnant := some (.ofRead
          (.parse (operation.record (.look feed.buffer (operation.parser feed.buffer.window))))
          (Feed.startRead { feed with buffer } area).1) } := by
  simp only [drive, record, hturn]

end Drive

/-- A look decides, or starts a read, and then the operation waits for it. -/
theorem drive_cases (operation : Operation ν ε) (feed : Feed) :
    (∃ answer events next,
      operation.drive feed = { outcome := (some answer, events), feed := next }) ∨
    ∃ events next delivery?,
      operation.drive feed =
        { outcome := (none, events), feed := next,
          remnant := some (.ofRead (.parse { operation with transcript := events }) delivery?) } ∧
        (delivery? = none → feed.source.holdsNext = true) := by
  rcases hturn : feed.buffer.turn operation.readSize (operation.parser feed.buffer.window) with
    ⟨turn, buffer⟩
  cases turn with
  | ended answer => exact .inl ⟨_, _, _, drive_of_ended hturn⟩
  | reads area =>
      refine .inr ⟨_, _, _, drive_of_reads hturn, ?_⟩
      intro hnone
      by_cases hholds : feed.source.holdsNext
      · exact hholds
      · simp [Feed.startRead, Source.startRead, hholds] at hnone

/-- A parse that is started is refused or broken off in the call, and otherwise goes on. -/
theorem accounts_begin (operation : Operation ν ε) (feed : Feed) :
    (operation.begin feed).Accounts operation.id operation.place feed
      (match (operation.begin feed).outcome.1 with
      | .ok () => []
      | .error _ => [operation.id]) := by
  by_cases hread : operation.readSize = 0
  · rw [begin, if_pos hread]
    exact ⟨rfl, by simp, by simp⟩
  · rw [begin, if_neg hread]
    rcases drive_cases operation feed with
      ⟨answer, events, next, hdrive⟩ | ⟨events, next, delivery?, hdrive, hheld⟩
    · rw [hdrive]
      cases answer with
      | ok result => exact ⟨rfl, by simp [Remnant.place?, Task.place?], by simp⟩
      | error fault => exact ⟨rfl, by simp, by simp⟩
    · rw [hdrive]
      refine ⟨by simp [Waiter.id], by simp [Waiter.place?], ?_⟩
      cases delivery? with
      | none => exact fun _ _ => hheld rfl
      | some delivery => simp [Remnant.ofRead]

/-- A parse that goes on completes, breaks down, or waits for another read. -/
theorem accounts_resume (operation : Operation ν ε) (delivery : Delivery) (feed : Feed) :
    (operation.resume delivery feed).Accounts operation.id operation.place feed
      (endings (operation.resume delivery feed).outcome) := by
  by_cases hfailed : delivery.code.failed
  · simp only [resume, hfailed, if_true]
    exact ⟨rfl, by simp, by simp⟩
  · simp only [resume, hfailed, Bool.false_eq_true, if_false]
    rcases drive_cases (operation.record (.read delivery)) _ with
      ⟨answer, events, next, hdrive⟩ | ⟨events, next, delivery?, hdrive, hheld⟩
    · rw [hdrive]
      cases answer with
      | ok result => exact ⟨rfl, by simp [Stint.map], by simp [Stint.map]⟩
      | error fault => exact ⟨rfl, by simp [Stint.map], by simp [Stint.map]⟩
    · rw [hdrive]
      refine ⟨by simp [Stint.map, endings, Waiter.id, record],
        by simp [Stint.map, Waiter.place?, record], ?_⟩
      cases delivery? with
      | none => exact fun _ _ => hheld rfl
      | some delivery => simp [Stint.map, Remnant.ofRead]

end Operation

omit [Allocator] in
/-- A read that is started goes on in any case. -/
theorem Session.accounts_beginRead (id : Nat) (room : Nat) (place : Place) (feed : Feed) :
    (Session.beginRead id room feed : Stint ν ε Unit).Accounts id place feed [] := by
  by_cases hempty : feed.buffer.size = 0
  · simp only [Session.beginRead, hempty, if_true]
    refine ⟨by simp [Waiter.id], by simp [Waiter.place?], ?_⟩
    intro waiter hremnant
    by_cases hholds : feed.source.holdsNext
    · exact hholds
    · simp [Source.startRead, hholds, Remnant.ofRead] at hremnant
  · simp only [Session.beginRead, hempty, if_false]
    exact ⟨rfl, by simp [Remnant.place?, Task.place?, Waiter.place?], by simp⟩

/-- An entry of the queue is the one thing that its operation has left. -/
theorem Task.accounts_perform (task : Task ν ε) {place : Place} (feed : Feed)
    (hplace : ∀ other ∈ task.place?, other = place) :
    (task.perform feed).Accounts task.id place feed (endings (task.perform feed).outcome) := by
  cases task with
  | finish id transcript result => exact ⟨rfl, by simp [Task.perform], by simp [Task.perform]⟩
  | arrive waiter delivery =>
      cases waiter with
      | read id => exact ⟨rfl, by simp [Task.perform], by simp [Task.perform]⟩
      | parse operation =>
          have hown : operation.place = place := hplace _ rfl
          rw [← hown]
          exact operation.accounts_resume delivery feed

/-! ## What a reactor does -/

namespace Reactor

variable {reactor : Reactor ν ε} {place : Place}

/-- Keeps what an operation at a place has left. -/
def leave (reactor : Reactor ν ε) (place : Place) : Option (Remnant ν ε) → Reactor ν ε
  | none => reactor
  | some (.queued task) => reactor.enqueue task
  | some (.held waiter) => reactor.await place waiter none

/-- Puts a stint at a place into effect. -/
def settle (reactor : Reactor ν ε) (place : Place) (stint : Stint ν ε α) : Reactor ν ε :=
  (reactor.putFeed place stint.feed).leave place stint.remnant

omit [Allocator] in
theorem leave_ofRead (reactor : Reactor ν ε) (place : Place) (waiter : Waiter ν ε)
    (delivery? : Option Delivery) :
    reactor.leave place (some (.ofRead waiter delivery?)) =
      reactor.await place waiter delivery? := by
  cases delivery? <;> rfl

omit [Allocator] in
/-- A read that is held is held by the source of its place. -/
theorem settle_held {stint : Stint ν ε α} {id : Nat} {ended : List Nat}
    (accounts : stint.Accounts id place (reactor.feedAt place) ended) {waiter : Waiter ν ε}
    (hremnant : stint.remnant = some (.held waiter)) :
    ∃ source, reactor.sourceId? place = some source ∧
      reactor.settle place stint = (reactor.putFeed place stint.feed).hold source waiter := by
  have hheld := isSome_sourceId?_of_holdsNext (accounts.held waiter hremnant)
  obtain ⟨source, hsource⟩ := Option.isSome_iff_exists.mp hheld
  refine ⟨source, hsource, ?_⟩
  simp only [settle, hremnant, leave, await, sourceId?_putFeed, hsource]

theorem drive_eq (reactor : Reactor ν ε) (operation : Operation ν ε) :
    reactor.drive operation =
      ((operation.drive (reactor.feedAt operation.place)).outcome.1,
        (operation.drive (reactor.feedAt operation.place)).outcome.2,
        reactor.settle operation.place (operation.drive (reactor.feedAt operation.place))) := by
  rcases hturn : (reactor.feedAt operation.place).buffer.turn operation.readSize
    (operation.parser (reactor.feedAt operation.place).buffer.window) with ⟨turn, buffer⟩
  cases turn with
  | ended answer =>
      rw [Operation.drive_of_ended hturn]
      simp only [drive, Operation.record, hturn]
      rfl
  | reads area =>
      rw [Operation.drive_of_reads hturn, settle, leave_ofRead]
      simp only [drive, Operation.record, hturn]
      rfl

/-- A call that starts a parse puts its first stint into effect. -/
theorem startParse_eq (reactor : Reactor ν ε) (id : Nat) (place : Place) (parser : Parser ν ε)
    (readSize : UInt64) :
    reactor.startParse id place parser readSize =
      let stint := Operation.begin { id, place, parser, readSize } (reactor.feedAt place)
      (stint.outcome.1, stint.outcome.2, reactor.settle place stint) := by
  rw [startParse]
  by_cases hread : readSize = 0
  · simp only [Operation.begin, hread, if_true, settle, putFeed_feedAt]
    rfl
  · simp only [Operation.begin, hread, if_false, drive_eq]
    rcases Operation.drive_cases { id, place, parser, readSize } (reactor.feedAt place) with
      ⟨answer, events, next, hdrive⟩ | ⟨events, next, delivery?, hdrive, _⟩
    · rw [hdrive]
      cases answer <;> rfl
    · rw [hdrive]
      rfl

omit [Allocator] in
theorem startSessionRead_settles (reactor : Reactor ν ε) (id index : Nat) (room : Nat) :
    reactor.startSessionRead id index room =
      reactor.settle (.seat index)
        (Session.beginRead id room (reactor.feedAt (.seat index)) : Stint ν ε Unit) := by
  by_cases hempty : (reactor.feedAt (.seat index)).buffer.size = 0
  · simp only [startSessionRead, Session.beginRead, hempty, if_true, settle, leave_ofRead]
  · simp only [startSessionRead, Session.beginRead, hempty, if_false]
    rfl

/-- An entry whose read has ended puts the next stint of its parse into effect. -/
theorem resume_eq (operation : Operation ν ε) (delivery : Delivery)
    (stands : reactor.Stands operation.place) :
    reactor.resume operation delivery =
      ((operation.resume delivery (reactor.feedAt operation.place)).outcome,
        reactor.settle operation.place
          (operation.resume delivery (reactor.feedAt operation.place))) := by
  have hfeed := feedAt_putFeed_buffer stands
    ((reactor.feedAt operation.place).buffer.commit delivery.bytes.length.toUInt64)
  by_cases hfailed : delivery.code.failed
  · simp only [resume, Operation.resume, hfailed, if_true, Operation.record]
    rfl
  · simp only [resume, Operation.resume, hfailed, Bool.false_eq_true, if_false, drive_eq]
    -- The feed is put back twice, before the look and after it, and the second time counts.
    simp only [Operation.record, hfeed, settle, putFeed_putFeed stands, Stint.map]
    rcases Operation.drive_cases { operation with
        transcript := operation.transcript ++ [.read delivery] } _ with
      ⟨answer, events, next, hdrive⟩ | ⟨events, next, delivery?, hdrive, _⟩
    · rw [hdrive]
      cases answer <;> rfl
    · rw [hdrive]

/-- An entry with a place puts a stint there into effect. -/
theorem perform_eq {task : Task ν ε} (hplace : task.place? = some place)
    (stands : reactor.Stands place) :
    reactor.perform task =
      ((task.perform (reactor.feedAt place)).outcome,
        reactor.settle place (task.perform (reactor.feedAt place))) := by
  cases task with
  | finish id transcript result => exact absurd hplace nofun
  | arrive waiter delivery =>
      cases waiter with
      | read id => exact absurd hplace nofun
      | parse operation =>
          have hown : operation.place = place := Option.some.inj hplace
          subst hown
          exact resume_eq operation delivery stands

/-- An entry without a place only delivers its completion. -/
theorem perform_of_placeless {task : Task ν ε} (hplace : task.place? = none) :
    ∃ completion, completion.id = task.id ∧
      ∀ reactor : Reactor ν ε, reactor.perform task = (.ok (some completion), reactor) := by
  cases task with
  | finish id transcript result => exact ⟨_, rfl, fun _ => rfl⟩
  | arrive waiter delivery =>
      cases waiter with
      | read id => exact ⟨_, rfl, fun _ => rfl⟩
      | parse operation => exact absurd hplace nofun

end Reactor

end StreamParse
