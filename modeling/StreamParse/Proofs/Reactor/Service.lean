import StreamParse.Proofs.Conservation
import StreamParse.Proofs.Reactor.Apart
import StreamParse.Proofs.Reactor.Stint

/-!
# What requests do to operations

Most requests keep every operation where it is, and change no more than the sources and buffers that
they name.  The others start an operation, run the queue, cancel a read or give everything up.  Seats
stay where they are: a seat that is moved would leave the operations on it behind.
-/

namespace StreamParse

variable {ν ε : Type}

namespace Request

/-- The identifier and the place of the operation that a request starts. -/
def starts? : Request ν ε → Option (Nat × Place)
  | start id source index _ _ => some (id, .listed source index)
  | startSessionParse id seat _ => some (id, .seat seat)
  | startSessionRead id seat _ => some (id, .seat seat)
  | _ => none

/-- The first stint of the operation that a request starts. -/
def stint [Allocator] (readSize : UInt64) (feed : Feed) : Request ν ε → Stint ν ε (Reply ν ε)
  | start id source index parser readSize =>
      (Operation.begin { id, place := .listed source index, parser, readSize } feed).map
        fun (answer, events) => .started answer events
  | startSessionParse id seat parser =>
      (Operation.begin { id, place := .seat seat, parser, readSize } feed).map
        fun (answer, events) => .started answer events
  | startSessionRead id _ sizes =>
      (Session.beginRead id (sizes.foldr (· + ·) 0) feed).map fun () => .readStarted
  | _ => { outcome := .silent, feed }

/-- Whether a request moves a seat. -/
def movesSeat : Request ν ε → Bool
  | moveSeat _ => true
  | assignSeat _ _ => true
  | _ => false

/-- The buffers that a request names. -/
def bufferIds : Request ν ε → List BufferId
  | buffer index _ | look index _ _ | moveBuffer index => [.listed index]
  | assignBuffer index target => [.listed index, .listed target]
  | refill _ index _ | parse _ index _ _ _ | start _ _ index _ _ => [.listed index]
  | session seat _ | startSessionParse _ seat _ | startSessionRead _ seat _ => [.owned seat]
  | _ => []

/-- The sources that a request names, itself or by a seat. -/
def sourceIds (reactor : Reactor ν ε) : Request ν ε → List SourceId
  | refill source _ _ | parse source _ _ _ _ | start _ source _ _ _ | cancelSource source =>
      [.listed source]
  | session seat _ | startSessionParse _ seat _ | startSessionRead _ seat _ | cancelSeat seat =>
      (reactor.sourceId? (.seat seat)).toList
  | _ => []

/-- A request that has nothing to do with what a place is made of. -/
def Avoids (request : Request ν ε) (reactor : Reactor ν ε) (place : Place) : Prop :=
  place.bufferId ∉ request.bufferIds ∧
    ∀ source ∈ reactor.sourceId? place, source ∉ request.sourceIds reactor

instance (request : Request ν ε) (reactor : Reactor ν ε) (place : Place) :
    Decidable (request.Avoids reactor place) :=
  inferInstanceAs (Decidable (_ ∧ _))

end Request

/-- The operation that could not be started. -/
def Reply.broken (id : Nat) : Reply ν ε → List Nat
  | started (.error _) _ => [id]
  | _ => []

theorem Request.accounts_stint [Allocator] {request : Request ν ε} {id : Nat} {place : Place}
    (hstarts : request.starts? = some (id, place)) (readSize : UInt64) (feed : Feed) :
    (request.stint readSize feed).Accounts id place feed
      ((request.stint readSize feed).outcome.broken id) := by
  have hparse : ∀ operation : Operation ν ε,
      ((operation.begin feed).map fun (answer, events) => Reply.started answer events).Accounts
        operation.id operation.place feed
        ((Reply.started (operation.begin feed).outcome.1
          (operation.begin feed).outcome.2).broken operation.id) := by
    intro operation
    have accounts := operation.accounts_begin feed
    rcases hanswer : (operation.begin feed).outcome.1 with fault | _
    · rw [hanswer] at accounts
      exact ⟨accounts.once, accounts.placed, accounts.held⟩
    · rw [hanswer] at accounts
      exact ⟨accounts.once, accounts.placed, accounts.held⟩
  cases request with
  | start _ source buffer parser readSize =>
      cases hstarts
      exact hparse { id, place := .listed source buffer, parser, readSize }
  | startSessionParse _ seat parser =>
      cases hstarts
      exact hparse { id, place := .seat seat, parser, readSize }
  | startSessionRead _ seat sizes =>
      cases hstarts
      have accounts := @Session.accounts_beginRead ν ε id (sizes.foldr (· + ·) 0) (.seat seat) feed
      exact ⟨accounts.once, accounts.placed, accounts.held⟩
  | _ => cases hstarts

/-- Whoever starts an operation is told so. -/
theorem Request.outcome_stint_ne [Allocator] {request : Request ν ε} {id : Nat} {place : Place}
    (hstarts : request.starts? = some (id, place)) (readSize : UInt64) (feed : Feed) :
    (request.stint readSize feed).outcome ≠ .unknown := by
  cases request with
  | start => exact nofun
  | startSessionParse => exact nofun
  | startSessionRead => exact nofun
  | _ => cases hstarts

namespace Reactor

/-- The next reactor has the same operations, and they are where they were. -/
structure Keeps (reactor next : Reactor ν ε) : Prop where
  queue : next.queue = reactor.queue
  held : next.held = reactor.held
  sourceId? : ∀ place, next.sourceId? place = reactor.sourceId? place
  stands : ∀ place, reactor.Stands place → next.Stands place

/-- And a request has changed nothing else than what it names. -/
structure Minds (request : Request ν ε) (reactor next : Reactor ν ε) : Prop
    extends Keeps reactor next where
  cells : ∀ place, reactor.Stands place → request.Avoids reactor place →
    next.cells place = reactor.cells place

/-- The read that a request cancels. -/
def cancels? (reactor : Reactor ν ε) : Request ν ε → Option SourceId
  | .cancelSource source => some (.listed source)
  | .cancelSeat index => reactor.sourceId? (.seat index)
  | _ => none

theorem mem_sourceIds_of_cancels? {reactor : Reactor ν ε} {request : Request ν ε}
    {source : SourceId} (hcancels : reactor.cancels? request = some source) :
    source ∈ request.sourceIds reactor := by
  cases request with
  | cancelSource index =>
      cases hcancels
      exact List.mem_cons_self
  | cancelSeat index => exact Option.mem_toList.mpr hcancels
  | _ => exact absurd hcancels nofun

/-- An operation that is started at a place that the request avoids is started apart from it. -/
theorem apart_of_avoids {reactor : Reactor ν ε} {request : Request ν ε} {id : Nat}
    {place other : Place} (hstarts : request.starts? = some (id, other))
    (avoids : request.Avoids reactor place) : reactor.Apart place other := by
  obtain ⟨hbuffer, hsource⟩ := avoids
  cases request with
  | start | startSessionParse | startSessionRead =>
      cases hstarts
      refine ⟨List.ne_of_not_mem_cons hbuffer, ?_⟩
      intro source hmem
      simpa [Request.sourceIds, Reactor.sourceId?, eq_comm] using hsource source hmem
  | _ => cases hstarts

variable {reactor : Reactor ν ε} {request : Request ν ε}

/-! ## Quiet requests -/

theorem Minds.refl (request : Request ν ε) (reactor : Reactor ν ε) :
    Minds request reactor reactor where
  queue := rfl
  held := rfl
  sourceId? _ := rfl
  stands _ := id
  cells _ _ _ := rfl

theorem keeps_putFeed (reactor : Reactor ν ε) (place : Place) (feed : Feed) :
    Keeps reactor (reactor.putFeed place feed) where
  queue := queue_putFeed reactor place feed
  held := held_putFeed reactor place feed
  sourceId? := sourceId?_putFeed reactor place feed
  stands other := (stands_putFeed reactor place feed other).mpr

theorem Keeps.outstanding {next : Reactor ν ε} (keeps : Keeps reactor next) :
    next.outstanding = reactor.outstanding := by
  rw [Reactor.outstanding, keeps.queue, keeps.held]
  rfl

theorem minds_putFeed (place : Place) (hbuffer : place.bufferId ∈ request.bufferIds)
    (hsource : ∀ source ∈ reactor.sourceId? place, source ∈ request.sourceIds reactor)
    (feed : Feed) : Minds request reactor (reactor.putFeed place feed) where
  toKeeps := keeps_putFeed reactor place feed
  cells other _ avoids := by
    apply cells_putFeed_of_apart
    refine ⟨?_, ?_⟩
    · intro hsame
      exact avoids.1 (hsame ▸ hbuffer)
    · intro source hmem hplace
      exact avoids.2 source hmem (hsource source hplace)

theorem minds_putListed {source index : Nat} (hbuffer : .listed index ∈ request.bufferIds)
    (hsource : .listed source ∈ request.sourceIds reactor) (feed : Feed) :
    Minds request reactor (reactor.putFeed (.listed source index) feed) := by
  apply minds_putFeed _ hbuffer
  rintro _ ⟨⟩
  exact hsource

theorem minds_setBuffer {index : Nat} (hbuffer : .listed index ∈ request.bufferIds)
    (buffer : Buffer) : Minds request reactor (reactor.setBuffer index buffer) where
  queue := rfl
  held := rfl
  sourceId? place := by cases place <;> rfl
  stands place := by cases place <;> simp [Stands, setBuffer]
  cells place _ avoids := by
    apply cells_eq_of_getElem?_eq
    · exact fun _ _ => rfl
    · intro other hown
      have hne : index ≠ other := by
        rintro rfl
        exact avoids.1 (hown ▸ hbuffer)
      exact List.getElem?_set_ne hne
    · exact fun _ _ => rfl

theorem minds_addBuffers (buffers : List Buffer) :
    Minds request reactor { reactor with buffers := reactor.buffers ++ buffers } where
  queue := rfl
  held := rfl
  sourceId? place := by cases place <;> rfl
  stands place stands := by
    cases place with
    | listed source index =>
        refine ⟨stands.1, ?_⟩
        rw [List.length_append]
        exact Nat.lt_add_right _ stands.2
    | seat index => exact stands
  cells place stands _ := by
    apply cells_eq_of_getElem?_eq
    · exact fun _ _ => rfl
    · intro index hown
      cases place with
      | listed source other =>
          cases hown
          exact List.getElem?_append_left stands.2
      | seat index => exact absurd hown nofun
    · exact fun _ _ => rfl

/-- A request avoids the same places in reactors whose places read from the same sources. -/
theorem avoids_congr {next : Reactor ν ε}
    (hsame : ∀ place, next.sourceId? place = reactor.sourceId? place) {place : Place} :
    request.Avoids next place ↔ request.Avoids reactor place := by
  have hnames : request.sourceIds next = request.sourceIds reactor := by
    cases request <;> simp only [Request.sourceIds, hsame]
  rw [Request.Avoids, Request.Avoids, hsame, hnames]

theorem Minds.trans {middle next : Reactor ν ε} (first : Minds request reactor middle)
    (second : Minds request middle next) : Minds request reactor next where
  queue := second.queue.trans first.queue
  held := second.held.trans first.held
  sourceId? place := (second.sourceId? place).trans (first.sourceId? place)
  stands place stands := second.stands place (first.stands place stands)
  cells place stands avoids :=
    (second.cells place (first.stands place stands)
      ((avoids_congr first.sourceId?).mpr avoids)).trans (first.cells place stands avoids)

theorem minds_setReadSize {index : Nat} (hbuffer : .owned index ∈ request.bufferIds)
    (readSize : UInt64) :
    Minds request reactor (reactor.setSeat index { reactor.seatAt index with readSize }) where
  queue := rfl
  held := rfl
  sourceId? place := by
    cases place with
    | listed source buffer => rfl
    | seat other =>
        have hkind : sourceIdOf other { reactor.seatAt index with readSize }.layer =
            sourceIdOf other (reactor.seatAt index).layer := rfl
        rw [sourceId?_seat, sourceId?_seat]
        exact apply_getD_set (fun seat : Seat => sourceIdOf other seat.layer) hkind other
  stands place := by cases place <;> simp [Stands, setSeat]
  cells place _ avoids := by
    apply cells_eq_of_getElem?_eq
    · exact fun _ _ => rfl
    · exact fun _ _ => rfl
    · intro other hown
      have hne : index ≠ other := by
        rintro rfl
        exact avoids.1 (hown ▸ hbuffer)
      exact List.getElem?_set_ne hne

theorem minds_putSession {index : Nat} (hbuffer : .owned index ∈ request.bufferIds)
    (hsource : ∀ source ∈ reactor.sourceId? (.seat index), source ∈ request.sourceIds reactor)
    (session : Session) : Minds request reactor (reactor.putSession index session) :=
  (minds_putFeed (.seat index) hbuffer hsource session.feed).trans
    (minds_setReadSize hbuffer session.readSize)

/-- The response, if there is one, changes no more than the request names. -/
def Quiet (reactor : Reactor ν ε) (request : Request ν ε) (response? : Option (Response ν ε)) :
    Prop :=
  ∀ response ∈ response?, ∃ reply next,
    response = { reply, reactor := next } ∧ Minds request reactor next

theorem Quiet.some {next : Reactor ν ε} (minds : Minds request reactor next)
    (reply : Reply ν ε) : Quiet reactor request (some { reply, reactor := next }) := by
  rintro _ ⟨⟩
  exact ⟨reply, next, rfl, minds⟩

/-- Only what is looked up with success is gone on with. -/
theorem Quiet.bind {α : Type} {respond : α → Option (Response ν ε)} (found : Option α)
    (quiet : ∀ entry, Quiet reactor request (respond entry)) :
    Quiet reactor request (found >>= respond) := by
  cases found with
  | none => exact fun _ hnone => absurd hnone nofun
  | some entry => exact quiet entry

variable [Allocator]

/-! ## What a request comes to -/

/-- The first stint of an operation that a request starts here. -/
def opening (reactor : Reactor ν ε) (request : Request ν ε) (place : Place) :
    Stint ν ε (Reply ν ε) :=
  request.stint (reactor.readSizeAt place) (reactor.feedAt place)

/-- The reactor after a history. -/
def after (reactor : Reactor ν ε) (history : List (Request ν ε)) : Reactor ν ε :=
  history.foldl (fun reactor request => (reactor.serve request).reactor) reactor

theorem after_append (reactor : Reactor ν ε) (before after : List (Request ν ε)) :
    reactor.after (before ++ after) = (reactor.after before).after after := by
  simp [Reactor.after]

/-- What a request comes to. -/
inductive Served (reactor : Reactor ν ε) : Request ν ε → Response ν ε → Prop
  | quiet {request : Request ν ε} {reply : Reply ν ε} {next : Reactor ν ε}
      (hstarts : request.starts? = none ∨ reply = .unknown) (minds : Minds request reactor next) :
      Served reactor request { reply, reactor := next }
  | started {request : Request ν ε} {id : Nat} {place : Place}
      (hstarts : request.starts? = some (id, place)) (stands : reactor.Stands place) :
      Served reactor request
        { reply := (reactor.opening request place).outcome
          reactor := reactor.settle place (reactor.opening request place) }
  | ran {count? : Option Nat} (count : Nat) :
      Served reactor (.run count?) (reactor.run count).response
  | cancelled {request : Request ν ε} {source : SourceId}
      (hcancels : reactor.cancels? request = some source) :
      Served reactor request
        { reply := .cancelled (reactor.cancel source).1, reactor := (reactor.cancel source).2 }
  | abandoned : Served reactor .abandon { reactor := reactor.abandon }

/-! ## All requests -/

theorem respondStart_eq (reactor : Reactor ν ε) (id : Nat) (place : Place) (parser : Parser ν ε)
    (readSize : UInt64) :
    reactor.respondStart id place parser readSize =
      let stint := Operation.begin { id, place, parser, readSize } (reactor.feedAt place)
      { reply := .started stint.outcome.1 stint.outcome.2
        reactor := reactor.settle place stint } := by
  rw [respondStart, startParse_eq]

/-- A start whose place stands for something is served by the first stint. -/
theorem serve_of_stands {id : Nat} {place : Place}
    (hstarts : request.starts? = some (id, place)) (stands : reactor.Stands place) :
    reactor.serve request =
      { reply := (reactor.opening request place).outcome
        reactor := reactor.settle place (reactor.opening request place) } := by
  cases request with
  | start _ source index parser readSize =>
      cases hstarts
      rw [serve, respond, getElem?_eq_some_getD .closed stands.1,
        getElem?_eq_some_getD .unlimited stands.2]
      exact respondStart_eq reactor id _ parser readSize
  | startSessionParse _ seat parser =>
      cases hstarts
      rw [serve, respond, getElem?_eq_some_getD { layer := .released } stands]
      exact respondStart_eq reactor id _ parser _
  | startSessionRead _ seat sizes =>
      cases hstarts
      rw [serve, respond, getElem?_eq_some_getD { layer := .released } stands]
      simp only [Option.bind_eq_bind, Option.bind_some, startSessionRead_settles]
      rfl
  | _ => cases hstarts

omit [Allocator] in
/-- Where a listed place does not stand for anything, one of its two lookups fails. -/
theorem bind_of_not_stands {α : Type} {source index : Nat}
    (hnone : ¬ reactor.Stands (.listed source index)) (next : Source → Buffer → Option α) :
    (do
      let found ← reactor.sources[source]?
      let buffer ← reactor.buffers[index]?
      next found buffer) = none := by
  by_cases hsource : source < reactor.sources.length
  · have hindex : reactor.buffers[index]? = none := by
      rw [List.getElem?_eq_none_iff, ← Nat.not_lt]
      exact fun hindex => hnone ⟨hsource, hindex⟩
    rw [hindex]
    cases reactor.sources[source]? <;> rfl
  · rw [List.getElem?_eq_none_iff.mpr (Nat.not_lt.mp hsource)]
    rfl

theorem respond_of_not_stands {id : Nat} {place : Place}
    (hstarts : request.starts? = some (id, place)) (hnone : ¬ reactor.Stands place) :
    reactor.respond request = none := by
  cases request with
  | start _ source index parser readSize =>
      cases hstarts
      rw [respond]
      exact bind_of_not_stands hnone _
  | startSessionParse _ seat parser =>
      cases hstarts
      rw [respond, List.getElem?_eq_none_iff.mpr (Nat.not_lt.mp hnone)]
      rfl
  | startSessionRead _ seat sizes =>
      cases hstarts
      rw [respond, List.getElem?_eq_none_iff.mpr (Nat.not_lt.mp hnone)]
      rfl
  | _ => cases hstarts

/-- A start is served by its first stint, if its place stands for something. -/
theorem served_of_starts {id : Nat} {place : Place}
    (hstarts : request.starts? = some (id, place)) :
    Served reactor request (reactor.serve request) := by
  by_cases stands : reactor.Stands place
  · rw [serve_of_stands hstarts stands]
    exact .started hstarts stands
  · rw [serve, respond_of_not_stands hstarts stands]
    exact .quiet (.inr rfl) (.refl request reactor)

theorem served_of_quiet (hstarts : request.starts? = none)
    (quiet : Quiet reactor request (reactor.respond request)) :
    Served reactor request (reactor.serve request) := by
  cases hresponse : reactor.respond request with
  | none =>
      rw [serve, hresponse]
      exact .quiet (.inl hstarts) (.refl request reactor)
  | some response =>
      obtain ⟨reply, next, rfl, minds⟩ := quiet response hresponse
      rw [serve, hresponse]
      exact .quiet (.inl hstarts) minds

/-- A cancellation reaches one source at most. -/
theorem served_of_cancels (hstarts : request.starts? = none) {α : Type} (found : Option α)
    (hrespond : reactor.respond request =
      found.map fun _ => reactor.respondCancel (reactor.cancels? request)) :
    Served reactor request (reactor.serve request) := by
  rw [serve, hrespond]
  cases found with
  | none => exact .quiet (.inl hstarts) (.refl request reactor)
  | some entry =>
      cases hcancels : reactor.cancels? request with
      | none => exact .quiet (.inl hstarts) (.refl request reactor)
      | some source => exact .cancelled hcancels

/-- A request comes to one of five things. -/
theorem served (reactor : Reactor ν ε) {request : Request ν ε}
    (hseats : request.movesSeat = false) : Served reactor request (reactor.serve request) := by
  cases request with
  | addBuffer limit => exact .quiet (.inl rfl) (minds_addBuffers _)
  | window index => exact served_of_quiet rfl (.bind _ fun _ => .some (.refl _ _) _)
  | nextRead index hint readSize =>
      exact served_of_quiet rfl (.bind _ fun _ => .some (.refl _ _) _)
  | buffer index command =>
      exact served_of_quiet rfl (.bind _ fun buffer =>
        .some (minds_setBuffer List.mem_cons_self _) _)
  | look index parser readSize =>
      exact served_of_quiet rfl (.bind _ fun buffer =>
        .some (minds_setBuffer List.mem_cons_self _) _)
  | moveBuffer index =>
      refine served_of_quiet rfl (.bind _ fun buffer => .some ?_ _)
      exact (minds_setBuffer List.mem_cons_self _).trans (minds_addBuffers _)
  | assignBuffer index target =>
      refine served_of_quiet rfl (.bind _ fun buffer => .bind _ fun _ => .some ?_ _)
      by_cases hsame : index = target
      · rw [assignBuffer, if_pos hsame]
        exact .refl _ reactor
      · rw [assignBuffer, if_neg hsame]
        exact (minds_setBuffer (List.mem_cons_of_mem _ List.mem_cons_self) _).trans
          (minds_setBuffer List.mem_cons_self _)
  | refill source index count =>
      exact served_of_quiet rfl (.bind _ fun taken => .bind _ fun buffer =>
        .some (minds_putListed List.mem_cons_self List.mem_cons_self _) _)
  | parse source index mode parser readSize =>
      refine served_of_quiet rfl (.bind _ fun taken => .bind _ fun buffer => .some ?_ _)
      exact minds_putListed List.mem_cons_self List.mem_cons_self _
  | session index command =>
      refine served_of_quiet rfl (.bind _ fun _ => .some ?_ _)
      exact minds_putSession List.mem_cons_self (fun _ => Option.mem_toList.mpr) _
  | run count? =>
      cases count? with
      | none => exact .ran _
      | some count => exact .ran count
  | cancelSource source =>
      apply served_of_cancels rfl reactor.sources[source]?
      rw [respond]
      cases reactor.sources[source]? <;> rfl
  | cancelSeat index =>
      apply served_of_cancels rfl reactor.seats[index]?
      rw [respond]
      cases reactor.seats[index]? <;> rfl
  | abandon => exact .abandoned
  | start id source index parser readSize => exact served_of_starts rfl
  | startSessionParse id index parser => exact served_of_starts rfl
  | startSessionRead id index sizes => exact served_of_starts rfl
  | moveSeat => cases hseats
  | assignSeat => cases hseats

/-- A parse that is waited for is the parse of the feed that is there, presented as it is wanted. -/
theorem serve_parse {source index : Nat} (stands : reactor.Stands (.listed source index))
    (mode : AnswerMode ε) (parser : Parser ν ε) (readSize : UInt64) :
    reactor.serve (.parse source index mode parser readSize) =
      { reply := .session (.parsed
          (((reactor.feedAt (.listed source index)).parse parser readSize).answer.map mode.present)
          ((reactor.feedAt (.listed source index)).parse parser readSize).transcript)
        reactor := reactor.putFeed (.listed source index)
          ((reactor.feedAt (.listed source index)).parse parser readSize).feed } := by
  rw [serve, respond, getElem?_eq_some_getD .closed stands.1,
    getElem?_eq_some_getD .unlimited stands.2, ← Feed.answer_parseAs,
    ← Feed.transcript_parseAs _ mode, ← Feed.feed_parseAs _ mode]
  rfl

/-- A command to a seat is carried out by the session that it is. -/
theorem serve_session {reactor : Reactor ν ε} {index : Nat} (hindex : index < reactor.seats.length)
    (command : Session.Command ν ε) :
    reactor.serve (.session index command) =
      { reply := .session ((reactor.sessionAt index).perform command).1
        reactor := reactor.putSession index ((reactor.sessionAt index).perform command).2 } := by
  rw [serve, respond, getElem?_eq_some_getD { layer := .released } hindex]
  rfl

omit [Allocator] in
/-- A source that holds no read is not changed by a cancellation. -/
theorem cancel_of_not_held {reactor : Reactor ν ε} {source : SourceId}
    (hnone : ∀ entry ∈ reactor.held, entry.1 ≠ source) :
    reactor.cancel source = (false, reactor) := by
  have hfind : (reactor.held.find? fun entry => entry.1 == source) = none := by
    rw [List.find?_eq_none]
    intro entry hmem
    simpa using hnone entry hmem
  rw [cancel, hfind]

omit [Allocator] in
/-- The read that is cancelled, if there is one, moves from its source to the queue. -/
theorem cancel_cases (reactor : Reactor ν ε) (source : SourceId) :
    ((∀ entry ∈ reactor.held, entry.1 ≠ source) ∧ reactor.cancel source = (false, reactor)) ∨
      ∃ waiter first rest, reactor.held = first ++ (source, waiter) :: rest ∧
        reactor.cancel source = (true, enqueue { reactor with held := first ++ rest }
          (.arrive waiter { code := .operationAborted })) := by
  cases hfound : reactor.held.find? fun entry => entry.1 == source with
  | none =>
      have hnone : ∀ entry ∈ reactor.held, entry.1 ≠ source := by
        simpa using List.find?_eq_none.mp hfound
      exact .inl ⟨hnone, cancel_of_not_held hnone⟩
  | some entry =>
      obtain ⟨hsource, first, rest, hheld, hfirst⟩ := List.find?_eq_some_iff_append.mp hfound
      obtain rfl : entry.1 = source := beq_iff_eq.mp hsource
      have herase : reactor.held.eraseP (fun other => other.1 == entry.1) = first ++ rest := by
        rw [hheld, List.eraseP_append_right _ (by simpa using hfirst)]
        exact congrArg (first ++ ·) (List.eraseP_cons_of_pos hsource)
      refine .inr ⟨entry.2, first, rest, hheld, ?_⟩
      simp only [cancel, hfound, herase]

omit [Allocator] in
/-- The other reads stay where they are. -/
theorem mem_held_of_mem {reactor : Reactor ν ε} {first rest : List (SourceId × Waiter ν ε)}
    {entry other : SourceId × Waiter ν ε} (hheld : reactor.held = first ++ entry :: rest)
    (hmem : other ∈ first ++ rest) : other ∈ reactor.held := by
  rw [hheld]
  rcases List.mem_append.mp hmem with hmem | hmem
  · exact List.mem_append_left _ hmem
  · exact List.mem_append_right _ (List.mem_cons_of_mem _ hmem)

end Reactor

end StreamParse
