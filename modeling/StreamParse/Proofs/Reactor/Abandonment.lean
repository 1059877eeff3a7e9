import StreamParse.Proofs.Reactor.Errands

/-!
# Abandoned reads

A parse that waits for a read has had its buffer moved, and perhaps its bytes are already behind the
window.  Whenever it is given up then, or its read is cancelled, the window is what it was at the start
with the bytes of the reads that have ended behind it, and the buffer goes on as if it had never been
read into.
-/

namespace StreamParse

variable {ν ε : Type}

/-- A buffer from which parses go on: it has this window and this limit, and no errands tell it from
another buffer that has its window, its capacity and its limit. -/
structure Buffer.Resumable [Allocator] (buffer : Buffer) (window : List UInt8) (limit : UInt64) :
    Prop where
  window : buffer.window = window
  limit : buffer.limit = limit
  resumes {ν ε : Type} {other : Buffer} (valid : other.Valid)
    (hwindow : other.window = buffer.window) (hcapacity : other.capacity = buffer.capacity)
    (hlimit : other.limit = buffer.limit) (errands : List (Errand ν ε)) :
    buffer.sights errands = other.sights errands

theorem Buffer.Valid.resumable [Allocator] {buffer : Buffer} (valid : buffer.Valid) :
    buffer.Resumable buffer.window buffer.limit where
  window := rfl
  limit := rfl
  resumes valid' hwindow hcapacity hlimit errands :=
    sights_eq valid valid' (packed_eq_iff.mpr ⟨hwindow.symm, hcapacity.symm, hlimit.symm⟩) errands

/-- A commit of nothing changes nothing that is seen. -/
theorem Buffer.Valid.queue_commit_zero {buffer : Buffer} (valid : buffer.Valid) :
    (buffer.commit 0).queue = buffer.queue := by
  rw [(valid.written_nil.commit valid (Nat.zero_le _)).1]
  simp [ByteQueue.take]

/-- What goes on of an entry belongs to its operation. -/
theorem Task.id_of_remnant [Allocator] (task : Task ν ε) {feed : Feed}
    {remnant : Remnant ν ε} (hremnant : (task.perform feed).remnant = some remnant) :
    remnant.id = task.id := by
  have hplace : ∀ other ∈ task.place?, other = task.place?.getD .only := by
    intro other hother
    rw [hother]
    rfl
  exact ((task.accounts_perform feed hplace).of_remnant hremnant).2

namespace Operation

variable {operation waiting : Operation ν ε} {first feed : Feed} {delivery : Delivery}

/-- A parse that waits for a read: its buffer, and its source with the outstanding read behind it. -/
structure Pauses (first : Feed) (waiting : Operation ν ε) (delivery : Delivery) (feed : Feed) :
    Prop where
  valid : feed.buffer.Valid
  window : feed.buffer.window = first.buffer.window ++ Event.received waiting.transcript
  limit : feed.buffer.limit = first.buffer.limit
  gave : first.source.Gave (Event.deliveries waiting.transcript ++ [delivery]) feed.source

variable [Allocator]

/-- A read that was started leaves the window as it was, whatever it has written. -/
theorem pauses_of_reads {past : List (Event ν ε)} {mid : Feed} {area : Area} {buffer : Buffer}
    {source : Source} (hread : operation.readSize ≠ 0) (valid : first.buffer.Valid)
    (hreaches : Feed.Reaches operation.parser operation.readSize first past mid)
    (hturn : mid.buffer.turn operation.readSize (operation.parser mid.buffer.window) =
      (.reads area, buffer)) (bytes : List UInt8)
    (hgave : first.source.Gave (Event.deliveries past ++ [delivery]) source) :
    Pauses first (operation.waiting past mid) delivery
      { source, buffer := buffer.fill area bytes } := by
  have valid' := hreaches.valid hread valid
  have hdeliveries := operation.deliveries_waiting past mid
  obtain ⟨hint, -, -, hreserve⟩ := Buffer.starves_of_reads hread hturn
  obtain ⟨hvalid, hoffset, -⟩ := valid'.reserve hreserve
  constructor
  · exact hvalid.fill area bytes
  · have hwindow : (buffer.fill area bytes).window = buffer.window :=
      congrArg ByteQueue.bytes (Buffer.queue_fill hoffset bytes)
    rw [hwindow, Buffer.window_reserve hreserve, hreaches.window hread valid, Event.received,
      Event.received, hdeliveries]
  · exact (Buffer.limit_reserve hreserve).trans (hreaches.limit hread)
  · rw [hdeliveries]
    exact hgave

/-- A parse whose read has ended and is queued pauses. -/
theorem Stage.pauses {news : News ν ε} (hread : operation.readSize ≠ 0)
    (valid : first.buffer.Valid)
    (stage : operation.Stage first feed (some (.queued (.arrive (.parse waiting) delivery))) news) :
    Pauses first waiting delivery feed := by
  cases stage with
  | arriving hreaches hturn hfree =>
      have hreads : Feed.Reads operation.parser operation.readSize _ _ _ := .intro hturn
      obtain ⟨room, hroom, hdelivery, hsource⟩ := hreads.source hread
      have hgave := (hreaches.gave hread).read hroom
      rw [← hdelivery, ← hsource] at hgave
      exact pauses_of_reads hread valid hreaches hturn _ hgave
  | cancelled hreaches hturn hholds =>
      exact pauses_of_reads hread valid hreaches hturn [] ((hreaches.gave hread).cancelled hholds)

/-- Of a parse whose read is held nothing was told but that it was started. -/
theorem Stage.of_held {news : News ν ε}
    (stage : operation.Stage first feed (some (.held (.parse waiting))) news) :
    waiting.id = operation.id ∧ waiting.place = operation.place ∧ news = operation.opened first := by
  cases stage with
  | held => exact ⟨rfl, rfl, rfl⟩

/-- What becomes of a parse whose read was cancelled: it waits in the queue until it is told so. -/
inductive Aborting (waiting : Operation ν ε) (feed : Feed) :
    Feed → Option (Remnant ν ε) → News ν ε → Prop
  | queued : Aborting waiting feed feed
      (some (.queued (.arrive (.parse waiting) { code := .operationAborted }))) {}
  | told : Aborting waiting feed { feed with buffer := feed.buffer.commit 0 } none
      { completions := [.parsed waiting.id
          (waiting.transcript ++ [.read { code := .operationAborted }])
          (.failed (.ofRead .operationAborted))] }

theorem aborting_lasts (waiting : Operation ν ε) (feed : Feed) :
    Lasts waiting.id waiting.place (waiting.Aborting feed) where
  own stage := by
    cases stage with
    | queued => exact ⟨rfl, by rintro _ ⟨⟩; rfl⟩
  perform stage := by
    cases stage with
    | queued => exact .told
  cancel stage := nomatch stage

end Operation

namespace Reactor

variable {base origin reactor alone : Reactor ν ε} {id : Nat} {place : Place} {news : News ν ε}
variable {stage : Feed → Option (Remnant ν ε) → News ν ε → Prop}

/-- A read of an operation is outstanding: the operation as it waits, and what the read has brought, or
brings when it is cancelled. -/
inductive Awaits (reactor : Reactor ν ε) (id : Nat) : Operation ν ε → Delivery → Prop
  | queued {waiting : Operation ν ε} {delivery : Delivery} (hid : waiting.id = id)
      (hmem : .arrive (.parse waiting) delivery ∈ reactor.queue) : Awaits reactor id waiting delivery
  | held {source : SourceId} {waiting : Operation ν ε} (hid : waiting.id = id)
      (hmem : (source, .parse waiting) ∈ reactor.held) :
      Awaits reactor id waiting { code := .operationAborted }

/-- No entry of an operation is queued. -/
def Settled (reactor : Reactor ν ε) (id : Nat) : Prop := ∀ task ∈ reactor.queue, task.id ≠ id

theorem hosts_hold (reactor : Reactor ν ε) (source : SourceId) (waiter : Waiter ν ε)
    (place : Place) : (reactor.hold source waiter).Hosts place ↔ reactor.Hosts place := by
  cases place <;> exact Iff.rfl

/-- A place that hosts an operation has its source. -/
theorem Hosts.sourceId? (hosts : reactor.Hosts place) :
    ∃ source, reactor.sourceId? place = some source := by
  cases place with
  | listed source buffer => exact ⟨_, rfl⟩
  | seat index =>
      obtain ⟨-, hlayer⟩ := hosts
      rw [sourceId?_seat]
      cases hkind : (reactor.seatAt index).layer with
      | released =>
          rw [hkind] at hlayer
          exact hlayer.elim
      | _ => exact ⟨_, rfl⟩

/-- The entry of an operation is what its stage leaves behind. -/
theorem Career.of_queued (shadow : Shadow origin id place reactor alone)
    (career : Career base place stage alone news) (hqueue : base.queue = [])
    (hosts : base.Hosts place) {task : Task ν ε} (hmem : task ∈ reactor.queue)
    (hid : task.id = id) : stage (reactor.feedAt place) (some (.queued task)) news := by
  have hown : task ∈ alone.queue := by
    rw [← shadow.queue]
    exact List.mem_filter.mpr ⟨hmem, beq_iff_eq.mpr hid⟩
  cases career with
  | @intro feed remnant? news hstage =>
      rw [shadow.feedAt_of_career hosts rfl]
      have hput : (base.putFeed place feed).queue = [] := (queue_putFeed base place feed).trans hqueue
      rcases remnant? with _ | other | waiter
      · rw [leave, hput] at hown
        exact absurd hown List.not_mem_nil
      · rw [leave, enqueue, hput] at hown
        rw [List.mem_singleton.mp hown]
        exact hstage
      · rw [queue_leave_held, hput] at hown
        exact absurd hown List.not_mem_nil

/-- The read of an operation that a source holds is what its stage leaves behind. -/
theorem Career.of_held (shadow : Shadow origin id place reactor alone)
    (career : Career base place stage alone news) (hheld : base.held = [])
    (hosts : base.Hosts place) {source : SourceId} (hsource : base.sourceId? place = some source)
    {entry : SourceId × Waiter ν ε} (hmem : entry ∈ reactor.held) (hid : entry.2.id = id) :
    stage (reactor.feedAt place) (some (.held entry.2)) news ∧
      alone = (base.putFeed place (reactor.feedAt place)).hold source entry.2 := by
  have hown : entry ∈ alone.held := by
    rw [← shadow.held]
    exact List.mem_filter.mpr ⟨hmem, beq_iff_eq.mpr hid⟩
  cases career with
  | @intro feed remnant? news hstage =>
      rw [shadow.feedAt_of_career hosts rfl]
      have hput : (base.putFeed place feed).held = [] := (held_putFeed base place feed).trans hheld
      rcases remnant? with _ | task | waiter
      · rw [leave, hput] at hown
        exact absurd hown List.not_mem_nil
      · rw [leave, enqueue, hput] at hown
        exact absurd hown List.not_mem_nil
      · have hhold := leave_held ((sourceId?_putFeed base place feed place).trans hsource) waiter
        rw [hhold, hold, hput] at hown
        obtain rfl := List.mem_singleton.mp hown
        exact ⟨hstage, hhold⟩

/-! ## Cancellations -/

/-- A read that was cancelled is queued behind all others, and nothing else of its operation is
queued. -/
theorem Shadow.queue_cancel (shadow : Shadow origin id place reactor alone) {source : SourceId}
    (hsource : origin.sourceId? place = some source) (hfound : (reactor.cancel source).1 = true)
    {alone' : Reactor ν ε} (shadow' : Shadow origin id place (reactor.cancel source).2 alone')
    {task : Task ν ε} (hqueue : alone'.queue = [task]) :
    (reactor.cancel source).2.queue = reactor.queue ++ [task] ∧ reactor.Settled id := by
  rcases reactor.cancel_cases source with ⟨-, hcancel⟩ | ⟨waiter, first, rest, hheld, hcancel⟩
  · rw [hcancel] at hfound
    exact absurd hfound Bool.false_ne_true
  · have hid : waiter.id = id := by
      have hmem : (source, waiter) ∈ reactor.held := by simp [hheld]
      exact (shadow.waiting _ hmem).1.mpr hsource
    have hnext : (reactor.cancel source).2.queue =
        reactor.queue ++ [.arrive waiter { code := .operationAborted }] := by
      rw [hcancel]
      rfl
    have hown : reactor.queueOf id ++ [.arrive waiter { code := .operationAborted }] =
        [] ++ [task] := by
      rw [List.nil_append, ← hqueue, ← shadow'.queue, queueOf, queueOf, hnext, List.filter_append,
        List.filter_cons_of_pos (by simpa [Task.id] using hid)]
      rfl
    obtain ⟨hnone, htask⟩ := List.append_inj' hown rfl
    rw [List.singleton_inj.mp htask] at hnext
    refine ⟨hnext, ?_⟩
    intro other hmem hother
    rw [queueOf, List.filter_eq_nil_iff] at hnone
    exact hnone other hmem (beq_iff_eq.mpr hother)

/-- A cancelled parse of which nothing is queued any more has been told so. -/
theorem Career.told_of_settled {waiting : Operation ν ε} {feed : Feed}
    (shadow : Shadow origin id place reactor alone)
    (career : Career base place (waiting.Aborting feed) alone news) (hosts : base.Hosts place)
    (hid : waiting.id = id) (hsettled : reactor.Settled id) :
    reactor.feedAt place = { feed with buffer := feed.buffer.commit 0 } ∧
      news = { completions := [.parsed waiting.id
        (waiting.transcript ++ [.read { code := .operationAborted }])
        (.failed (.ofRead .operationAborted))] } := by
  cases career with
  | intro hstage =>
      cases hstage with
      | queued =>
          have hmem : Task.arrive (.parse waiting) { code := .operationAborted } ∈
              reactor.queueOf id := by
            rw [shadow.queue]
            exact List.mem_append_right _ List.mem_cons_self
          exact absurd hid (hsettled _ (List.mem_filter.mp hmem).1)
      | told => exact ⟨shadow.feedAt_of_career hosts rfl, rfl⟩

/-! ## The queue moves on -/

theorem queue_settle {α : Type} (reactor : Reactor ν ε) (place : Place) (stint : Stint ν ε α) :
    ∃ more, (reactor.settle place stint).queue = reactor.queue ++ more ∧
      ∀ task ∈ more, stint.remnant = some (.queued task) := by
  have hput := queue_putFeed reactor place stint.feed
  rcases hremnant : stint.remnant with _ | task | waiter
  · refine ⟨[], ?_, nofun⟩
    rw [settle, hremnant, leave, hput, List.append_nil]
  · refine ⟨[task], ?_, ?_⟩
    · rw [settle, hremnant, leave, enqueue, hput]
    · intro other hmem
      rw [List.mem_singleton.mp hmem]
  · refine ⟨[], ?_, nofun⟩
    rw [settle, hremnant, queue_leave_held, hput, List.append_nil]

/-- A run of the queue leaves every operation and every place alone. -/
theorem spares_run (count? : Option Nat) :
    (.run count? : Request ν ε).Spares origin id place :=
  ⟨rfl, ⟨List.not_mem_nil, fun _ _ => List.not_mem_nil⟩, nofun⟩

/-- An entry goes on where the shadow of an operation says that it does. -/
theorem Shadow.stands_of_queued (shadow : Shadow origin id place reactor alone) {task : Task ν ε}
    (hmem : task ∈ reactor.queue) : ∀ other ∈ task.place?, reactor.Stands other := by
  intro other hother
  obtain ⟨hown, hbeside⟩ := shadow.queued task hmem other hother
  by_cases hid : task.id = id
  · rw [hown hid]
    exact shadow.stands
  · exact (hbeside hid).1

section Histories

variable [Allocator]

/-- A run of one entry takes it from the front of the queue and puts what goes on of it behind all
others. -/
theorem queue_run_one {task : Task ν ε} {queue : List (Task ν ε)}
    (hqueue : reactor.queue = task :: queue) (stands : ∀ other ∈ task.place?, reactor.Stands other) :
    ∃ more, (reactor.serve (.run (some 1))).reactor.queue = queue ++ more ∧
      ∀ other ∈ more, ∃ feed, (task.perform feed).remnant = some (.queued other) := by
  have hrun : (reactor.serve (.run (some 1))).reactor =
      (Reactor.perform { reactor with queue } task).2 := by
    change (reactor.run 1).reactor = _
    rw [run_succ hqueue]
    rcases Reactor.perform { reactor with queue } task with ⟨breakdown | completion?, next⟩ <;> rfl
  rw [hrun]
  cases hplace : task.place? with
  | none =>
      obtain ⟨completion, -, hperform⟩ := perform_of_placeless hplace
      rw [hperform]
      exact ⟨[], (List.append_nil _).symm, nofun⟩
  | some other =>
      have hperform : Reactor.perform { reactor with queue } task = _ :=
        perform_eq hplace (stands other hplace)
      rw [hperform]
      obtain ⟨more, hmore, hremnant⟩ := queue_settle { reactor with queue } other
        (task.perform (feedAt { reactor with queue } other))
      exact ⟨more, hmore, fun task' hmem => ⟨_, hremnant task' hmem⟩⟩

/-- However much is queued before a cancelled read, its turn comes, and then nothing is left of it. -/
theorem settled_after_runs (shadow : Shadow origin id place reactor alone)
    {waiting : Operation ν ε} {before behind : List (Task ν ε)}
    (hqueue : reactor.queue =
      before ++ .arrive (.parse waiting) { code := .operationAborted } :: behind)
    (hothers : ∀ task ∈ before ++ behind, task.id ≠ id) :
    (reactor.after (List.replicate (before.length + 1) (.run (some 1)))).Settled id := by
  induction before generalizing reactor alone behind with
  | nil =>
      have hfront : Task.arrive (.parse waiting) { code := .operationAborted } ∈ reactor.queue := by
        rw [hqueue]
        exact List.mem_cons_self
      obtain ⟨more, hnext, hmore⟩ := queue_run_one hqueue (shadow.stands_of_queued hfront)
      intro task hmem
      change task ∈ (reactor.serve (.run (some 1))).reactor.queue at hmem
      rw [hnext] at hmem
      rcases List.mem_append.mp hmem with hmem | hmem
      · exact hothers task hmem
      · -- A read that failed is the last one of its parse.
        obtain ⟨feed, hremnant⟩ := hmore task hmem
        exact absurd hremnant nofun
  | cons first before ih =>
      rw [List.cons_append] at hqueue
      have hfront : first ∈ reactor.queue := by
        rw [hqueue]
        exact List.mem_cons_self
      have hfirst : first.id ≠ id := hothers first List.mem_cons_self
      obtain ⟨more, hnext, hmore⟩ := queue_run_one hqueue (shadow.stands_of_queued hfront)
      obtain ⟨own, abreast⟩ := shadow.serve (spares_run (some 1))
      rw [List.append_assoc, List.cons_append] at hnext
      refine ih abreast.shadow hnext ?_
      intro task hmem
      rw [← List.append_assoc] at hmem
      rcases List.mem_append.mp hmem with hmem | hmem
      · exact hothers task (List.mem_cons_of_mem _ hmem)
      · obtain ⟨feed, hremnant⟩ := hmore task hmem
        have hid : task.id = first.id := first.id_of_remnant hremnant
        exact fun hown => hfirst (hid.symm.trans hown)

/-! ## At every moment -/

/-- What is read for a place that stands for something is cancelled by those who name it. -/
theorem serve_of_cancels_own {request : Request ν ε} {source : SourceId}
    (hosts : reactor.Hosts place) (hcancels : reactor.cancels? request = some source)
    (hsource : reactor.sourceId? place = some source) :
    reactor.serve request =
      { reply := .cancelled (reactor.cancel source).1
        reactor := (reactor.cancel source).2 } := by
  cases request with
  | cancelSource index =>
      cases hcancels
      have hindex : index < reactor.sources.length := by
        cases place with
        | listed source buffer =>
            cases hsource
            exact hosts.1
        | seat seat =>
            obtain ⟨-, hlayer⟩ := hosts
            rw [sourceId?_seat] at hsource
            cases hkind : (reactor.seatAt seat).layer with
            | borrowed source =>
                rw [hkind] at hsource hlayer
                cases hsource
                exact hlayer
            | _ =>
                rw [hkind] at hsource
                cases hsource
      rw [serve, respond, getElem?_eq_some_getD .closed hindex]
      rfl
  | cancelSeat index =>
      have hseat : reactor.sourceId? (.seat index) = some source := hcancels
      have hindex : index < reactor.seats.length := by
        refine Nat.lt_of_not_le fun hnone => ?_
        have hdefault : reactor.seatAt index = { layer := .released } := by
          rw [seatAt, List.getD_eq_getElem?_getD, List.getElem?_eq_none hnone]
          rfl
        rw [sourceId?_seat, hdefault] at hseat
        cases hseat
      rw [serve, respond, getElem?_eq_some_getD { layer := .released } hindex, hseat]
      rfl
  | _ => cases hcancels

/-- A parse of which nothing goes on. -/
theorem lasts_ended (id : Nat) (place : Place) :
    Lasts id place fun _ (remnant? : Option (Remnant ν ε)) _ => remnant? = none where
  own := nofun
  perform := nofun
  cancel := nofun

section Clear

variable {operation : Operation ν ε} {start : Request ν ε} {during : List (Request ν ε)}
variable (clear : reactor.Clear operation.id operation.place)
variable (hosts : reactor.Hosts operation.place)
variable (hparse : start.parse? (reactor.readSizeAt operation.place) = some operation)
variable (tended : ∀ request ∈ during, request.Tends reactor operation.id operation.place)

include clear hosts hparse tended

/-- A parse that may read nothing waits for nothing. -/
theorem readSize_ne_zero_of_awaits {waiting : Operation ν ε} {delivery : Delivery}
    (awaits : (reactor.after (start :: during)).Awaits operation.id waiting delivery) :
    operation.readSize ≠ 0 := by
  intro hread
  have hosts' := (hosts_abandon reactor operation.place).mpr hosts
  obtain ⟨source, hsource⟩ := hosts'.sourceId?
  have hbegin : (operation.begin (reactor.feedAt operation.place)).remnant = none := by
    rw [Operation.begin, if_pos hread]
  obtain ⟨alone, shadow, career⟩ :=
    career_of_clear (lasts_ended _ _) clear hosts hbegin hparse tended
  cases awaits with
  | queued hid hmem => cases career.of_queued shadow rfl hosts' hmem hid
  | held hid hmem => cases (career.of_held shadow rfl hosts' hsource hmem hid).1

/-- Whatever read is outstanding, the parse pauses. -/
theorem pauses_of_awaits (valid : (reactor.feedAt operation.place).buffer.Valid)
    {waiting : Operation ν ε} {delivery : Delivery}
    (awaits : (reactor.after (start :: during)).Awaits operation.id waiting delivery) :
    Operation.Pauses (reactor.feedAt operation.place) waiting delivery
      ((reactor.after (start :: during)).feedAt operation.place) := by
  have hread := readSize_ne_zero_of_awaits clear hosts hparse tended awaits
  have hosts' := (hosts_abandon reactor operation.place).mpr hosts
  obtain ⟨source, hsource⟩ := hosts'.sourceId?
  obtain ⟨alone, shadow, career⟩ := stages_of_clear clear hosts hparse hread tended
  cases awaits with
  | queued hid hmem => exact (career.of_queued shadow rfl hosts' hmem hid).pauses hread valid
  | held hid hmem =>
      exact (career.of_held shadow rfl hosts' hsource hmem hid).1.cancel.pauses hread valid

/-- A held read that is cancelled is queued, and from then on the parse is aborting. -/
theorem aborting_of_held {waiting : Operation ν ε} {source : SourceId}
    (hid : waiting.id = operation.id)
    (hheld : (source, .parse waiting) ∈ (reactor.after (start :: during)).held)
    {cancel : Request ν ε} (cancels : cancel.Cancels reactor operation.place) :
    let now := reactor.after (start :: during)
    reactor.news operation.id (start :: during) =
        operation.opened (reactor.feedAt operation.place) ∧
      waiting.place = operation.place ∧
      (now.serve cancel).reply = .cancelled true ∧
      (now.serve cancel).news operation.id cancel = {} ∧
      now.Settled operation.id ∧
      (now.serve cancel).reactor.queue =
        now.queue ++ [.arrive (.parse waiting) { code := .operationAborted }] ∧
      ∃ alone, Shadow reactor operation.id operation.place (now.serve cancel).reactor alone ∧
        Career reactor.abandon operation.place
          (waiting.Aborting (now.feedAt operation.place)) alone {} := by
  intro now
  have hread := readSize_ne_zero_of_awaits clear hosts hparse tended (.held hid hheld)
  have hosts' := (hosts_abandon reactor operation.place).mpr hosts
  obtain ⟨own, hcancels, hown⟩ := cancels
  have hown' := (sourceId?_abandon reactor operation.place).trans hown
  obtain ⟨alone, shadow, career⟩ := stages_of_clear clear hosts hparse hread tended
  obtain ⟨hstage, halone⟩ := career.of_held shadow rfl hosts' hown' hheld hid
  obtain ⟨-, hplace, hnews⟩ := hstage.of_held
  -- The shadow cancels the one read that it holds.
  have hput : (reactor.abandon.putFeed operation.place (now.feedAt operation.place)).held = [] :=
    held_putFeed _ _ _
  have hcancel := cancel_hold hput own (.parse waiting)
  rw [← halone] at hcancel
  obtain ⟨hfound, shadow'⟩ := shadow.cancel_own hown
  rw [hcancel] at hfound shadow'
  have hnow : now.Hosts operation.place := by
    rw [hosts_congr shadow.cells, halone, hosts_hold, hosts_putFeed]
    exact hosts'
  have hserve := serve_of_cancels_own hnow ((cancels?_congr shadow.sourceId? cancel).trans hcancels)
    ((shadow.sourceId? _).trans hown)
  have hqueue : (enqueue (reactor.abandon.putFeed operation.place (now.feedAt operation.place))
      (.arrive (.parse waiting) { code := .operationAborted })).queue =
        [.arrive (.parse waiting) { code := .operationAborted }] := by
    rw [enqueue, queue_putFeed]
    rfl
  obtain ⟨hnext, hsettled⟩ := shadow.queue_cancel hown hfound.symm shadow' hqueue
  refine ⟨hnews, hplace, ?_, ?_, hsettled, ?_, _, ?_, .intro .queued⟩
  · rw [hserve, ← hfound]
  · exact (serve_of_cancels ((cancels?_congr shadow.sourceId? cancel).trans hcancels) _).1
  · rw [hserve]
    exact hnext
  · rw [hserve]
    exact shadow'

/-- Once nothing more of a parse whose held read was cancelled is queued, it has been told so, and its
buffer is what it was when it waited. -/
theorem aborted_when_settled {waiting : Operation ν ε} {source : SourceId}
    (valid : (reactor.feedAt operation.place).buffer.Valid) (hid : waiting.id = operation.id)
    (hheld : (source, .parse waiting) ∈ (reactor.after (start :: during)).held)
    {cancel : Request ν ε} (cancels : cancel.Cancels reactor operation.place)
    {rest : List (Request ν ε)}
    (tended' : ∀ request ∈ rest, request.Tends reactor operation.id operation.place)
    (hsettled : ((reactor.after (start :: during)).after (cancel :: rest)).Settled operation.id) :
    let now := reactor.after (start :: during)
    reactor.news operation.id (start :: during ++ cancel :: rest) =
        operation.opened (reactor.feedAt operation.place) ++
          { completions := [.parsed operation.id
              (waiting.transcript ++ [.read { code := .operationAborted }])
              (.failed (.ofRead .operationAborted))] } ∧
      ((now.after (cancel :: rest)).feedAt operation.place).buffer.Resumable
        (now.feedAt operation.place).buffer.window (now.feedAt operation.place).buffer.limit := by
  intro now
  have pauses := pauses_of_awaits clear hosts hparse tended valid (.held hid hheld)
  obtain ⟨hopened, hplace, -, hsilent, -, -, alone, shadow, career⟩ :=
    aborting_of_held clear hosts hparse tended hid hheld cancels
  have lasts : Lasts operation.id operation.place
      (waiting.Aborting (now.feedAt operation.place)) := by
    rw [← hid, ← hplace]
    exact waiting.aborting_lasts _
  have hosts' := (hosts_abandon reactor operation.place).mpr hosts
  obtain ⟨alone', shadow', career'⟩ := career.after lasts rfl hosts'
    (sourceId?_abandon reactor) shadow tended'
  obtain ⟨hfeed, htold⟩ := career'.told_of_settled shadow' hosts' hid hsettled
  constructor
  · rw [news_append, hopened, Reactor.news, hsilent, ← hid]
    rw [← hid] at htold
    exact congrArg (_ ++ ·) htold
  · have hleft : ((now.after (cancel :: rest)).feedAt operation.place).buffer =
        (now.feedAt operation.place).buffer.commit 0 :=
      congrArg Feed.buffer hfeed
    have hwindow : ((now.feedAt operation.place).buffer.commit 0).window =
        (now.feedAt operation.place).buffer.window :=
      congrArg ByteQueue.bytes pauses.valid.queue_commit_zero
    rw [hleft, ← hwindow]
    exact (pauses.valid.commit 0).resumable

end Clear

/-- Whenever a read of a parse is outstanding, giving everything up leaves the window that the parse
began with and the bytes of those reads behind it that have ended, and a buffer that parses go on from
as from any other with its window, capacity and limit.  The bytes of the outstanding read are lost to
the source and do not show.  If the source holds the read and it is cancelled, the same is so once it
had its turn, the parse is told exactly once, as aborted by its source, and its turn does come. -/
theorem resumable_when_awaiting {reactor : Reactor ν ε} {operation : Operation ν ε}
    {start : Request ν ε} {during : List (Request ν ε)}
    (clear : reactor.Clear operation.id operation.place) (hosts : reactor.Hosts operation.place)
    (valid : (reactor.feedAt operation.place).buffer.Valid)
    (hparse : start.parse? (reactor.readSizeAt operation.place) = some operation)
    (tended : ∀ request ∈ during, request.Tends reactor operation.id operation.place)
    {waiting : Operation ν ε} {delivery : Delivery}
    (awaits : (reactor.after (start :: during)).Awaits operation.id waiting delivery) :
    let first := reactor.feedAt operation.place
    let now := reactor.after (start :: during)
    let window := first.buffer.window ++ Event.received waiting.transcript
    first.source.Gave (Event.deliveries waiting.transcript ++ [delivery])
        (now.feedAt operation.place).source ∧
      ((now.serve .abandon).reactor.feedAt operation.place).buffer.Resumable window
        first.buffer.limit ∧
      ((∃ source, (source, .parse waiting) ∈ now.held) →
        ∀ cancel : Request ν ε, cancel.Cancels reactor operation.place →
          (now.serve cancel).reply = .cancelled true ∧
          (∀ rest : List (Request ν ε),
            (∀ request ∈ rest, request.Tends reactor operation.id operation.place) →
            (now.after (cancel :: rest)).Settled operation.id →
            reactor.news operation.id (start :: during ++ cancel :: rest) =
                operation.opened first ++
                  { completions := [.parsed operation.id
                      (waiting.transcript ++ [.read { code := .operationAborted }])
                      (.failed (.ofRead .operationAborted))] } ∧
              ((now.after (cancel :: rest)).feedAt operation.place).buffer.Resumable window
                first.buffer.limit) ∧
          (now.after (cancel :: List.replicate (now.queue.length + 1) (.run (some 1)))).Settled
            operation.id) ∧
      (Failure.ofRead .operationAborted : Failure ε).kind = .source := by
  intro first now window
  have pauses := pauses_of_awaits clear hosts hparse tended valid awaits
  have hwindow : (now.feedAt operation.place).buffer.window = window := pauses.window
  have hlimit : (now.feedAt operation.place).buffer.limit = first.buffer.limit := pauses.limit
  refine ⟨pauses.gave, ?_, ?_, rfl⟩
  · have hfeed : (now.serve .abandon).reactor.feedAt operation.place = now.feedAt operation.place :=
      feedAt_abandon now operation.place
    rw [hfeed, ← hwindow, ← hlimit]
    exact pauses.valid.resumable
  · rintro ⟨source, hheld⟩ cancel cancels
    have hid : waiting.id = operation.id := by
      cases awaits <;> assumption
    obtain ⟨-, -, hreply, -, hsettled, hqueue, alone, shadow, -⟩ :=
      aborting_of_held clear hosts hparse tended hid hheld cancels
    refine ⟨hreply, ?_, ?_⟩
    · intro rest tended' hdone
      rw [← hwindow, ← hlimit]
      exact aborted_when_settled clear hosts hparse tended valid hid hheld cancels tended' hdone
    · refine settled_after_runs shadow hqueue ?_
      intro task hmem
      rw [List.append_nil] at hmem
      exact hsettled task hmem

end Histories

/-- The bytes that a waiting parse has received. -/
def received? : Waiter ν ε → Option (List UInt8)
  | .parse operation => some (Event.received operation.transcript)
  | .read _ => none

/-- A source that gives two bytes, one at a time, and then nothing. -/
def holding : Reactor Unit Unit where
  buffers := [.ofLimit 16]
  sources := [{ chunks := [[97], [98]], atEnd := .hold }]

/-- A parse that never has enough. -/
def insatiable : Operation Unit Unit where
  id := 7
  place := .listed 0 0
  parser _ := .more none
  readSize := 4

/-- The parse waits for its third read, which is given up with everything else, or cancelled. -/
theorem held_parse_given_up_or_cancelled :
    let start := Request.start 7 0 0 insatiable.parser 4
    ∃ waiting, (holding.after [start, .run (some 2)]).held = [(.listed 0, .parse waiting)] ∧
      Event.received waiting.transcript = [97, 98] ∧
      (((holding.after [start, .run (some 2)]).serve .abandon).reactor.feedAt
        (.listed 0 0)).buffer.Resumable [97, 98] 16 ∧
      (holding.news 7 [start, .run (some 2), .cancelSource 0, .run none]).completions =
        [.parsed 7 (waiting.transcript ++ [.read { code := .operationAborted }])
          (.failed (.ofRead .operationAborted))] := by
  intro start
  have hwaits : (holding.after [start, .run (some 2)]).held.map
      (fun entry => (entry.1, entry.2.id, received? entry.2)) =
        [(.listed 0, 7, some [97, 98])] := by
    decide +kernel
  obtain ⟨⟨source, waiter⟩, hheld, hentry⟩ := List.map_eq_singleton_iff.mp hwaits
  obtain ⟨rfl, hid, hreceived⟩ : source = .listed 0 ∧ waiter.id = 7 ∧
      received? waiter = some [97, 98] := by
    simpa using hentry
  obtain ⟨waiting, rfl⟩ : ∃ waiting, waiter = .parse waiting := by
    cases waiter with
    | parse waiting => exact ⟨waiting, rfl⟩
    | read id => exact absurd hreceived nofun
  have hreceived : Event.received waiting.transcript = [97, 98] := Option.some.inj hreceived
  have clear : holding.Clear insatiable.id insatiable.place := clear_of_idle rfl
  have hosts : holding.Hosts insatiable.place := ⟨Nat.one_pos, Nat.one_pos⟩
  have hparse : start.parse? (holding.readSizeAt insatiable.place) = some insatiable := rfl
  have tended : ∀ count?, ∀ request ∈ [Request.run count?],
      request.Tends holding insatiable.id insatiable.place := by
    intro count? request hmem
    rw [List.mem_singleton.mp hmem]
    exact .inl (spares_run count?)
  have hmem : (.listed 0, .parse waiting) ∈ (holding.after [start, .run (some 2)]).held := by
    rw [hheld]
    exact List.mem_cons_self
  have hsettled : ((holding.after [start, .run (some 2)]).after
      [.cancelSource 0, .run none]).Settled insatiable.id := by
    have hqueue : ((holding.after [start, .run (some 2)]).after
        [.cancelSource 0, .run none]).queue = [] := by
      rw [← List.isEmpty_iff]
      decide +kernel
    intro task hmem
    rw [hqueue] at hmem
    exact absurd hmem List.not_mem_nil
  obtain ⟨-, habandoned, hcancelled, -⟩ := resumable_when_awaiting clear hosts
    (Buffer.valid_ofLimit 16) hparse (tended (some 2)) (.held hid hmem)
  obtain ⟨-, hdone, -⟩ := hcancelled ⟨_, hmem⟩ (.cancelSource 0) ⟨_, rfl, rfl⟩
  obtain ⟨hnews, -⟩ := hdone [.run none] (tended none) hsettled
  rw [hreceived] at habandoned
  exact ⟨waiting, hheld, hreceived, habandoned, congrArg News.completions hnews⟩

end Reactor

end StreamParse
