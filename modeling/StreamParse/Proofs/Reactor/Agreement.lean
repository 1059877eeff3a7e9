import StreamParse.Proofs.Reactor.Service

/-!
# Waiting and not waiting

A job may be waited for, or started and left to the queue.  It comes to the same: its caller is
told the same, after as many looks and reads, and the reactor is the same afterwards.  A fault
reaches the caller of a started job through the call that starts it when no read came before, and
otherwise through the run of the queue, and there is no completion then.

Of a job that was started only what its caller can see counts here: the response to the call, the
response to the run, and in them nothing but what belongs to the job.
-/

namespace StreamParse

variable {ν ε : Type}

/-- The reply to a read that gives bytes only where it has not failed. -/
def Session.Reply.ofBytes (delivery : Delivery) : Session.Reply ν ε :=
  if delivery.code.failed then .readFailed delivery.code else .bytes delivery.bytes

/-- What happened before a reply, where a parser was asked. -/
def Session.Reply.transcript : Session.Reply ν ε → List (Event ν ε)
  | .parsed _ transcript => transcript
  | _ => []

/-- Something to be done at a place, and waited for or not. -/
inductive Job (ν ε : Type) where
  | parse (source buffer : Nat) (mode : AnswerMode ε) (parser : Parser ν ε) (readSize : UInt64)
  | session (seat : Nat) (command : Session.Command ν ε)

namespace Job

def place : Job ν ε → Place
  | parse source buffer _ _ _ => .listed source buffer
  | session seat _ => .seat seat

/-- The request that does the job and waits for it. -/
def waiting : Job ν ε → Request ν ε
  | parse source buffer mode parser readSize => .parse source buffer mode parser readSize
  | session seat command => .session seat command

/-- The request that starts the job.  Settings do not wait for anything, and cannot be started. -/
def starting (id : Nat) : Job ν ε → Option (Request ν ε)
  | parse source buffer _ parser readSize => some (.start id source buffer parser readSize)
  | session seat (.parse _ parser) => some (.startSessionParse id seat parser)
  | session seat (.read sizes) => some (.startSessionRead id seat sizes)
  | session seat (.readBytes sizes) => some (.startSessionRead id seat sizes)
  | session _ _ => none

end Job

namespace Response

/-- What a caller who waited is told. -/
def toldAtOnce (response : Response ν ε) : Option (Session.Reply ν ε) :=
  match response.reply with
  | .session reply => some reply
  | _ => none

/-- What the caller of a parse is told by the response to its start and by that to the run behind
it. -/
def toldOfParse (id : Nat) (mode : AnswerMode ε) (started ran : Response ν ε) :
    Option (Session.Reply ν ε) :=
  match started.reply, ran.reply, ran.completions, ran.breakdown with
  | .started (.error fault) transcript, .ran _ none, [], none =>
      if Event.deliveries transcript = [] then
        some (.parsed (some (mode.present (.error fault))) transcript)
      else none
  | .started (.ok _) _, .ran _ none, [.parsed other transcript result], none =>
      if other = id then some (.parsed (some (mode.present (.ok result))) transcript) else none
  | .started (.ok _) _, .ran _ (some fault), [], some breakdown =>
      if breakdown.id = id ∧ Event.deliveries breakdown.transcript ≠ [] then
        some (.parsed (some (mode.present (.error fault))) breakdown.transcript)
      else none
  | _, _, _, _ => none

/-- What the caller of a read is told. -/
def toldOfRead (id : Nat) (started ran : Response ν ε) : Option Delivery :=
  match started.reply, ran.reply, ran.completions with
  | .readStarted, .ran _ none, [.read other delivery] => if other = id then some delivery else none
  | _, _, _ => none

/-- What the caller of a job is told that was started. -/
def told (id : Nat) (started ran : Response ν ε) : Job ν ε → Option (Session.Reply ν ε)
  | .parse _ _ mode _ _ => toldOfParse id mode started ran
  | .session _ (.parse mode _) => toldOfParse id mode started ran
  | .session _ (.read _) => (toldOfRead id started ran).map .read
  | .session _ (.readBytes _) => (toldOfRead id started ran).map .ofBytes
  | .session _ _ => none

end Response

namespace Reactor

section Jobs

variable [Allocator]

/-- Does a job: what its caller is told, and the reactor after it.  With an identifier the job is
started, where that is possible, and the queue is run until it is empty. -/
def carryOut (reactor : Reactor ν ε) (job : Job ν ε) (id? : Option Nat) :
    Option (Session.Reply ν ε) × Reactor ν ε :=
  match id?.bind fun id => (job.starting id).map (id, ·) with
  | none =>
      let response := reactor.serve job.waiting
      (response.toldAtOnce, response.reactor)
  | some (id, request) =>
      let started := reactor.serve request
      let ran := started.reactor.serve (.run none)
      (Response.told id started ran job, ran.reactor)

/-- Does one job after another, and lists what came of each. -/
def carryOutAll (reactor : Reactor ν ε) :
    List (Job ν ε × Option Nat) → List (Option (Session.Reply ν ε) × Reactor ν ε)
  | [] => []
  | (job, id?) :: jobs =>
      reactor.carryOut job id? :: (reactor.carryOut job id?).2.carryOutAll jobs

variable {reactor : Reactor ν ε} {place : Place} {parser : Parser ν ε} {readSize : UInt64}

/-! ## Parses -/

/-- A parse that was started and run tells what the parse tells, and leaves its feed. -/
theorem told_of_respondStart (id : Nat) (mode : AnswerMode ε) (hosts : reactor.Hosts place)
    (hend : (reactor.feedAt place).source.atEnd ≠ .hold) (hidle : reactor.queue = [])
    (fruitful : Event.Fruitful ((reactor.feedAt place).parse parser readSize).transcript) :
    Response.toldOfParse id mode (reactor.respondStart id place parser readSize)
        (reactor.respondStart id place parser readSize).reactor.drain.response =
      some (.parsed (((reactor.feedAt place).parse parser readSize).answer.map mode.present)
        ((reactor.feedAt place).parse parser readSize).transcript) ∧
    (reactor.respondStart id place parser readSize).reactor.drain.reactor =
      reactor.putFeed place ((reactor.feedAt place).parse parser readSize).feed := by
  by_cases hread : readSize = 0
  · subst hread
    have hstart : reactor.startParse id place parser 0 = (.error .zeroReadSize, [], reactor) := rfl
    rw [respondStart, hstart, Feed.parse_zero, putFeed_feedAt, drain, run_of_idle hidle]
    exact ⟨rfl, rfl⟩
  · obtain ⟨answer, hanswer⟩ := Feed.parse_answers_of_fruitful parser readSize fruitful
    have hcourse := Feed.course_of_parse hread hanswer
    have hstarts := starts_of_course hread hcourse fruitful hosts rfl hend hidle id []
    rw [hanswer]
    generalize (reactor.feedAt place).parse parser readSize = parsed at *
    rw [respondStart, startParse, if_neg hread]
    generalize reactor.drive _ = driven at hstarts
    have hidle' : (reactor.putFeed place parsed.feed).queue = [] := by
      rw [queue_putFeed, hidle]
    cases hstarts with
    | settled hreads =>
        cases answer with
        | error fault =>
            simp only [List.nil_append, drain, run_of_idle hidle', Progress.response,
              Response.toldOfParse, Option.map_none, if_pos hreads, Option.map_some, and_self]
        | ok result =>
            have hfinish : perform (reactor.putFeed place parsed.feed)
                (.finish id parsed.transcript result) =
              (.ok (some (.parsed id parsed.transcript result)),
                reactor.putFeed place parsed.feed) := rfl
            have hdrain := drain_enqueue hidle' hfinish
            simp only [List.nil_append, hdrain, Progress.response, Response.toldOfParse,
              Option.map_none, if_true, Option.map_some, and_self]
    | @waiting shown next hreads hdepth hrun =>
        have hsettles : Settles id parsed.transcript _ answer next.drain := hrun _ hdepth
        simp only []
        generalize next.drain = progress at hsettles ⊢
        cases hsettles with
        | completed result ran =>
            simp only [Progress.response, Response.toldOfParse, Option.map_none, if_true,
              Option.map_some, and_self]
        | broken fault ran =>
            simp only [Progress.response, Response.toldOfParse, Option.map_some, ne_eq, hreads,
              not_false_eq_true, and_self, if_true]

/-! ## Reads -/

omit [Allocator] in
theorem startSessionRead_eq (id : Nat) {index : Nat} (room : Nat)
    (hend : (reactor.feedAt (.seat index)).source.atEnd ≠ .hold) :
    reactor.startSessionRead id index room =
      (reactor.putFeed (.seat index) ((reactor.sessionAt index).read room).2.feed).enqueue
        (.arrive (.read id) ((reactor.sessionAt index).read room).1) := by
  have hfeed : (reactor.sessionAt index).feed = reactor.feedAt (.seat index) := rfl
  by_cases hempty : (reactor.feedAt (.seat index)).buffer.size = 0
  · simp only [startSessionRead, Session.read, hfeed, if_pos hempty,
      Source.startRead_of_ends hend, await]
  · simp only [startSessionRead, Session.read, hfeed, if_neg hempty]

/-- A read that was started and run delivers what the read delivers, and leaves its feed. -/
theorem told_of_startSessionRead (id : Nat) {index : Nat} (room : Nat)
    (hend : (reactor.feedAt (.seat index)).source.atEnd ≠ .hold) (hidle : reactor.queue = []) :
    Response.toldOfRead id
        { reply := .readStarted, reactor := reactor.startSessionRead id index room }
        (reactor.startSessionRead id index room).drain.response =
      some ((reactor.sessionAt index).read room).1 ∧
    (reactor.startSessionRead id index room).drain.reactor =
      reactor.putFeed (.seat index) ((reactor.sessionAt index).read room).2.feed := by
  rw [startSessionRead_eq id room hend]
  generalize (reactor.sessionAt index).read room = served
  have hidle' : (reactor.putFeed (.seat index) served.2.feed).queue = [] := by
    rw [queue_putFeed, hidle]
  have harrive : perform (reactor.putFeed (.seat index) served.2.feed)
      (.arrive (.read id) served.1) =
    (.ok (some (.read id served.1)), reactor.putFeed (.seat index) served.2.feed) := rfl
  rw [drain_enqueue hidle' harrive]
  simp only [Progress.response, Response.toldOfRead, Option.map_none, if_true, and_self]

/-! ## One job -/

omit [Allocator] in
/-- A session that was only parsed or read from leaves a feed, and the settings of its seat. -/
theorem putSession_eq {index : Nat} (hindex : index < reactor.seats.length) {session : Session}
    (hreadSize : session.readSize = (reactor.sessionAt index).readSize) :
    reactor.putSession index session = reactor.putFeed (.seat index) session.feed := by
  have hseat := seatAt_putFeed_self session.feed hindex
  have hsame : { (reactor.putFeed (.seat index) session.feed).seatAt index with
      readSize := session.readSize } =
      (reactor.putFeed (.seat index) session.feed).seatAt index := by
    rw [hseat, hreadSize]
    rfl
  simp only [putSession, hsame]
  rw [setSeat, seatAt, set_getD_self]

theorem carryOut_parse {source buffer : Nat} (hosts : reactor.Hosts (.listed source buffer))
    (mode : AnswerMode ε) (parser : Parser ν ε) (readSize : UInt64) :
    reactor.carryOut (.parse source buffer mode parser readSize) none =
      (some (.parsed
          (((reactor.feedAt (.listed source buffer)).parse parser readSize).answer.map mode.present)
          ((reactor.feedAt (.listed source buffer)).parse parser readSize).transcript),
        reactor.putFeed (.listed source buffer)
          ((reactor.feedAt (.listed source buffer)).parse parser readSize).feed) := by
  simp only [carryOut, Option.bind_none, Job.waiting, serve_parse hosts, Response.toldAtOnce]

theorem carryOut_session {index : Nat} (hosts : reactor.Hosts (.seat index))
    (command : Session.Command ν ε) :
    reactor.carryOut (.session index command) none =
      (some ((reactor.sessionAt index).perform command).1,
        reactor.putSession index ((reactor.sessionAt index).perform command).2) := by
  simp only [carryOut, Option.bind_none, Job.waiting, serve_session hosts.1, Response.toldAtOnce]

/-- A command that leaves the settings alone leaves a feed. -/
theorem carryOut_session_eq {index : Nat} (hosts : reactor.Hosts (.seat index))
    {command : Session.Command ν ε} {reply : Session.Reply ν ε} {next : Session}
    (hperform : (reactor.sessionAt index).perform command = (reply, next))
    (hsettings : next.readSize = (reactor.sessionAt index).readSize) :
    reactor.carryOut (.session index command) none =
      (some reply, reactor.putFeed (.seat index) next.feed) := by
  rw [carryOut_session hosts, hperform, putSession_eq hosts.1 hsettings]

theorem carryOut_started {job : Job ν ε} {id : Nat} {request : Request ν ε}
    (hstarting : job.starting id = some request) :
    reactor.carryOut job (some id) =
      (Response.told id (reactor.serve request) (reactor.serve request).reactor.drain.response job,
        (reactor.serve request).reactor.drain.reactor) := by
  simp only [carryOut, Option.bind_some, hstarting, Option.map_some]
  rfl

theorem carryOut_parse_started {source buffer : Nat} (id : Nat) (mode : AnswerMode ε)
    (hosts : reactor.Hosts (.listed source buffer))
    (hend : (reactor.feedAt (.listed source buffer)).source.atEnd ≠ .hold)
    (hidle : reactor.queue = [])
    (fruitful : Event.Fruitful
      ((reactor.feedAt (.listed source buffer)).parse parser readSize).transcript) :
    reactor.carryOut (.parse source buffer mode parser readSize) (some id) =
      reactor.carryOut (.parse source buffer mode parser readSize) none := by
  obtain ⟨htold, hreactor⟩ := told_of_respondStart id mode hosts hend hidle fruitful
  have hserve : reactor.serve (.start id source buffer parser readSize) =
      reactor.respondStart id (.listed source buffer) parser readSize := by
    rw [serve, respond, getElem?_eq_some_getD .closed hosts.1,
      getElem?_eq_some_getD .unlimited hosts.2]
    rfl
  rw [carryOut_parse hosts, carryOut_started rfl, hserve, hreactor, Response.told, htold]

theorem carryOut_sessionParse_started {index : Nat} (id : Nat) (mode : AnswerMode ε)
    (hosts : reactor.Hosts (.seat index))
    (hend : (reactor.feedAt (.seat index)).source.atEnd ≠ .hold) (hidle : reactor.queue = [])
    (fruitful : Event.Fruitful ((reactor.feedAt (.seat index)).parse parser
      (reactor.seatAt index).readSize).transcript) :
    reactor.carryOut (.session index (.parse mode parser)) (some id) =
      reactor.carryOut (.session index (.parse mode parser)) none := by
  obtain ⟨htold, hreactor⟩ := told_of_respondStart id mode hosts hend hidle fruitful
  have hserve : reactor.serve (.startSessionParse id index parser) =
      reactor.respondStart id (.seat index) parser (reactor.seatAt index).readSize := by
    rw [serve, respond, getElem?_eq_some_getD { layer := .released } hosts.1]
    rfl
  rw [carryOut_session_eq hosts (Session.perform_parse _ mode parser) rfl, carryOut_started rfl,
    hserve, hreactor, Response.told, htold]
  rfl

/-- Any command that reads, and presents its delivery in a way of its own. -/
theorem carryOut_sessionRead_started {index : Nat} (id : Nat) (sizes : List Nat)
    {command : Session.Command ν ε} (present : Delivery → Session.Reply ν ε)
    (hosts : reactor.Hosts (.seat index))
    (hend : (reactor.feedAt (.seat index)).source.atEnd ≠ .hold) (hidle : reactor.queue = [])
    (hstarting : (Job.session index command).starting id = some (.startSessionRead id index sizes))
    (htelling : ∀ started ran, Response.told id started ran (.session index command) =
      (Response.toldOfRead id started ran).map present)
    (hperform : ∀ session : Session, session.perform command =
      (present (session.read (sizes.foldr (· + ·) 0)).1,
        (session.read (sizes.foldr (· + ·) 0)).2)) :
    reactor.carryOut (.session index command) (some id) =
      reactor.carryOut (.session index command) none := by
  obtain ⟨htold, hreactor⟩ := told_of_startSessionRead id (sizes.foldr (· + ·) 0) hend hidle
  have hserve : reactor.serve (.startSessionRead id index sizes) =
      { reply := .readStarted
        reactor := reactor.startSessionRead id index (sizes.foldr (· + ·) 0) } := by
    rw [serve, respond, getElem?_eq_some_getD { layer := .released } hosts.1]
    rfl
  have hsettings : ((reactor.sessionAt index).read (sizes.foldr (· + ·) 0)).2.readSize =
      (reactor.sessionAt index).readSize := by
    rw [Session.read]
    split <;> rfl
  rw [carryOut_session_eq hosts (hperform _) hsettings, carryOut_started hstarting, hserve,
    hreactor, htelling, htold]
  rfl

/-- A job comes to the same whether it is waited for or not. -/
theorem carryOut_started_eq (job : Job ν ε) (id? : Option Nat) (hosts : reactor.Hosts job.place)
    (hend : (reactor.feedAt job.place).source.atEnd ≠ .hold) (hidle : reactor.queue = [])
    (fruitful : ∀ reply ∈ (reactor.carryOut job none).1, Event.Fruitful reply.transcript) :
    reactor.carryOut job id? = reactor.carryOut job none := by
  cases id? with
  | none => rfl
  | some id =>
      cases job with
      | parse source buffer mode parser readSize =>
          rw [carryOut_parse hosts] at fruitful
          exact carryOut_parse_started id mode hosts hend hidle (fruitful _ rfl)
      | session index command =>
          cases command with
          | parse mode parser =>
              rw [carryOut_session_eq hosts (Session.perform_parse _ mode parser) rfl] at fruitful
              exact carryOut_sessionParse_started id mode hosts hend hidle (fruitful _ rfl)
          | read sizes =>
              exact carryOut_sessionRead_started id sizes .read hosts hend hidle rfl
                (fun _ _ => rfl) (fun _ => rfl)
          | readBytes sizes =>
              exact carryOut_sessionRead_started id sizes .ofBytes hosts hend hidle rfl
                (fun _ _ => rfl) (fun _ => rfl)
          | _ => rfl

/-! ## One job after another -/

omit [Allocator] in
theorem atEnd_read (session : Session) (room : Nat) :
    (session.read room).2.feed.source.atEnd = session.feed.source.atEnd := by
  rw [Session.read]
  split
  · exact Source.atEnd_read _ _
  · rfl

/-- No command changes how the source of a session ends. -/
theorem atEnd_perform {session : Session} {command : Session.Command ν ε}
    (fruitful : Event.Fruitful (session.perform command).1.transcript) :
    (session.perform command).2.feed.source.atEnd = session.feed.source.atEnd := by
  cases command with
  | parse mode parser =>
      rw [Session.perform_parse] at fruitful ⊢
      obtain ⟨answer, hanswer⟩ := Feed.parse_answers_of_fruitful _ _ fruitful
      exact Feed.atEnd_parse hanswer
  | read sizes => exact atEnd_read session _
  | readBytes sizes => exact atEnd_read session _
  | setReadSize readSize =>
      rw [Session.perform, Session.configure_eq (Session.InPlace.attempts_setReadSize readSize),
        Session.setReadSize]
      by_cases hzero : readSize = 0
      · rw [if_pos hzero]
      · rw [if_neg hzero]
  | setLimit limit =>
      rw [Session.perform, Session.configure_eq (Session.InPlace.attempts_setLimit limit),
        Session.setLimit]
      cases session.feed.buffer.setLimit limit <;> rfl
  | settings => rfl

/-- A job that was waited for leaves everything alike. -/
theorem alike_carryOut {job : Job ν ε} (hosts : reactor.Hosts job.place)
    (fruitful : ∀ reply ∈ (reactor.carryOut job none).1, Event.Fruitful reply.transcript) :
    reactor.Alike (reactor.carryOut job none).2 := by
  cases job with
  | parse source buffer mode parser readSize =>
      rw [carryOut_parse hosts] at fruitful ⊢
      obtain ⟨answer, hanswer⟩ := Feed.parse_answers_of_fruitful _ _ (fruitful _ rfl)
      exact alike_putFeed (Feed.atEnd_parse hanswer)
  | session index command =>
      rw [carryOut_session hosts] at fruitful ⊢
      exact alike_putSession (atEnd_perform (fruitful _ rfl))

theorem isSome_carryOut {job : Job ν ε} (hosts : reactor.Hosts job.place) :
    (reactor.carryOut job none).1.isSome = true := by
  cases job with
  | parse source buffer mode parser readSize => rw [carryOut_parse hosts]; rfl
  | session index command => rw [carryOut_session hosts]; rfl

/-- Over sources that do not hold their ends, and whose successful reads bring bytes to every
parse, it does not matter which of the jobs are waited for: job by job the caller is told the same,
and the reactor is the same afterwards, with nothing left in its queue. -/
theorem carryOutAll_agrees (hidle : reactor.queue = []) (jobs : List (Job ν ε × Option Nat))
    (hosts : ∀ job ∈ jobs, reactor.Hosts job.1.place)
    (hends : ∀ job ∈ jobs, (reactor.feedAt job.1.place).source.atEnd ≠ .hold)
    (fruitful : ∀ outcome ∈ reactor.carryOutAll (jobs.map fun job => (job.1, none)),
      ∀ reply ∈ outcome.1, Event.Fruitful reply.transcript) :
    reactor.carryOutAll jobs = reactor.carryOutAll (jobs.map fun job => (job.1, none)) ∧
      ∀ outcome ∈ reactor.carryOutAll jobs,
        outcome.1.isSome = true ∧ outcome.2.queue = [] := by
  induction jobs generalizing reactor with
  | nil => exact ⟨rfl, fun outcome hmem => absurd hmem List.not_mem_nil⟩
  | cons job jobs ih =>
      rw [List.map_cons, carryOutAll] at fruitful
      have hhosts := hosts job List.mem_cons_self
      have hfirst := fruitful _ List.mem_cons_self
      have hend := hends job List.mem_cons_self
      have hsame := carryOut_started_eq job.1 job.2 hhosts hend hidle hfirst
      have halike := alike_carryOut hhosts hfirst
      have hidle' := halike.queue.trans hidle
      obtain ⟨hrest, houtcomes⟩ := ih hidle'
        (fun job hmem => (halike.hosts _).mpr (hosts job (List.mem_cons_of_mem _ hmem)))
        (fun job hmem => by
          rw [halike.atEnd]
          exact hends job (List.mem_cons_of_mem _ hmem))
        (fun outcome hmem => fruitful outcome (List.mem_cons_of_mem _ hmem))
      rw [List.map_cons, carryOutAll, carryOutAll, hsame, hrest]
      refine ⟨rfl, ?_⟩
      intro outcome hmem
      rcases List.mem_cons.mp hmem with rfl | hlater
      · exact ⟨isSome_carryOut hhosts, hidle'⟩
      · rw [← hrest] at hlater
        exact houtcomes outcome hlater

end Jobs

/-- A session over a source of its own with a byte read ahead, and a listed source whose second read
fails with its bytes. -/
def ownedAndListed : Reactor (List UInt8) BadByte where
  buffers := [{ limit := 6 }]
  sources :=
    [{ chunks := [[0x47, 0x45], [0x54, 0x20, 0x78]], injections := [⟨2, .timedOut, true⟩] }]
  seats :=
    [{ layer := .owned { chunks := [[0x41, 0x20], [0x42, 0x43]], cap := some 1 }
       buffer := { size := 1, capacity := 1, storage := .ofList [0x5a] }, readSize := 2 }]

/-- Parses that read, fail, break down in the run or are refused at once, with raw reads among
them. -/
def mixedJobs : List (Job (List UInt8) BadByte × Option Nat) :=
  [(.parse 0 0 .result Parser.token 3, some 7),
    (.session 0 (.parse .value Parser.token), some 8),
    (.parse 0 0 .result Parser.token 2, none),
    (.session 0 (.parse .result Parser.greedy), some 9),
    (.session 0 (.read [1, 2]), some 10),
    (.session 0 (.parse .result Parser.greedy), some 11),
    (.parse 0 0 .result Parser.token 0, some 12)]

/-- Waited for or not, the jobs come to the same. -/
theorem mixed_jobs_agree :
    ownedAndListed.carryOutAll mixedJobs =
        ownedAndListed.carryOutAll (mixedJobs.map fun job => (job.1, none)) ∧
      ∀ outcome ∈ ownedAndListed.carryOutAll mixedJobs,
        outcome.1.isSome = true ∧ outcome.2.queue = [] := by
  have hosts : ∀ job ∈ mixedJobs, ownedAndListed.Hosts job.1.place := by
    simp [mixedJobs, ownedAndListed, Job.place, Hosts, seatAt, Layer.HasSource]
  have hends : ∀ job ∈ mixedJobs, (ownedAndListed.feedAt job.1.place).source.atEnd ≠ .hold := by
    simp [mixedJobs, ownedAndListed, Job.place, feedAt, seatAt, Layer.source]
  have fruitful : ∀ outcome ∈ ownedAndListed.carryOutAll (mixedJobs.map fun job => (job.1, none)),
      ∀ reply ∈ outcome.1, Event.Fruitful reply.transcript := by decide
  exact carryOutAll_agrees rfl mixedJobs hosts hends fruitful

end Reactor

end StreamParse
