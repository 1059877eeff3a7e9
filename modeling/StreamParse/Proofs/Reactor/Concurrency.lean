import StreamParse.Parser.Scripted
import StreamParse.Proofs.Reactor.Shadow

/-!
# Concurrent operations

Operations whose sources and buffers are all different share one queue, and still each of them is told
what it is told when there is no other.  Whatever a history does, the shadow of an operation keeps
abreast of it by carrying out its own entries alone, and it has the same news.
-/

namespace StreamParse

variable {ν ε : Type}

namespace Request

/-- Whether a request moves seats or gives operations up. -/
def disturbs : Request ν ε → Bool
  | moveSeat _ => true
  | assignSeat _ _ => true
  | abandon => true
  | _ => false

/-- A request that leaves an operation and its place alone. -/
def Spares (request : Request ν ε) (reactor : Reactor ν ε) (id : Nat) (place : Place) : Prop :=
  request.disturbs = false ∧ request.Avoids reactor place ∧
    ∀ start ∈ request.starts?, start.1 ≠ id

instance (request : Request ν ε) (reactor : Reactor ν ε) (id : Nat) (place : Place) :
    Decidable (request.Spares reactor id place) :=
  inferInstanceAs (Decidable (_ ∧ _ ∧ _))

end Request

/-- What is told of one operation. -/
structure News (ν ε : Type) where
  replies : List (Reply ν ε) := []
  completions : List (Completion ν ε) := []
  breakdowns : List (Breakdown ν ε) := []

namespace News

instance : Append (News ν ε) where
  append first second :=
    { replies := first.replies ++ second.replies
      completions := first.completions ++ second.completions
      breakdowns := first.breakdowns ++ second.breakdowns }

theorem append_def (first second : News ν ε) :
    first ++ second =
      { replies := first.replies ++ second.replies
        completions := first.completions ++ second.completions
        breakdowns := first.breakdowns ++ second.breakdowns } := rfl

theorem empty_append (news : News ν ε) : {} ++ news = news := rfl

theorem append_empty (news : News ν ε) : news ++ {} = news := by
  simp only [append_def, List.append_nil]

theorem append_assoc (first second third : News ν ε) :
    first ++ second ++ third = first ++ (second ++ third) := by
  simp only [append_def, List.append_assoc]

end News

/-- What the response to a request tells of an operation. -/
def Response.news (id : Nat) (request : Request ν ε) (response : Response ν ε) : News ν ε where
  replies := if request.starts?.map Prod.fst = some id then [response.reply] else []
  completions := response.completions.filter fun completion => completion.id == id
  breakdowns := response.breakdown.toList.filter fun breakdown => breakdown.id == id

/-- What a run of the queue tells of an operation. -/
def Reactor.Progress.news (id : Nat) (progress : Reactor.Progress ν ε) : News ν ε where
  completions := progress.completions.filter fun completion => completion.id == id
  breakdowns := progress.breakdown.toList.filter fun breakdown => breakdown.id == id

namespace Reactor

/-- An end of another operation is no news. -/
theorem news_of_not_mem {id : Nat} {completion? : Option (Completion ν ε)}
    (hnone : id ∉ completion?.toList.map Completion.id) :
    (completion?.toList.filter fun completion => completion.id == id) = [] := by
  rw [List.filter_eq_nil_iff]
  intro completion hmem hid
  exact hnone (beq_iff_eq.mp hid ▸ List.mem_map_of_mem hmem)

section Histories

variable [Allocator]

/-- What a history tells of an operation. -/
def news (id : Nat) (reactor : Reactor ν ε) : List (Request ν ε) → News ν ε
  | [] => {}
  | request :: history =>
      (reactor.serve request).news id request ++ (reactor.serve request).reactor.news id history

theorem news_append (id : Nat) (reactor : Reactor ν ε) (before after : List (Request ν ε)) :
    reactor.news id (before ++ after) =
      reactor.news id before ++ (reactor.after before).news id after := by
  induction before generalizing reactor with
  | nil => rfl
  | cons request before ih =>
      rw [List.cons_append, news, ih, news, News.append_assoc]
      rfl

section Abreast

variable {base reactor next alone : Reactor ν ε} {id : Nat} {place : Place}

/-! ## Runs of the queue -/

/-- What a shared reactor and the shadow of an operation have come to: the same news, and a shadow
that has met a fault has nothing left to do. -/
structure Abreast (base : Reactor ν ε) (id : Nat) (place : Place) (reactor : Reactor ν ε)
    (news : News ν ε) (progress : Progress ν ε) : Prop where
  shadow : Shadow base id place reactor progress.reactor
  news : news = progress.news id
  idle : ∀ breakdown ∈ progress.breakdown, progress.reactor.queue = []

/-- A shadow that has done nothing yet. -/
theorem Shadow.abreast (shadow : Shadow base id place reactor alone) :
    Abreast base id place reactor {} (alone.run 0) :=
  ⟨shadow, rfl, nofun⟩

theorem news_behind (id count : Nat) (completion? : Option (Completion ν ε))
    (reactor : Reactor ν ε) :
    (behind count (.ok completion?, reactor)).news id =
      { completions := completion?.toList.filter fun completion => completion.id == id } ++
        (reactor.run count).news id := by
  simp [behind, Progress.news, News.append_def]

/-- While the shared reactor runs its queue, the shadow carries out the entries of its operation. -/
theorem Shadow.run (shadow : Shadow base id place reactor alone) (count : Nat) :
    ∃ own, Abreast base id place (reactor.run count).reactor ((reactor.run count).news id)
      (alone.run own) := by
  induction count generalizing reactor alone with
  | zero => exact ⟨0, shadow.abreast⟩
  | succ count ih =>
      cases hqueue : reactor.queue with
      | nil =>
          rw [run_of_idle hqueue]
          exact ⟨0, shadow.abreast⟩
      | cons task queue =>
          rw [run_succ hqueue]
          -- The shadow takes a step only where the entry at the front is its own.
          by_cases hid : task.id = id
          · obtain ⟨hsame, shadow', hidle⟩ := shadow.perform_own hqueue hid
            have hrun := run_succ (shadow.pop_own hqueue hid).1
            generalize Reactor.perform { reactor with queue } task = performed at hsame shadow'
            generalize Reactor.perform { alone with queue := [] } task = performed'
              at hsame shadow' hidle hrun
            obtain ⟨outcome, next⟩ := performed
            obtain ⟨outcome', next'⟩ := performed'
            obtain rfl : outcome' = outcome := hsame
            cases outcome' with
            | error breakdown =>
                refine ⟨1, ?_⟩
                rw [hrun]
                exact ⟨shadow', rfl, fun _ _ => hidle breakdown rfl⟩
            | ok completion? =>
                obtain ⟨own, abreast⟩ := ih shadow'
                refine ⟨own + 1, ?_⟩
                rw [hrun]
                refine ⟨abreast.shadow, ?_, abreast.idle⟩
                rw [news_behind, news_behind, abreast.news]
          · obtain ⟨shadow', hnone⟩ := shadow.perform_other hqueue hid
            generalize Reactor.perform { reactor with queue } task = performed at shadow' hnone
            rcases performed with ⟨breakdown | completion?, next⟩
            · have hne : breakdown.id ≠ id := by
                rintro rfl
                exact hnone List.mem_cons_self
              refine ⟨0, shadow', ?_, nofun⟩
              simp [behind, Progress.news, run, hne]
            · obtain ⟨own, abreast⟩ := ih shadow'
              refine ⟨own, abreast.shadow, ?_, abreast.idle⟩
              rw [news_behind, news_of_not_mem hnone, abreast.news]
              rfl

/-! ## Requests -/

/-- Whatever a request does elsewhere, the shadow keeps abreast by its own entries alone. -/
theorem Shadow.serve (shadow : Shadow base id place reactor alone) {request : Request ν ε}
    (spares : request.Spares base id place) :
    ∃ own, Abreast base id place (reactor.serve request).reactor
      ((reactor.serve request).news id request) (alone.run own) := by
  obtain ⟨hdisturbs, avoids, hother⟩ := spares
  have hseats : request.movesSeat = false := by
    cases request <;> first | rfl | exact hdisturbs
  have hstarted : request.starts?.map Prod.fst ≠ some id := by
    rw [ne_eq, Option.map_eq_some_iff]
    rintro ⟨start, hstart, hid⟩
    exact hother start hstart hid
  have avoids' := (avoids_congr shadow.sourceId?).mpr avoids
  have hserved := reactor.served hseats
  generalize reactor.serve request = response at hserved ⊢
  cases hserved with
  | quiet hstarts minds =>
      refine ⟨0, shadow.keeps minds.toKeeps (minds.cells place shadow.stands avoids'), ?_, nofun⟩
      rw [Response.news, if_neg hstarted]
      rfl
  | @started _ owner other hstarts stands =>
      have accounts := request.accounts_stint hstarts (reactor.readSizeAt other)
        (reactor.feedAt other)
      refine ⟨0, shadow.settle_other (hother _ hstarts) stands (apart_of_avoids hstarts avoids)
        accounts, ?_, nofun⟩
      rw [Response.news, if_neg hstarted]
      rfl
  | ran count =>
      obtain ⟨own, abreast⟩ := shadow.run count
      refine ⟨own, abreast.shadow, ?_, abreast.idle⟩
      rw [Response.news, if_neg hstarted, ← abreast.news]
      rfl
  | cancelled hcancels =>
      have hsource := mem_sourceIds_of_cancels? hcancels
      refine ⟨0, shadow.cancel_other ?_, ?_, nofun⟩
      · rw [← shadow.sourceId?]
        exact fun hown => avoids'.2 _ hown hsource
      rw [Response.news, if_neg hstarted]
      rfl
  | abandoned => exact absurd hdisturbs nofun

/-- The start of the operation is the start of the shadow. -/
theorem Shadow.start (shadow : Shadow base id place reactor alone)
    (hidle : alone.outstanding = []) {request : Request ν ε}
    (hstarts : request.starts? = some (id, place)) :
    Shadow base id place (reactor.serve request).reactor (alone.serve request).reactor ∧
      (reactor.serve request).news id request = (alone.serve request).news id request := by
  have hopening : alone.opening request place = reactor.opening request place := by
    rw [opening, opening, readSizeAt_congr shadow.cells, feedAt_congr shadow.cells]
  rw [serve_of_stands hstarts shadow.stands,
    serve_of_stands hstarts ((stands_congr shadow.cells).mp shadow.stands), hopening]
  exact ⟨shadow.settle_own hidle (request.accounts_stint hstarts _ _), rfl⟩

/-! ## Histories -/

/-- What the shadow does in two pieces it does in one. -/
theorem Abreast.extend {told told' : News ν ε} {own more : Nat}
    (abreast : Abreast base id place reactor told (alone.run own))
    (further : Abreast base id place next told' ((alone.run own).reactor.run more)) :
    ∃ own', Abreast base id place next (told ++ told') (alone.run own') := by
  cases hbroken : (alone.run own).breakdown with
  | some breakdown =>
      -- A run that met a fault is not a piece of a longer run, but nothing is left to add to it.
      have hidle := abreast.idle breakdown hbroken
      rw [run_of_idle hidle] at further
      refine ⟨own, further.shadow, ?_, abreast.idle⟩
      rw [further.news, ← abreast.news]
      exact News.append_empty told
  | none =>
      have hrun := run_add hbroken more
      refine ⟨own + more, ?_⟩
      rw [hrun]
      refine ⟨further.shadow, ?_, further.idle⟩
      rw [abreast.news, further.news]
      simp [Progress.news, News.append_def, hbroken]

/-- A history of requests that all leave the operation alone. -/
theorem Abreast.after {history : List (Request ν ε)} {told : News ν ε} {own : Nat}
    (abreast : Abreast base id place reactor told (alone.run own))
    (spared : ∀ request ∈ history, request.Spares base id place) :
    ∃ own', Abreast base id place (reactor.after history) (told ++ reactor.news id history)
      (alone.run own') := by
  induction history generalizing reactor told own with
  | nil =>
      refine ⟨own, abreast.shadow, ?_, abreast.idle⟩
      rw [← abreast.news]
      exact News.append_empty told
  | cons request history ih =>
      obtain ⟨more, further⟩ := abreast.shadow.serve (spared request List.mem_cons_self)
      obtain ⟨own', abreast'⟩ := abreast.extend further
      obtain ⟨own'', abreast''⟩ := ih abreast'
        fun other hmem => spared other (List.mem_cons_of_mem _ hmem)
      rw [News.append_assoc] at abreast''
      exact ⟨own'', abreast''⟩

end Abreast

/-- A request that leaves alone what another one starts. -/
def Harmless (reactor : Reactor ν ε) (request starting : Request ν ε) : Prop :=
  ∀ start ∈ starting.starts?, request.Spares reactor start.1 start.2

instance (reactor : Reactor ν ε) (request starting : Request ν ε) :
    Decidable (reactor.Harmless request starting) :=
  inferInstanceAs (Decidable (∀ start ∈ starting.starts?, _))

/-- A history in which nothing has to do with the sources and buffers of a started operation but that
operation. -/
structure Separate (reactor : Reactor ν ε) (history : List (Request ν ε)) : Prop where
  clear : ∀ request ∈ history, ∀ start ∈ request.starts?,
    reactor.Stands start.2 ∧ reactor.Clear start.1 start.2
  harmless : history.Pairwise fun first second =>
    reactor.Harmless first second ∧ reactor.Harmless second first

variable {reactor : Reactor ν ε} {id : Nat} {place : Place}

/-- At any moment of a separate history a started operation has come as far as it would alone by a
run of some length. -/
theorem Separate.alone {history : List (Request ν ε)} (separate : reactor.Separate history)
    {start : Request ν ε} (hmem : start ∈ history) (hstarts : start.starts? = some (id, place)) :
    ∃ own, Shadow reactor id place (reactor.after history)
        (reactor.abandon.after [start, .run (some own)]) ∧
      reactor.news id history = reactor.abandon.news id [start, .run (some own)] := by
  obtain ⟨stands, clear⟩ := separate.clear start hmem _ hstarts
  obtain ⟨before, after, rfl⟩ := List.append_of_mem hmem
  obtain ⟨-, hlater, hcross⟩ := List.pairwise_append.mp separate.harmless
  have hbefore : ∀ request ∈ before, request.Spares reactor id place := by
    intro request hrequest
    exact (hcross request hrequest start List.mem_cons_self).1 _ hstarts
  have hafter : ∀ request ∈ after, request.Spares reactor id place := by
    intro request hrequest
    exact ((List.pairwise_cons.mp hlater).1 request hrequest).2 _ hstarts
  -- Up to its start the operation is not heard of, and its shadow is idle.
  have hidle : ∀ count, reactor.abandon.run count = { reactor := reactor.abandon } :=
    run_of_idle rfl
  obtain ⟨early, hearly⟩ := (clear.shadow stands).abreast.after hbefore
  rw [hidle] at hearly
  have hsilent : reactor.news id before = {} := hearly.news
  obtain ⟨hshadow, hstart⟩ := hearly.shadow.start rfl hstarts
  obtain ⟨own, hlate⟩ := hshadow.abreast.after hafter
  have hnews : ((reactor.after before).serve start).reactor.news id after =
      ((reactor.abandon.serve start).reactor.run own).news id := hlate.news
  refine ⟨own, ?_, ?_⟩
  · rw [after_append]
    exact hlate.shadow
  · rw [news_append, hsilent, News.empty_append, news, hstart, hnews, news, news, news,
      News.append_empty]
    rfl

/-- All runs that empty the queue come to the same. -/
theorem alone_of_idle {start : Request ν ε} {count more : Nat}
    (hcount : (reactor.after [start, .run (some count)]).queue = [])
    (hmore : (reactor.after [start, .run (some more)]).queue = []) :
    reactor.news id [start, .run (some count)] = reactor.news id [start, .run (some more)] ∧
      reactor.after [start, .run (some count)] = reactor.after [start, .run (some more)] := by
  have hafter : ∀ count, reactor.after [start, .run (some count)] =
      ((reactor.serve start).reactor.run count).reactor := fun _ => rfl
  have hnews : ∀ count, reactor.news id [start, .run (some count)] =
      (reactor.serve start).news id start ++ (((reactor.serve start).reactor.run count).news id) :=
    fun _ => congrArg _ (News.append_empty _)
  rw [hafter] at hcount hmore
  have hsame : (reactor.serve start).reactor.run count =
      (reactor.serve start).reactor.run more := by
    rcases Nat.le_total count more with hle | hle
    · exact (run_eq_of_idle hcount hle).symm
    · exact run_eq_of_idle hmore hle
  rw [hafter, hafter, hnews, hnews, hsame]
  exact ⟨rfl, rfl⟩

/-- Once no entry of an operation is queued it has come as far as it can alone. -/
theorem Separate.settled {history : List (Request ν ε)} (separate : reactor.Separate history)
    {start : Request ν ε} (hmem : start ∈ history) (hstarts : start.starts? = some (id, place))
    (hended : ∀ task ∈ (reactor.after history).queue, task.id ≠ id) :
    ∃ own, (reactor.abandon.after [start, .run (some own)]).queue = [] ∧
      reactor.news id history = reactor.abandon.news id [start, .run (some own)] ∧
      (reactor.after history).feedAt place =
        (reactor.abandon.after [start, .run (some own)]).feedAt place := by
  obtain ⟨own, shadow, hnews⟩ := separate.alone hmem hstarts
  refine ⟨own, ?_, hnews, feedAt_congr shadow.cells⟩
  rw [← shadow.queue, queueOf, List.filter_eq_nil_iff]
  intro task htask hid
  exact hended task htask (beq_iff_eq.mp hid)

/-- An operation of a separate history, once no entry of it is queued, has been told what it is told
when it is started alone and the queue is run until it is empty, and its source and buffer are left
the same.  So they are in any other separate history, whatever the order of the starts and however
the runs are cut. -/
theorem concurrent_as_alone {history : List (Request ν ε)} (separate : reactor.Separate history)
    {start : Request ν ε} (hmem : start ∈ history) (hstarts : start.starts? = some (id, place))
    (hended : ∀ task ∈ (reactor.after history).queue, task.id ≠ id) :
    (∃ count, (reactor.abandon.after [start, .run (some count)]).queue = []) ∧
    (∀ count, (reactor.abandon.after [start, .run (some count)]).queue = [] →
      reactor.news id history = reactor.abandon.news id [start, .run (some count)] ∧
      (reactor.after history).feedAt place =
        (reactor.abandon.after [start, .run (some count)]).feedAt place) ∧
    ∀ other, reactor.Separate other → start ∈ other →
      (∀ task ∈ (reactor.after other).queue, task.id ≠ id) →
      reactor.news id other = reactor.news id history ∧
      (reactor.after other).feedAt place = (reactor.after history).feedAt place := by
  obtain ⟨own, hidle, hnews, hfeed⟩ := separate.settled hmem hstarts hended
  refine ⟨⟨own, hidle⟩, ?_, ?_⟩
  · intro count hcount
    obtain ⟨hsame, hafter⟩ := alone_of_idle hidle hcount
    rw [hnews, hfeed, hsame, hafter]
    exact ⟨rfl, rfl⟩
  · intro other separate' hmem' hended'
    obtain ⟨own', hidle', hnews', hfeed'⟩ := separate'.settled hmem' hstarts hended'
    obtain ⟨hsame, hafter⟩ := alone_of_idle hidle hidle'
    rw [hnews, hfeed, hsame, hafter]
    exact ⟨hnews', hfeed'⟩

end Histories

/-- Three listed sources and buffers, and a session over a source of its own. -/
def fourPlaces : Reactor (List UInt8) BadByte where
  buffers := [.unlimited, .unlimited, .unlimited]
  sources :=
    [{ chunks := [[0x41, 0x42], [0x43, 0x20]] }, { chunks := [[0x44], [0x45]] },
      { chunks := [[0x46, 0x20]] }]
  seats := [{ layer := .owned { chunks := [[0x47], [0x48]] } }]

/-- Two parses and a raw read, a parse that is waited for among them.  The second parse breaks down
in the middle of a run. -/
def interleaved : List (Request (List UInt8) BadByte) :=
  [.start 1 0 0 Parser.token 2, .run (some 1), .start 2 1 1 Parser.greedy 2,
    .parse 2 2 .value Parser.token 2, .startSessionRead 3 0 [1], .run none, .run (some 1),
    .run none]

/-- The first parse is told what it is told alone, which one run of two entries shows. -/
theorem interleaved_parse_as_alone :
    fourPlaces.Separate interleaved ∧ (∀ task ∈ (fourPlaces.after interleaved).queue, task.id ≠ 1) ∧
      (fourPlaces.abandon.after [.start 1 0 0 Parser.token 2, .run (some 2)]).queue = [] ∧
      fourPlaces.news 1 interleaved =
        fourPlaces.abandon.news 1 [.start 1 0 0 Parser.token 2, .run (some 2)] ∧
      (fourPlaces.after interleaved).feedAt (.listed 0 0) =
        (fourPlaces.abandon.after [.start 1 0 0 Parser.token 2, .run (some 2)]).feedAt
          (.listed 0 0) := by
  have stands : ∀ request ∈ interleaved, ∀ start ∈ request.starts?, fourPlaces.Stands start.2 := by
    simp [interleaved, Request.starts?, Stands, fourPlaces]
  have separate : fourPlaces.Separate interleaved :=
    ⟨fun request hmem start hstart => ⟨stands request hmem start hstart, clear_of_idle rfl⟩,
      by decide⟩
  have hended : ∀ task ∈ (fourPlaces.after interleaved).queue, task.id ≠ 1 := by decide
  have hidle : (fourPlaces.abandon.after
      [.start 1 0 0 Parser.token 2, .run (some 2)]).queue = [] := rfl
  have hsame := (concurrent_as_alone separate List.mem_cons_self rfl hended).2.1 2 hidle
  exact ⟨separate, hended, hidle, hsame⟩

end Reactor

end StreamParse
