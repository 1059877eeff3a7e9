import Mathlib.Data.List.Nodup
import StreamParse.Parser.Scripted
import StreamParse.Proofs.Reactor.Service

/-!
# The life cycle of an operation

While an operation is outstanding it is one thing, an entry of the queue or a read that a source
holds.  What carries this through a history is that no two operations go back to one source: a source
holds one read, and a second one would push the first out.  So whoever starts an operation has to
leave alone the sources of those that may read again.

The ledger of a history has every operation that was begun, and the operations that came to an end,
by a completion, by a fault or because all was given up.  It balances with what is outstanding, so an
operation that has come to an end is nowhere left to come to another.
-/

namespace StreamParse

variable {ν ε : Type}

/-- The operations that were begun and those that came to an end, by their identifiers. -/
structure Ledger where
  begun : List Nat := []
  completed : List Nat := []
  /-- Ended by a fault, in the call that started them or when their turn came. -/
  thrown : List Nat := []
  dropped : List Nat := []

namespace Ledger

instance : Append Ledger where
  append first second :=
    { begun := first.begun ++ second.begun
      completed := first.completed ++ second.completed
      thrown := first.thrown ++ second.thrown
      dropped := first.dropped ++ second.dropped }

/-- How often an operation came to an end. -/
def ends (ledger : Ledger) (id : Nat) : Nat :=
  ledger.completed.count id + ledger.thrown.count id + ledger.dropped.count id

@[simp]
theorem begun_append (first second : Ledger) :
    (first ++ second).begun = first.begun ++ second.begun := rfl

@[simp]
theorem ends_append (first second : Ledger) (id : Nat) :
    (first ++ second).ends id = first.ends id + second.ends id := by
  change (first.completed ++ second.completed).count id +
    (first.thrown ++ second.thrown).count id + (first.dropped ++ second.dropped).count id = _
  simp only [List.count_append, ends]
  omega

theorem empty_append (ledger : Ledger) : ({} : Ledger) ++ ledger = ledger := rfl

theorem append_assoc (first second third : Ledger) :
    first ++ second ++ third = first ++ (second ++ third) := by
  have happend : ∀ first second : Ledger, first ++ second =
      { begun := first.begun ++ second.begun
        completed := first.completed ++ second.completed
        thrown := first.thrown ++ second.thrown
        dropped := first.dropped ++ second.dropped } := fun _ _ => rfl
  simp only [happend, List.append_assoc]

theorem ends_pos {ledger : Ledger} {id : Nat}
    (hended : id ∈ ledger.completed ∨ id ∈ ledger.thrown ∨ id ∈ ledger.dropped) :
    0 < ledger.ends id := by
  simp only [← List.count_pos_iff] at hended
  rw [ends]
  omega

end Ledger

/-- The operation that a request has begun, as the reply tells. -/
def Request.begins (request : Request ν ε) : Reply ν ε → List Nat
  | .unknown => []
  | _ => request.starts?.toList.map Prod.fst

namespace Reactor

/-- The sources that outstanding operations may read from again, or are reading from. -/
def busy (reactor : Reactor ν ε) : List SourceId :=
  (reactor.queue.filterMap fun task => task.place?.bind reactor.sourceId?) ++
    reactor.held.map Prod.fst

/-- A request that leaves outstanding operations their seats and their sources. -/
def Admits (reactor : Reactor ν ε) (request : Request ν ε) : Prop :=
  request.movesSeat = false ∧
    ∀ start ∈ request.starts?, ∀ source ∈ reactor.sourceId? start.2, source ∉ reactor.busy

instance (reactor : Reactor ν ε) (request : Request ν ε) : Decidable (reactor.Admits request) :=
  inferInstanceAs (Decidable (_ ∧ _))

/-- The operations that a request gives up. -/
def drops (reactor : Reactor ν ε) : Request ν ε → List Nat
  | .abandon => reactor.outstanding
  | _ => []

/-- What one request adds to the ledger. -/
def entry (reactor : Reactor ν ε) (request : Request ν ε) (response : Response ν ε) : Ledger where
  begun := request.begins response.reply
  completed := response.completions.map Completion.id
  thrown := (request.begins response.reply).flatMap response.reply.broken ++
    response.breakdown.toList.map Breakdown.id
  dropped := reactor.drops request

section Histories

variable [Allocator]

/-- A history of requests that are all admitted when they are made. -/
def Orderly (reactor : Reactor ν ε) : List (Request ν ε) → Prop
  | [] => True
  | request :: history =>
      reactor.Admits request ∧ (reactor.serve request).reactor.Orderly history

instance decidableOrderly (reactor : Reactor ν ε) :
    (history : List (Request ν ε)) → Decidable (reactor.Orderly history)
  | [] => isTrue trivial
  | request :: history =>
      have := decidableOrderly (reactor.serve request).reactor history
      inferInstanceAs (Decidable (_ ∧ _))

def ledger (reactor : Reactor ν ε) : List (Request ν ε) → Ledger
  | [] => {}
  | request :: history =>
      reactor.entry request (reactor.serve request) ++
        (reactor.serve request).reactor.ledger history

theorem ledger_append (reactor : Reactor ν ε) (before after : List (Request ν ε)) :
    reactor.ledger (before ++ after) =
      reactor.ledger before ++ (reactor.after before).ledger after := by
  induction before generalizing reactor with
  | nil => rfl
  | cons request before ih =>
      rw [List.cons_append, ledger, ih, ledger, Ledger.append_assoc]
      rfl

theorem orderly_append {reactor : Reactor ν ε} {before after : List (Request ν ε)} :
    reactor.Orderly (before ++ after) ↔
      reactor.Orderly before ∧ (reactor.after before).Orderly after := by
  induction before generalizing reactor with
  | nil => exact ⟨fun orderly => ⟨trivial, orderly⟩, And.right⟩
  | cons request before ih =>
      rw [List.cons_append, Orderly, ih, ← and_assoc]
      rfl

end Histories

/-! ## What every step preserves -/

/-- Outstanding operations have places that stand for something, a read that is held is held by the
source of its operation, and no source has two of them. -/
structure Sound (reactor : Reactor ν ε) : Prop where
  queued : ∀ task ∈ reactor.queue, ∀ place ∈ task.place?, reactor.Stands place
  held : ∀ entry ∈ reactor.held, ∀ place ∈ entry.2.place?,
    reactor.Stands place ∧ reactor.sourceId? place = some entry.1
  distinct : reactor.busy.Nodup

variable {reactor next : Reactor ν ε} {place : Place}

theorem sound_of_idle (idle : reactor.outstanding = []) : reactor.Sound := by
  obtain ⟨hqueue, hheld⟩ := List.append_eq_nil_iff.mp idle
  rw [List.map_eq_nil_iff] at hqueue hheld
  refine ⟨?_, ?_, ?_⟩
  · simp [hqueue]
  · simp [hheld]
  · simp [busy, hqueue, hheld]

theorem Keeps.busy (keeps : Keeps reactor next) : next.busy = reactor.busy := by
  have hsource : next.sourceId? = reactor.sourceId? := funext keeps.sourceId?
  rw [Reactor.busy, keeps.queue, keeps.held, hsource]
  rfl

theorem Sound.keeps (sound : reactor.Sound) (keeps : Keeps reactor next) : next.Sound where
  queued task hmem place hplace :=
    keeps.stands place (sound.queued task (keeps.queue ▸ hmem) place hplace)
  held entry hmem place hplace := by
    obtain ⟨stands, hsource⟩ := sound.held entry (keeps.held ▸ hmem) place hplace
    exact ⟨keeps.stands place stands, (keeps.sourceId? place).trans hsource⟩
  distinct := by
    rw [keeps.busy]
    exact sound.distinct

theorem busy_enqueue (reactor : Reactor ν ε) (task : Task ν ε) :
    (reactor.enqueue task).busy.Perm
      ((task.place?.bind reactor.sourceId?).toList ++ reactor.busy) := by
  have hbusy : (reactor.enqueue task).busy =
      (reactor.queue ++ [task]).filterMap (fun task => task.place?.bind reactor.sourceId?) ++
        reactor.held.map Prod.fst := rfl
  have hlast : [task].filterMap (fun task => task.place?.bind reactor.sourceId?) =
      (task.place?.bind reactor.sourceId?).toList := by
    cases hsource : task.place?.bind reactor.sourceId? <;> simp [hsource]
  rw [hbusy, List.filterMap_append, hlast, List.append_assoc]
  exact List.perm_append_comm_assoc _ _ _

/-- An entry may be queued if no other operation reads from its source. -/
theorem Sound.enqueue (sound : reactor.Sound) {task : Task ν ε}
    (hplace : ∀ place ∈ task.place?,
      reactor.Stands place ∧ ∀ source ∈ reactor.sourceId? place, source ∉ reactor.busy) :
    (reactor.enqueue task).Sound where
  queued other hmem place hwaits := by
    rcases List.mem_append.mp hmem with hmem | hmem
    · exact sound.queued other hmem place hwaits
    · rw [List.mem_singleton] at hmem
      exact (hplace place (hmem ▸ hwaits)).1
  held := sound.held
  distinct := by
    rw [(busy_enqueue reactor task).nodup_iff]
    cases hwaits : task.place? with
    | none => exact sound.distinct
    | some place =>
        rw [Option.bind_some]
        cases hsource : reactor.sourceId? place with
        | none => exact sound.distinct
        | some source =>
            have hfree := (hplace place hwaits).2 source hsource
            exact List.nodup_cons.mpr ⟨hfree, sound.distinct⟩

/-- A source that nobody waits for holds a further read beside the others. -/
theorem hold_of_free {source : SourceId} (hfree : source ∉ reactor.busy) (waiter : Waiter ν ε) :
    reactor.hold source waiter =
      { reactor with held := reactor.held ++ [(source, waiter)] } := by
  have hkeep : reactor.held.filter (fun entry => entry.1 != source) = reactor.held := by
    rw [List.filter_eq_self]
    intro entry hmem
    rw [bne_iff_ne]
    rintro rfl
    exact hfree (List.mem_append_right _ (List.mem_map_of_mem hmem))
  rw [hold, hkeep]

/-- A read may be held if no other operation reads from its source. -/
theorem Sound.hold (sound : reactor.Sound) {source : SourceId} {waiter : Waiter ν ε}
    (hfree : source ∉ reactor.busy)
    (hplace : ∀ place ∈ waiter.place?,
      reactor.Stands place ∧ reactor.sourceId? place = some source) :
    (reactor.hold source waiter).Sound := by
  rw [hold_of_free hfree]
  refine ⟨sound.queued, ?_, ?_⟩
  · intro entry hmem place hwaits
    rcases List.mem_append.mp hmem with hmem | hmem
    · exact sound.held entry hmem place hwaits
    · rw [List.mem_singleton] at hmem
      subst hmem
      exact hplace place hwaits
  · change (_ ++ (reactor.held ++ [(source, waiter)]).map Prod.fst).Nodup
    rw [List.map_append, ← List.append_assoc]
    exact (List.nodup_cons.mpr ⟨hfree, sound.distinct⟩ : (source :: reactor.busy).Nodup).perm
      (List.perm_append_singleton _ _).symm

/-- What an operation does at its place keeps the reactor sound, and its identifier goes either to
what is outstanding or to what has ended. -/
theorem Sound.settle (sound : reactor.Sound) {α : Type} {stint : Stint ν ε α} {id : Nat}
    {ended : List Nat} (stands : reactor.Stands place)
    (hfree : ∀ source ∈ reactor.sourceId? place, source ∉ reactor.busy)
    (accounts : stint.Accounts id place (reactor.feedAt place) ended) :
    (reactor.settle place stint).Sound ∧
      (ended ++ (reactor.settle place stint).outstanding).Perm (id :: reactor.outstanding) := by
  have keeps := keeps_putFeed reactor place stint.feed
  have sound' := sound.keeps keeps
  have stands' := keeps.stands place stands
  rw [← keeps.outstanding]
  rw [← keeps.busy] at hfree
  cases hremnant : stint.remnant with
  | none =>
      have honce := accounts.once
      rw [hremnant, Option.toList_none, List.map_nil, List.append_nil] at honce
      rw [Reactor.settle, hremnant, honce]
      exact ⟨sound', .refl _⟩
  | some remnant =>
      have hplaced := accounts.placed remnant hremnant
      obtain ⟨rfl, hid⟩ := accounts.of_remnant hremnant
      cases remnant with
      | queued task =>
          rw [Reactor.settle, hremnant, ← hid]
          refine ⟨sound'.enqueue ?_, outstanding_enqueue _ task⟩
          intro other hwaits
          rw [hplaced other hwaits, keeps.sourceId?]
          exact ⟨stands', hfree⟩
      | held waiter =>
          obtain ⟨source, hsource, hsettle⟩ := settle_held accounts hremnant
          have hfree' := hfree source hsource
          rw [hsettle]
          refine ⟨sound'.hold hfree' ?_, ?_⟩
          · intro other hwaits
            rw [hplaced other hwaits, keeps.sourceId?]
            exact ⟨stands', hsource⟩
          · rw [hold_of_free hfree', ← hid]
            simp only [outstanding, List.map_append, List.map_singleton, List.nil_append,
              ← List.append_assoc]
            exact List.perm_append_singleton _ _

section Run

variable {task : Task ν ε} {queue : List (Task ν ε)}

theorem busy_of_queue (hqueue : reactor.queue = task :: queue) :
    reactor.busy = (task.place?.bind reactor.sourceId?).toList ++
      ({ reactor with queue } : Reactor ν ε).busy := by
  have hpopped : ({ reactor with queue } : Reactor ν ε).busy =
      queue.filterMap (fun task => task.place?.bind reactor.sourceId?) ++
        reactor.held.map Prod.fst := rfl
  rw [hpopped, busy, hqueue, ← List.append_assoc, List.filterMap_cons]
  cases task.place?.bind reactor.sourceId? <;> rfl

/-- The source of the entry that leaves the queue is nobody else's. -/
theorem Sound.pop (sound : reactor.Sound) (hqueue : reactor.queue = task :: queue) :
    Sound { reactor with queue } ∧
      ∀ place ∈ task.place?, reactor.Stands place ∧ ∀ source ∈ reactor.sourceId? place,
        source ∉ ({ reactor with queue } : Reactor ν ε).busy := by
  have hdistinct := sound.distinct
  rw [busy_of_queue hqueue] at hdistinct
  refine ⟨⟨?_, sound.held, (List.nodup_append.mp hdistinct).2.1⟩, ?_⟩
  · intro other hmem
    exact sound.queued other (hqueue ▸ List.mem_cons_of_mem _ hmem)
  · intro place hplace
    refine ⟨sound.queued task (hqueue ▸ List.mem_cons_self) place hplace, ?_⟩
    intro source hsource
    have hbind : task.place?.bind reactor.sourceId? = some source := by
      rw [hplace]
      exact hsource
    rw [hbind] at hdistinct
    exact (List.nodup_cons.mp hdistinct).1

variable [Allocator]

/-- An entry that leaves the queue ends its operation, or its operation goes on. -/
theorem Sound.perform (sound : reactor.Sound) (hqueue : reactor.queue = task :: queue) :
    (Reactor.perform { reactor with queue } task).2.Sound ∧
      (endings (Reactor.perform { reactor with queue } task).1 ++
        (Reactor.perform { reactor with queue } task).2.outstanding).Perm reactor.outstanding := by
  obtain ⟨sound', hfree⟩ := sound.pop hqueue
  have houtstanding : reactor.outstanding =
      task.id :: ({ reactor with queue } : Reactor ν ε).outstanding := by
    rw [outstanding, hqueue]
    rfl
  rw [houtstanding]
  cases hplace : task.place? with
  | none =>
      obtain ⟨completion, hid, hperform⟩ := perform_of_placeless hplace
      rw [hperform, ← hid]
      exact ⟨sound', .refl _⟩
  | some place =>
      obtain ⟨stands, hfree⟩ := hfree place hplace
      have hown : ∀ other ∈ task.place?, other = place := by simp [hplace]
      have hperform : Reactor.perform { reactor with queue } task = _ := perform_eq hplace stands
      rw [hperform]
      exact sound'.settle stands hfree (task.accounts_perform _ hown)

/-- The operations that a run of the queue brought to their ends. -/
def Progress.ended (progress : Progress ν ε) : List Nat :=
  progress.completions.map Completion.id ++ progress.breakdown.toList.map Breakdown.id

/-- A run of the queue ends operations, and the others are still outstanding. -/
theorem Sound.run (sound : reactor.Sound) (count : Nat) :
    (reactor.run count).reactor.Sound ∧
      ((reactor.run count).ended ++ (reactor.run count).reactor.outstanding).Perm
        reactor.outstanding := by
  induction count generalizing reactor with
  | zero => exact ⟨sound, .refl _⟩
  | succ count ih =>
      cases hqueue : reactor.queue with
      | nil =>
          rw [run_of_idle hqueue]
          exact ⟨sound, .refl _⟩
      | cons task queue =>
          obtain ⟨sound', hperm⟩ := sound.perform hqueue
          rw [run_succ hqueue]
          generalize Reactor.perform { reactor with queue } task = performed at sound' hperm
          rcases performed with ⟨breakdown | completion?, next⟩
          · exact ⟨sound', hperm⟩
          · obtain ⟨hsound, hrun⟩ := ih sound'
            have hended : (behind count (.ok completion?, next)).ended =
                completion?.toList.map Completion.id ++ (next.run count).ended := by
              simp [Progress.ended, behind]
            refine ⟨hsound, ?_⟩
            rw [hended, List.append_assoc]
            exact (hrun.append_left _).trans hperm

end Run

theorem perm_map_middle {α β : Type} (f : α → β) (before : List β) (first : List α) (entry : α)
    (rest : List α) :
    (before ++ (first ++ entry :: rest).map f).Perm
      (f entry :: (before ++ (first ++ rest).map f)) := by
  rw [List.map_append, List.map_cons, ← List.append_assoc, List.map_append, ← List.append_assoc]
  exact List.perm_middle

/-- A read that is cancelled moves to the queue, and its operation is still outstanding. -/
theorem Sound.cancel (sound : reactor.Sound) (source : SourceId) :
    (reactor.cancel source).2.Sound ∧
      (reactor.cancel source).2.outstanding.Perm reactor.outstanding := by
  rcases reactor.cancel_cases source with ⟨-, hcancel⟩ | ⟨waiter, first, rest, hheld, hcancel⟩
  · rw [hcancel]
    exact ⟨sound, .refl _⟩
  · let left : Reactor ν ε := { reactor with held := first ++ rest }
    have hbusy : reactor.busy.Perm (source :: left.busy) := by
      rw [busy, hheld]
      exact perm_map_middle _ _ _ _ _
    have houtstanding : reactor.outstanding.Perm (waiter.id :: left.outstanding) := by
      rw [outstanding, hheld]
      exact perm_map_middle _ _ _ _ _
    obtain ⟨hfree, hdistinct⟩ := List.nodup_cons.mp (hbusy.nodup_iff.mp sound.distinct)
    have sound' : left.Sound :=
      ⟨sound.queued, fun other hother => sound.held other (mem_held_of_mem hheld hother),
        hdistinct⟩
    have hmem : (source, waiter) ∈ reactor.held := by simp [hheld]
    rw [hcancel]
    refine ⟨sound'.enqueue ?_, (outstanding_enqueue left _).trans houtstanding.symm⟩
    intro place hplace
    obtain ⟨stands, hsource⟩ := sound.held (source, waiter) hmem place hplace
    refine ⟨stands, ?_⟩
    intro other hother
    cases hsource.symm.trans hother
    exact hfree

/-! ## The ledger balances -/

/-- What was outstanding or has begun is outstanding or has ended. -/
def Balances (reactor next : Reactor ν ε) (ledger : Ledger) : Prop :=
  ∀ id, next.outstanding.count id + ledger.ends id =
    reactor.outstanding.count id + ledger.begun.count id

theorem begins_of_quiet {request : Request ν ε} {reply : Reply ν ε}
    (hstarts : request.starts? = none ∨ reply = .unknown) : request.begins reply = [] := by
  rcases hstarts with hstarts | rfl
  · cases reply <;> simp [Request.begins, hstarts]
  · rfl

theorem starts?_of_cancels? {request : Request ν ε} {source : SourceId}
    (hcancels : reactor.cancels? request = some source) : request.starts? = none := by
  cases request <;> first | rfl | exact absurd hcancels nofun

theorem drops_of_ne {request : Request ν ε} (hother : request ≠ .abandon) :
    reactor.drops request = [] := by
  cases request <;> first | rfl | exact absurd rfl hother

/-- A request that begins no operation and gives none up. -/
theorem balances_of_perm {next : Reactor ν ε} {request : Request ν ε} {response : Response ν ε}
    (hbegins : request.begins response.reply = []) (hother : request ≠ .abandon)
    (hperm : (response.completions.map Completion.id ++
      response.breakdown.toList.map Breakdown.id ++ next.outstanding).Perm reactor.outstanding) :
    Balances reactor next (reactor.entry request response) := by
  intro id
  have hcount := hperm.count_eq id
  simp only [entry, Ledger.ends, hbegins, drops_of_ne hother, List.flatMap_nil, List.nil_append,
    List.count_nil, List.count_append] at hcount ⊢
  omega

/-- A start begins its operation, and ends it as well where it is broken off. -/
theorem balances_of_started {next : Reactor ν ε} {request : Request ν ε} {id : Nat}
    {place : Place} (hstarts : request.starts? = some (id, place)) {reply : Reply ν ε}
    (hreply : reply ≠ .unknown)
    (hperm : (reply.broken id ++ next.outstanding).Perm (id :: reactor.outstanding)) :
    Balances reactor next (reactor.entry request { reply, reactor := next }) := by
  intro other
  have hbegins : request.begins reply = [id] := by
    cases reply <;> first | exact absurd rfl hreply | simp [Request.begins, hstarts]
  have hdrops : reactor.drops request = [] := by
    apply drops_of_ne
    rintro rfl
    exact absurd hstarts nofun
  have hcount := hperm.count_eq other
  simp only [entry, Ledger.ends, hbegins, hdrops, List.flatMap_singleton, List.map_nil,
    Option.toList_none, List.append_nil, List.count_nil, List.count_append,
    List.count_cons] at hcount ⊢
  omega

section Moments

variable [Allocator]

/-- A request keeps the reactor sound, and its entry in the ledger balances. -/
theorem Sound.serve (sound : reactor.Sound) {request : Request ν ε}
    (admits : reactor.Admits request) :
    (reactor.serve request).reactor.Sound ∧
      Balances reactor (reactor.serve request).reactor
        (reactor.entry request (reactor.serve request)) := by
  obtain ⟨hseats, hfree⟩ := admits
  -- Only here are operations given up, and the invariant starts afresh.
  by_cases habandon : request = .abandon
  · subst habandon
    refine ⟨sound_of_idle rfl, ?_⟩
    intro id
    exact (Nat.zero_add _).trans (Nat.zero_add _)
  have hserved := reactor.served hseats
  generalize reactor.serve request = response at hserved ⊢
  cases hserved with
  | quiet hstarts minds =>
      refine ⟨sound.keeps minds.toKeeps, balances_of_perm (begins_of_quiet hstarts) habandon ?_⟩
      rw [minds.outstanding]
      exact .refl _
  | @started _ id place hstarts stands =>
      obtain ⟨sound', hperm⟩ := sound.settle stands (hfree _ hstarts)
        (request.accounts_stint hstarts _ _)
      exact ⟨sound', balances_of_started hstarts (request.outcome_stint_ne hstarts _ _) hperm⟩
  | ran count =>
      obtain ⟨sound', hperm⟩ := sound.run count
      exact ⟨sound', balances_of_perm rfl habandon hperm⟩
  | cancelled hcancels =>
      obtain ⟨sound', hperm⟩ := sound.cancel _
      exact ⟨sound',
        balances_of_perm (begins_of_quiet (.inl (starts?_of_cancels? hcancels))) habandon hperm⟩
  | abandoned => exact absurd rfl habandon

/-- An orderly history keeps the reactor sound, and its ledger balances. -/
theorem Sound.after (sound : reactor.Sound) {history : List (Request ν ε)}
    (orderly : reactor.Orderly history) :
    (reactor.after history).Sound ∧
      Balances reactor (reactor.after history) (reactor.ledger history) := by
  induction history generalizing reactor with
  | nil => exact ⟨sound, fun _ => rfl⟩
  | cons request history ih =>
      obtain ⟨admits, orderly⟩ := orderly
      obtain ⟨sound', hfirst⟩ := sound.serve admits
      obtain ⟨hsound, hrest⟩ := ih sound' orderly
      refine ⟨hsound, ?_⟩
      intro id
      have hfirst := hfirst id
      have hrest := hrest id
      rw [ledger, Ledger.ends_append, Ledger.begun_append, List.count_append]
      change ((reactor.serve request).reactor.after history).outstanding.count id + _ = _
      omega

/-- No handler is called inside the call that starts an operation. -/
theorem completions_of_starts {request : Request ν ε} {start : Nat × Place}
    (hstarts : request.starts? = some start) : (reactor.serve request).completions = [] := by
  have hserved : Served reactor request (reactor.serve request) := served_of_starts hstarts
  generalize reactor.serve request = response at hserved ⊢
  cases hserved with
  | ran count => exact absurd hstarts nofun
  | _ => rfl

/-- At every moment of an orderly history that starts with nothing outstanding, each operation that
was begun is outstanding as one thing, or came to one end and is outstanding no more; no other
operation is heard of; what came to an end does not complete later; a call that starts an operation
calls no handler; and when the queue is empty every operation has completed once, unless it was broken
off or given up or its read is held.  A moment inside a run of the queue is the one after a shorter
run. -/
theorem life_cycle (idle : reactor.outstanding = []) {history : List (Request ν ε)}
    (orderly : reactor.Orderly history) (fresh : (reactor.ledger history).begun.Nodup)
    {before after : List (Request ν ε)} (hmoment : history = before ++ after) :
    (∀ id ∈ (reactor.ledger before).begun,
      (reactor.after before).outstanding.count id + (reactor.ledger before).ends id = 1) ∧
    (∀ id, id ∉ (reactor.ledger before).begun →
      (reactor.after before).outstanding.count id + (reactor.ledger before).ends id = 0) ∧
    (∀ id, id ∈ (reactor.ledger before).completed ∨ id ∈ (reactor.ledger before).thrown ∨
        id ∈ (reactor.ledger before).dropped →
      id ∉ ((reactor.after before).ledger after).completed) ∧
    (∀ request rest, after = request :: rest → request.starts?.isSome = true →
      ((reactor.after before).serve request).completions = []) ∧
    ((reactor.after before).queue = [] → ∀ id ∈ (reactor.ledger before).begun,
      id ∉ (reactor.ledger before).thrown → id ∉ (reactor.ledger before).dropped →
        (∀ entry ∈ (reactor.after before).held, entry.2.id ≠ id) →
          (reactor.ledger before).completed.count id = 1) := by
  subst hmoment
  rw [ledger_append, Ledger.begun_append, List.nodup_append] at fresh
  obtain ⟨hdistinct, -, hapart⟩ := fresh
  obtain ⟨horderly, horderly'⟩ := orderly_append.mp orderly
  obtain ⟨sound, hbalance⟩ := (sound_of_idle idle).after horderly
  obtain ⟨-, hbalance'⟩ := sound.after horderly'
  have hpast : ∀ id, (reactor.after before).outstanding.count id + (reactor.ledger before).ends id =
      (reactor.ledger before).begun.count id := by
    intro id
    rw [hbalance id, idle, List.count_nil, Nat.zero_add]
  have honce : ∀ id ∈ (reactor.ledger before).begun,
      (reactor.after before).outstanding.count id + (reactor.ledger before).ends id = 1 := by
    intro id hmem
    rw [hpast id, List.count_eq_one_of_mem hdistinct hmem]
  refine ⟨honce, ?_, ?_, ?_, ?_⟩
  · intro id hnone
    rw [hpast id, List.count_eq_zero_of_not_mem hnone]
  · intro id hended
    have hended := Ledger.ends_pos hended
    have hbegun : id ∈ (reactor.ledger before).begun := by
      rw [← List.count_pos_iff, ← hpast id]
      exact Nat.add_pos_right _ hended
    have hlater : id ∉ ((reactor.after before).ledger after).begun := by
      intro hmem
      exact hapart id hbegun id hmem rfl
    have honce := honce id hbegun
    have hbalance' := hbalance' id
    rw [List.count_eq_zero_of_not_mem hlater, Ledger.ends] at hbalance'
    rw [← List.count_eq_zero]
    omega
  · rintro request rest - hstarts
    obtain ⟨start, hstarts⟩ := Option.isSome_iff_exists.mp hstarts
    exact completions_of_starts hstarts
  · intro hempty id hmem hthrown hdropped hheld
    have honce := honce id hmem
    have hqueue : id ∉ (reactor.after before).outstanding := by
      rw [outstanding, hempty, List.map_nil, List.nil_append, List.mem_map]
      rintro ⟨entry, hentry, hid⟩
      exact hheld entry hentry hid
    rw [List.count_eq_zero_of_not_mem hqueue, Ledger.ends, List.count_eq_zero_of_not_mem hthrown,
      List.count_eq_zero_of_not_mem hdropped] at honce
    omega

end Moments

/-- Two listed sources, the second of which holds its end, and a session over a third. -/
def threePlaces : Reactor (List UInt8) BadByte where
  buffers := [.unlimited, .unlimited]
  sources := [{ chunks := [[0x41, 0x42], [0x20]] }, { chunks := [], atEnd := .hold }]
  seats := [{ layer := .owned { chunks := [[0x43], [0x44]] } }]

/-- Operations that are refused, that complete, that break down in a run, and a read that is held. -/
def firstHalf : List (Request (List UInt8) BadByte) :=
  [.start 1 0 0 Parser.token 0, .start 2 0 0 Parser.token 4, .start 3 1 1 Parser.token 4,
    .startSessionParse 4 0 Parser.greedy, .run (some 2), .run none, .startSessionRead 5 0 [2]]

/-- What is left is cancelled, run or given up. -/
def secondHalf : List (Request (List UInt8) BadByte) :=
  [.cancelSource 1, .run (some 1), .start 6 0 0 Parser.token 4, .abandon]

/-- Between the two halves each of the five operations is outstanding or has ended. -/
theorem halfway_each_outstanding_or_ended :
    threePlaces.outstanding = [] ∧ threePlaces.Orderly (firstHalf ++ secondHalf) ∧
      (threePlaces.ledger (firstHalf ++ secondHalf)).begun.Nodup ∧
      ∀ id ∈ (threePlaces.ledger firstHalf).begun,
        (threePlaces.after firstHalf).outstanding.count id +
          (threePlaces.ledger firstHalf).ends id = 1 := by
  have orderly : threePlaces.Orderly (firstHalf ++ secondHalf) := by decide
  have fresh : (threePlaces.ledger (firstHalf ++ secondHalf)).begun.Nodup := by decide
  exact ⟨rfl, orderly, fresh, (life_cycle rfl orderly fresh rfl).1⟩

end Reactor

end StreamParse
