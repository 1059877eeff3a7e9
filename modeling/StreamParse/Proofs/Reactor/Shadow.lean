import StreamParse.Proofs.Reactor.Service

/-!
# Shadows

A reactor at work on many operations has a shadow for each of them: a reactor with nothing but that
operation, whose cells at its place are equal, and whose queue and held reads are what is left when
everything of the others is struck out.  What the others do at places apart leaves the shadow as it
is, and a stint of the operation itself is the same stint of the shadow.
-/

namespace StreamParse

variable {ν ε : Type}

namespace Reactor

/-- The entries of one operation. -/
def queueOf (reactor : Reactor ν ε) (id : Nat) : List (Task ν ε) :=
  reactor.queue.filter fun task => task.id == id

/-- The open reads of one operation. -/
def heldOf (reactor : Reactor ν ε) (id : Nat) : List (SourceId × Waiter ν ε) :=
  reactor.held.filter fun entry => entry.2.id == id

theorem queueOf_enqueue (reactor : Reactor ν ε) (task : Task ν ε) (id : Nat) :
    (reactor.enqueue task).queueOf id =
      if task.id = id then reactor.queueOf id ++ [task] else reactor.queueOf id := by
  by_cases hid : task.id = id <;> simp [queueOf, enqueue, hid]

theorem heldOf_hold (reactor : Reactor ν ε) (source : SourceId) (waiter : Waiter ν ε) (id : Nat) :
    (reactor.hold source waiter).heldOf id =
      (reactor.heldOf id).filter (fun entry => entry.1 != source) ++
        if waiter.id = id then [(source, waiter)] else [] := by
  by_cases hid : waiter.id = id <;> simp [heldOf, hold, hid, List.filter_filter, Bool.and_comm]

/-- Where something that goes on may go on: at the place of an operation if it belongs to that
operation, and otherwise at a place apart. -/
def Beside (base reactor : Reactor ν ε) (id : Nat) (place : Place) (owner : Nat)
    (place? : Option Place) : Prop :=
  ∀ other ∈ place?,
    (owner = id → other = place) ∧ (owner ≠ id → reactor.Stands other ∧ base.Apart place other)

/-- A reactor at work on many operations, and one that has only a single one of them. -/
structure Shadow (base : Reactor ν ε) (id : Nat) (place : Place) (reactor alone : Reactor ν ε) :
    Prop where
  sourceId? : ∀ other, reactor.sourceId? other = base.sourceId? other
  stands : reactor.Stands place
  cells : reactor.cells place = alone.cells place
  queue : reactor.queueOf id = alone.queue
  held : reactor.heldOf id = alone.held
  single : alone.outstanding.length ≤ 1
  queued : ∀ task ∈ reactor.queue, Beside base reactor id place task.id task.place?
  waiting : ∀ entry ∈ reactor.held,
    (entry.2.id = id ↔ base.sourceId? place = some entry.1) ∧
      Beside base reactor id place entry.2.id entry.2.place?

section Shadow

variable {base reactor next alone : Reactor ν ε} {id : Nat} {place other : Place}

theorem Beside.of_stands {owner : Nat} {place? : Option Place}
    (beside : Beside base reactor id place owner place?)
    (hstands : ∀ other, reactor.Stands other → next.Stands other) :
    Beside base next id place owner place? := by
  intro other hother
  obtain ⟨hown, hothers⟩ := beside other hother
  exact ⟨hown, fun hne => ⟨hstands other (hothers hne).1, (hothers hne).2⟩⟩

/-- What happens elsewhere leaves the shadow as it is. -/
theorem Shadow.keeps (shadow : Shadow base id place reactor alone) (keeps : Keeps reactor next)
    (hcells : next.cells place = reactor.cells place) : Shadow base id place next alone where
  sourceId? other := (keeps.sourceId? other).trans (shadow.sourceId? other)
  stands := keeps.stands place shadow.stands
  cells := hcells.trans shadow.cells
  queue := by
    rw [queueOf, keeps.queue]
    exact shadow.queue
  held := by
    rw [heldOf, keeps.held]
    exact shadow.held
  single := shadow.single
  queued task hmem := (shadow.queued task (keeps.queue ▸ hmem)).of_stands keeps.stands
  waiting entry hmem := by
    obtain ⟨hsource, hbeside⟩ := shadow.waiting entry (keeps.held ▸ hmem)
    exact ⟨hsource, hbeside.of_stands keeps.stands⟩

theorem Shadow.enqueue_other (shadow : Shadow base id place reactor alone) {task : Task ν ε}
    (hid : task.id ≠ id) (hbeside : Beside base reactor id place task.id task.place?) :
    Shadow base id place (reactor.enqueue task) alone where
  sourceId? := shadow.sourceId?
  stands := shadow.stands
  cells := shadow.cells
  queue := by
    rw [queueOf_enqueue, if_neg hid]
    exact shadow.queue
  held := shadow.held
  single := shadow.single
  queued other hmem := by
    rcases List.mem_append.mp hmem with hmem | hmem
    · exact shadow.queued other hmem
    · rw [List.mem_singleton] at hmem
      rw [hmem]
      exact hbeside
  waiting := shadow.waiting

theorem Shadow.hold_other (shadow : Shadow base id place reactor alone) {source : SourceId}
    {waiter : Waiter ν ε} (hid : waiter.id ≠ id) (hsource : base.sourceId? place ≠ some source)
    (hbeside : Beside base reactor id place waiter.id waiter.place?) :
    Shadow base id place (reactor.hold source waiter) alone where
  sourceId? := shadow.sourceId?
  stands := shadow.stands
  cells := shadow.cells
  queue := shadow.queue
  held := by
    rw [heldOf_hold, if_neg hid, List.append_nil, ← shadow.held, List.filter_eq_self]
    intro entry hmem
    obtain ⟨hmem, hown⟩ := List.mem_filter.mp hmem
    rw [bne_iff_ne]
    rintro rfl
    exact hsource ((shadow.waiting entry hmem).1.mp (beq_iff_eq.mp hown))
  single := shadow.single
  queued := shadow.queued
  waiting entry hmem := by
    rcases List.mem_append.mp hmem with hmem | hmem
    · exact shadow.waiting entry (List.mem_filter.mp hmem).1
    · rw [List.mem_singleton] at hmem
      subst hmem
      exact ⟨iff_of_false hid hsource, hbeside⟩

/-- A stint of another operation, at a place apart. -/
theorem Shadow.settle_other (shadow : Shadow base id place reactor alone) {α : Type}
    {stint : Stint ν ε α} {owner : Nat} {ended : List Nat} (hid : owner ≠ id)
    (stands : reactor.Stands other) (apart : base.Apart place other)
    (accounts : stint.Accounts owner other (reactor.feedAt other) ended) :
    Shadow base id place (reactor.settle other stint) alone := by
  have hapart : reactor.Apart place other := by
    refine ⟨apart.1, ?_⟩
    rw [shadow.sourceId?, shadow.sourceId?]
    exact apart.2
  have keeps := keeps_putFeed reactor other stint.feed
  have shadow' := shadow.keeps keeps (cells_putFeed_of_apart stint.feed hapart)
  cases hremnant : stint.remnant with
  | none =>
      rw [Reactor.settle, hremnant]
      exact shadow'
  | some remnant =>
      obtain ⟨-, howner⟩ := accounts.of_remnant hremnant
      have hbeside : Beside base (reactor.putFeed other stint.feed) id place remnant.id
          remnant.place? := by
        intro other' hwaits
        rw [accounts.placed remnant hremnant other' hwaits, howner]
        exact ⟨fun hown => absurd hown hid, fun _ => ⟨keeps.stands other stands, apart⟩⟩
      rw [← howner] at hid
      cases remnant with
      | queued task =>
          rw [Reactor.settle, hremnant]
          exact shadow'.enqueue_other hid hbeside
      | held waiter =>
          obtain ⟨source, hsource, hsettle⟩ := settle_held accounts hremnant
          rw [hsettle]
          apply shadow'.hold_other hid _ hbeside
          intro hown
          rw [shadow.sourceId?] at hsource
          exact apart.2 source hown hsource

/-! ## The operation itself -/

/-- What is put at the place is put at the place of the shadow. -/
theorem Shadow.putFeed (shadow : Shadow base id place reactor alone) (feed : Feed) :
    Shadow base id place (reactor.putFeed place feed) (alone.putFeed place feed) where
  sourceId? other := (sourceId?_putFeed reactor place feed other).trans (shadow.sourceId? other)
  stands := (stands_putFeed reactor place feed place).mpr shadow.stands
  cells := cells_putFeed shadow.cells shadow.stands feed
  queue := by
    rw [queueOf, queue_putFeed, queue_putFeed]
    exact shadow.queue
  held := by
    rw [heldOf, held_putFeed, held_putFeed]
    exact shadow.held
  single := by
    rw [(keeps_putFeed alone place feed).outstanding]
    exact shadow.single
  queued task hmem := by
    rw [queue_putFeed] at hmem
    exact (shadow.queued task hmem).of_stands (keeps_putFeed reactor place feed).stands
  waiting entry hmem := by
    rw [held_putFeed] at hmem
    obtain ⟨hsource, hbeside⟩ := shadow.waiting entry hmem
    exact ⟨hsource, hbeside.of_stands (keeps_putFeed reactor place feed).stands⟩

theorem Shadow.enqueue_own (shadow : Shadow base id place reactor alone)
    (hidle : alone.outstanding = []) {task : Task ν ε} (hid : task.id = id)
    (hplace : ∀ other ∈ task.place?, other = place) :
    Shadow base id place (reactor.enqueue task) (alone.enqueue task) where
  sourceId? := shadow.sourceId?
  stands := shadow.stands
  cells := shadow.cells
  queue := by
    rw [queueOf_enqueue, if_pos hid, shadow.queue]
    rfl
  held := shadow.held
  single := by
    rw [(outstanding_enqueue alone task).length_eq, hidle]
    exact Nat.le_refl 1
  queued other hmem := by
    rcases List.mem_append.mp hmem with hmem | hmem
    · exact shadow.queued other hmem
    · rw [List.mem_singleton] at hmem
      subst hmem
      intro other hother
      exact ⟨fun _ => hplace other hother, fun hne => absurd hid hne⟩
  waiting := shadow.waiting

theorem Shadow.hold_own (shadow : Shadow base id place reactor alone)
    (hidle : alone.outstanding = []) {source : SourceId} {waiter : Waiter ν ε}
    (hid : waiter.id = id) (hsource : base.sourceId? place = some source)
    (hplace : ∀ other ∈ waiter.place?, other = place) :
    Shadow base id place (reactor.hold source waiter) (alone.hold source waiter) where
  sourceId? := shadow.sourceId?
  stands := shadow.stands
  cells := shadow.cells
  queue := shadow.queue
  held := by
    rw [heldOf_hold, if_pos hid, shadow.held]
    rfl
  single := by
    obtain ⟨hqueue, hheld⟩ := List.append_eq_nil_iff.mp hidle
    rw [List.map_eq_nil_iff] at hqueue hheld
    simp [outstanding, hold, hqueue, hheld]
  queued := shadow.queued
  waiting entry hmem := by
    rcases List.mem_append.mp hmem with hmem | hmem
    · exact shadow.waiting entry (List.mem_filter.mp hmem).1
    · rw [List.mem_singleton] at hmem
      subst hmem
      refine ⟨iff_of_true hid hsource, ?_⟩
      intro other hother
      exact ⟨fun _ => hplace other hother, fun hne => absurd hid hne⟩

/-- A stint of the operation itself is a stint of the shadow. -/
theorem Shadow.settle_own (shadow : Shadow base id place reactor alone)
    (hidle : alone.outstanding = []) {α : Type} {stint : Stint ν ε α} {ended : List Nat}
    (accounts : stint.Accounts id place (reactor.feedAt place) ended) :
    Shadow base id place (reactor.settle place stint) (alone.settle place stint) := by
  have shadow' := shadow.putFeed stint.feed
  have hidle' := (keeps_putFeed alone place stint.feed).outstanding.trans hidle
  have hfeed := feedAt_congr shadow.cells
  cases hremnant : stint.remnant with
  | none =>
      rw [Reactor.settle, Reactor.settle, hremnant]
      exact shadow'
  | some remnant =>
      obtain ⟨-, hid⟩ := accounts.of_remnant hremnant
      have hplace := accounts.placed remnant hremnant
      cases remnant with
      | queued task =>
          rw [Reactor.settle, Reactor.settle, hremnant]
          exact shadow'.enqueue_own hidle' hid hplace
      | held waiter =>
          obtain ⟨source, hsource, hsettle⟩ := settle_held accounts hremnant
          rw [hfeed] at accounts
          obtain ⟨source', hsource', hsettle'⟩ := settle_held accounts hremnant
          have hsame : source' = source := by
            rw [← sourceId?_congr shadow.cells, hsource] at hsource'
            exact Option.some.inj hsource'.symm
          rw [hsettle, hsettle', hsame]
          exact shadow'.hold_own hidle' hid ((shadow.sourceId? place).symm.trans hsource) hplace

/-! ## Where a shadow begins -/

/-- What is outstanding belongs to other operations, which are at work apart from a place. -/
structure Clear (reactor : Reactor ν ε) (id : Nat) (place : Place) : Prop where
  queued : ∀ task ∈ reactor.queue, task.id ≠ id ∧
    ∀ other ∈ task.place?, reactor.Stands other ∧ reactor.Apart place other
  waiting : ∀ entry ∈ reactor.held, entry.2.id ≠ id ∧ reactor.sourceId? place ≠ some entry.1 ∧
    ∀ other ∈ entry.2.place?, reactor.Stands other ∧ reactor.Apart place other

theorem clear_of_idle (idle : reactor.outstanding = []) : reactor.Clear id place := by
  obtain ⟨hqueue, hheld⟩ := List.append_eq_nil_iff.mp idle
  rw [List.map_eq_nil_iff] at hqueue hheld
  exact ⟨by simp [hqueue], by simp [hheld]⟩

theorem Clear.shadow (clear : reactor.Clear id place) (stands : reactor.Stands place) :
    Shadow reactor id place reactor reactor.abandon where
  sourceId? _ := rfl
  stands := stands
  cells := by cases place <;> rfl
  queue := by
    rw [queueOf, abandon, List.filter_eq_nil_iff]
    intro task hmem hid
    exact (clear.queued task hmem).1 (beq_iff_eq.mp hid)
  held := by
    rw [heldOf, abandon, List.filter_eq_nil_iff]
    intro entry hmem hid
    exact (clear.waiting entry hmem).1 (beq_iff_eq.mp hid)
  single := Nat.zero_le 1
  queued task hmem other hother := by
    obtain ⟨hid, hplace⟩ := clear.queued task hmem
    exact ⟨fun hown => absurd hown hid, fun _ => hplace other hother⟩
  waiting entry hmem := by
    obtain ⟨hid, hsource, hplace⟩ := clear.waiting entry hmem
    refine ⟨iff_of_false hid hsource, ?_⟩
    intro other hother
    exact ⟨fun hown => absurd hown hid, fun _ => hplace other hother⟩

/-! ## Runs of the queue -/

section Run

variable {task : Task ν ε} {queue : List (Task ν ε)}

theorem Shadow.pop_other (shadow : Shadow base id place reactor alone)
    (hqueue : reactor.queue = task :: queue) (hid : task.id ≠ id) :
    Shadow base id place { reactor with queue } alone where
  sourceId? := shadow.sourceId?
  stands := shadow.stands
  cells := shadow.cells
  queue := by
    rw [← shadow.queue, queueOf, queueOf, hqueue, List.filter_cons_of_neg (by simpa using hid)]
  held := shadow.held
  single := shadow.single
  queued other hmem := shadow.queued other (hqueue ▸ List.mem_cons_of_mem _ hmem)
  waiting := shadow.waiting

/-- The entry of an operation is the only one of its shadow. -/
theorem Shadow.pop_own (shadow : Shadow base id place reactor alone)
    (hqueue : reactor.queue = task :: queue) (hid : task.id = id) :
    alone.queue = [task] ∧
      ({ alone with queue := [] } : Reactor ν ε).outstanding = [] ∧
      Shadow base id place { reactor with queue } { alone with queue := [] } := by
  have hown : alone.queue = task :: queueOf { reactor with queue } id := by
    rw [← shadow.queue, queueOf, queueOf, hqueue, List.filter_cons_of_pos (by simpa using hid)]
  have hsingle := shadow.single
  rw [outstanding, hown, List.map_cons, List.cons_append, List.length_cons] at hsingle
  have hrest : (queueOf { reactor with queue } id).map Task.id ++
      alone.held.map (fun entry => entry.2.id) = [] :=
    List.eq_nil_of_length_eq_zero (Nat.le_zero.mp (Nat.le_of_succ_le_succ hsingle))
  obtain ⟨hothers, hheld⟩ := List.append_eq_nil_iff.mp hrest
  rw [List.map_eq_nil_iff] at hothers
  refine ⟨?_, hheld, ?_⟩
  · rw [hown, hothers]
  · exact {
      sourceId? := shadow.sourceId?
      stands := shadow.stands
      cells := shadow.cells
      queue := hothers
      held := shadow.held
      single := by
        change (alone.held.map fun entry => entry.2.id).length ≤ 1
        rw [hheld]
        exact Nat.zero_le 1
      queued := fun other hmem => shadow.queued other (hqueue ▸ List.mem_cons_of_mem _ hmem)
      waiting := shadow.waiting }

variable [Allocator]

theorem Shadow.perform_other (shadow : Shadow base id place reactor alone)
    (hqueue : reactor.queue = task :: queue) (hid : task.id ≠ id) :
    Shadow base id place (Reactor.perform { reactor with queue } task).2 alone ∧
      id ∉ endings (Reactor.perform { reactor with queue } task).1 := by
  have shadow' := shadow.pop_other hqueue hid
  have hbeside := shadow.queued task (hqueue ▸ List.mem_cons_self)
  cases hplace : task.place? with
  | none =>
      obtain ⟨completion, hcompletion, hperform⟩ := perform_of_placeless hplace
      rw [hperform]
      refine ⟨shadow', ?_⟩
      rw [← hcompletion] at hid
      simpa [endings] using hid.symm
  | some other =>
      obtain ⟨stands, apart⟩ := (hbeside other hplace).2 hid
      have hown : ∀ other' ∈ task.place?, other' = other := by simp [hplace]
      have accounts := task.accounts_perform (feedAt { reactor with queue } other) hown
      have hperform : Reactor.perform { reactor with queue } task = _ := perform_eq hplace stands
      rw [hperform]
      refine ⟨shadow'.settle_other hid stands apart accounts, ?_⟩
      intro hmem
      have hself := List.mem_append_left ((task.perform
        (feedAt { reactor with queue } other)).remnant.toList.map Remnant.id) hmem
      rw [accounts.once, List.mem_singleton] at hself
      exact hid hself.symm

theorem Shadow.perform_own (shadow : Shadow base id place reactor alone)
    (hqueue : reactor.queue = task :: queue) (hid : task.id = id) :
    (Reactor.perform { alone with queue := [] } task).1 =
        (Reactor.perform { reactor with queue } task).1 ∧
      Shadow base id place (Reactor.perform { reactor with queue } task).2
        (Reactor.perform { alone with queue := [] } task).2 ∧
      ∀ breakdown, (Reactor.perform { alone with queue := [] } task).1 = .error breakdown →
        (Reactor.perform { alone with queue := [] } task).2.queue = [] := by
  obtain ⟨-, hidle, shadow'⟩ := shadow.pop_own hqueue hid
  have hbeside := shadow.queued task (hqueue ▸ List.mem_cons_self)
  cases hplace : task.place? with
  | none =>
      obtain ⟨completion, -, hperform⟩ := perform_of_placeless hplace
      rw [hperform, hperform]
      exact ⟨rfl, shadow', fun _ _ => rfl⟩
  | some other =>
      have hown : ∀ other ∈ task.place?, other = place :=
        fun other hother => (hbeside other hother).1 hid
      obtain rfl := hown other hplace
      have hfeed := feedAt_congr shadow'.cells
      have accounts := task.accounts_perform (feedAt { reactor with queue } other) hown
      have hperform : Reactor.perform { reactor with queue } task = _ :=
        perform_eq hplace shadow'.stands
      have hperform' : Reactor.perform { alone with queue := [] } task = _ :=
        perform_eq hplace ((stands_congr shadow'.cells).mp shadow'.stands)
      rw [hperform, hperform', ← hfeed]
      rw [hid] at accounts
      refine ⟨rfl, shadow'.settle_own hidle accounts, ?_⟩
      intro breakdown hbroken
      cases hremnant : (task.perform (feedAt { reactor with queue } other)).remnant with
      | none => rw [settle, hremnant, leave, queue_putFeed]
      | some remnant =>
          obtain ⟨hgoes, -⟩ := accounts.of_remnant hremnant
          dsimp only at hbroken
          rw [hbroken] at hgoes
          exact absurd hgoes (List.cons_ne_nil _ _)

end Run

/-- A read that another source holds is cancelled. -/
theorem Shadow.cancel_other (shadow : Shadow base id place reactor alone) {source : SourceId}
    (hsource : base.sourceId? place ≠ some source) :
    Shadow base id place (reactor.cancel source).2 alone := by
  rcases reactor.cancel_cases source with ⟨-, hcancel⟩ | ⟨waiter, first, rest, hheld, hcancel⟩
  · rw [hcancel]
    exact shadow
  · have hmem : (source, waiter) ∈ reactor.held := by simp [hheld]
    obtain ⟨howner, hbeside⟩ := shadow.waiting (source, waiter) hmem
    have hid : waiter.id ≠ id := mt howner.mp hsource
    have shadow' : Shadow base id place { reactor with held := first ++ rest } alone := {
      shadow with
      held := by
        rw [← shadow.held, heldOf, heldOf, hheld]
        simp [hid]
      waiting := fun other hother => shadow.waiting other (mem_held_of_mem hheld hother) }
    rw [hcancel]
    exact shadow'.enqueue_other hid hbeside

end Shadow

end Reactor

end StreamParse
