import Mathlib.Data.List.Chain
import StreamParse.Proofs.Passage

/-!
# The shape of a parse

A parse is looks and reads in turn.  Which of its events have another one behind them can be said of
each event alone: a look that wants more, while the window is below its limit, has a read behind it,
and a read that has not failed has a look behind it.  No other event has anything behind it, and the
answer is told by the last one.

What the looks show is the window that the parse began with and behind it what the reads have brought
so far, however often the window was moved in between.
-/

namespace StreamParse

variable {ν ε : Type}

namespace Event

section Append

variable (first second : List (Event ν ε))

@[simp]
theorem windows_append : windows (first ++ second) = windows first ++ windows second := by
  rw [windows, buffers, List.filterMap_append, List.map_append]
  rfl

@[simp]
theorem outcomes_append : outcomes (first ++ second) = outcomes first ++ outcomes second :=
  List.filterMap_append

@[simp]
theorem looks_append : looks (first ++ second) = looks first + looks second :=
  List.countP_append

end Append

/-- Whether a parse goes on behind an event. -/
def goesOn (limit : UInt64) : Event ν ε → Bool
  | look buffer outcome => outcome.isMore && decide (buffer.window.length < limit.toNat)
  | read delivery => !delivery.code.failed

/-- The answer of a parse that ends with an event. -/
def answer : Event ν ε → Except Fault (Result ν ε)
  | look buffer (.done value used) =>
      if used ≤ buffer.window.length then .ok (.value value) else .error .overuse
  | look _ (.reject error) => .ok (.failed (.rejection error))
  | look _ (.more _) => .ok (.failed .overflow)
  | read delivery => .ok (.failed (.ofRead delivery.code))

/-- The next event may come behind this one: behind a look comes a read, and behind a read a look. -/
def Precedes (limit : UInt64) (event next : Event ν ε) : Prop :=
  event.goesOn limit = true ∧ next.isLook = !event.isLook

end Event

/-- What one source gives after another. -/
theorem Source.Gave.append {source mid last : Source} {deliveries more : List Delivery}
    (hgave : source.Gave deliveries mid) (hmore : mid.Gave more last) :
    source.Gave (deliveries ++ more) last := by
  induction hmore with
  | nothing =>
      rw [List.append_nil]
      exact hgave
  | read _ hroom ih =>
      rw [← List.append_assoc]
      exact ih.read hroom
  | cancelled _ hholds ih =>
      rw [← List.append_assoc]
      exact ih.cancelled hholds

/-- A source that gave nothing was not read. -/
theorem Source.Gave.eq_of_nil {source left : Source} {deliveries : List Delivery}
    (hgave : source.Gave deliveries left) (hnone : deliveries = []) : left = source := by
  cases hgave with
  | nothing => rfl
  | read => exact absurd hnone (List.append_ne_nil_of_right_ne_nil _ (List.cons_ne_nil _ _))
  | cancelled => exact absurd hnone (List.append_ne_nil_of_right_ne_nil _ (List.cons_ne_nil _ _))

namespace Feed

/-- The first windows that a parse shows while its reads bring these deliveries: each is the window
that it began with and what the reads before have brought. -/
def shown (first : Feed) (deliveries : List Delivery) (looks : Nat) : List (List UInt8) :=
  (List.range looks).map fun reads =>
    first.buffer.window ++ (deliveries.take reads).flatMap Delivery.bytes

theorem shown_succ (first : Feed) (deliveries : List Delivery) (looks : Nat) :
    first.shown deliveries (looks + 1) = first.shown deliveries looks ++
      [first.buffer.window ++ (deliveries.take looks).flatMap Delivery.bytes] := by
  rw [shown, shown, List.range_succ, List.map_append, List.map_singleton]

/-- What later reads bring is not shown before. -/
theorem shown_append (first : Feed) (deliveries more : List Delivery) {looks : Nat}
    (hlooks : looks ≤ deliveries.length + 1) :
    first.shown (deliveries ++ more) looks = first.shown deliveries looks := by
  rw [shown, shown]
  apply List.map_congr_left
  intro reads hmem
  have hreads := List.mem_range.mp hmem
  rw [List.take_append_of_le_length (by omega)]

/-- The shape of a parse from its first look to its answer. -/
structure Shape (parser : Parser ν ε) (first : Feed) (transcript : List (Event ν ε))
    (answer : Except Fault (Result ν ε)) (last : Feed) : Prop where
  /-- The source was read as often as the transcript says, and for nothing else. -/
  gave : first.source.Gave (Event.deliveries transcript) last.source
  windows : Event.windows transcript =
    first.shown (Event.deliveries transcript) (Event.looks transcript)
  outcomes : Event.outcomes transcript = (Event.windows transcript).map parser
  incomplete : ∀ outcome ∈ (Event.outcomes transcript).dropLast, outcome.isMore = true
  begins : transcript.head? = some (.look first.buffer (parser first.buffer.window))
  alternates : transcript.IsChain (Event.Precedes first.buffer.limit)
  /-- The last event has nothing behind it and tells the answer.  If it is a look, no read followed
  it, and if it is a read, no look. -/
  ends : ∃ event, transcript.getLast? = some event ∧ event.goesOn first.buffer.limit = false ∧
    answer = event.answer ∧
    Event.looks transcript =
      (Event.deliveries transcript).length + if event.isLook then 1 else 0
  /-- A first look that decides the parse, or finds the window full, is all of it. -/
  prompt : (Event.look first.buffer (parser first.buffer.window)).goesOn first.buffer.limit = false →
    transcript = [.look first.buffer (parser first.buffer.window)] ∧ last.source = first.source

variable {parser : Parser ν ε} {readSize : UInt64} {first mid last : Feed}
variable {past rest : List (Event ν ε)} {answer : Except Fault (Result ν ε)}

/-- Behind an event that has nothing behind it there is nothing. -/
theorem eq_singleton_of_head? {limit : UInt64} {transcript : List (Event ν ε)} {event : Event ν ε}
    (hhead : transcript.head? = some event) (hchain : transcript.IsChain (Event.Precedes limit))
    (hends : event.goesOn limit = false) : transcript = [event] := by
  obtain ⟨rest, rfl⟩ := List.head?_eq_some_iff.mp hhead
  cases rest with
  | nil => rfl
  | cons next rest =>
      obtain ⟨⟨hgoes, -⟩, -⟩ := List.isChain_cons_cons.mp hchain
      rw [hends] at hgoes
      exact absurd hgoes Bool.false_ne_true

/-- The events of a last turn: a look, and perhaps a read behind it. -/
def lastTurn (parser : Parser ν ε) (mid : Feed) (delivery? : Option Delivery) : List (Event ν ε) :=
  .look mid.buffer (parser mid.buffer.window) :: (delivery?.map Event.read).toList

section LastTurn

variable (parser : Parser ν ε) (mid : Feed) (delivery? : Option Delivery)

theorem looks_lastTurn : Event.looks (lastTurn parser mid delivery?) = 1 := by
  cases delivery? <;> rfl

theorem windows_lastTurn :
    Event.windows (lastTurn parser mid delivery?) = [mid.buffer.window] := by
  cases delivery? <;> rfl

theorem outcomes_lastTurn :
    Event.outcomes (lastTurn parser mid delivery?) = [parser mid.buffer.window] := by
  cases delivery? <;> rfl

theorem deliveries_lastTurn :
    Event.deliveries (lastTurn parser mid delivery?) = delivery?.toList := by
  cases delivery? <;> rfl

end LastTurn

variable [Allocator]

/-! ## Reads that succeeded -/

/-- A look that a read follows has one behind it. -/
theorem goesOn_of_turn {area : Area} {buffer : Buffer} (hread : readSize ≠ 0)
    (hturn : mid.buffer.turn readSize (parser mid.buffer.window) = (.reads area, buffer)) :
    (Event.look mid.buffer (parser mid.buffer.window)).goesOn mid.buffer.limit = true := by
  obtain ⟨hint, hmore, hroom, -⟩ := Buffer.starves_of_reads hread hturn
  rw [Event.goesOn, Buffer.length_window, hmore]
  simp [Outcome.isMore, hroom]

theorem Reads.goesOn {next : Feed} {delivery : Delivery} (hread : readSize ≠ 0)
    (hreads : Reads parser readSize mid delivery next) :
    (Event.look mid.buffer (parser mid.buffer.window)).goesOn mid.buffer.limit = true := by
  cases hreads with
  | intro hturn => exact goesOn_of_turn hread hturn

/-- Every look was followed by one read. -/
theorem Reaches.looks (hreaches : Reaches parser readSize first past mid) :
    Event.looks past = (Event.deliveries past).length := by
  induction hreaches with
  | nothing => rfl
  | read _ _ _ ih =>
      rw [Event.looks_append, Event.deliveries_append, List.length_append, ih]
      rfl

theorem Reaches.windows (hread : readSize ≠ 0) (valid : first.buffer.Valid)
    (hreaches : Reaches parser readSize first past mid) :
    Event.windows past = first.shown (Event.deliveries past) (Event.deliveries past).length := by
  induction hreaches with
  | nothing => rfl
  | @read past mid next delivery hreaches hreads hreceived ih =>
      have hwindow := hreaches.window hread valid
      rw [Event.windows_append, ih, Event.deliveries_append, List.length_append]
      change _ = first.shown _ ((Event.deliveries past).length + 1)
      rw [shown_succ, shown_append _ _ _ (Nat.le_succ _), List.take_left]
      exact congrArg (fun window => _ ++ [window]) hwindow

/-- The parser wanted more at every look. -/
theorem Reaches.outcomes (hread : readSize ≠ 0)
    (hreaches : Reaches parser readSize first past mid) :
    Event.outcomes past = (Event.windows past).map parser ∧
      ∀ outcome ∈ Event.outcomes past, outcome.isMore = true := by
  induction hreaches with
  | nothing => exact ⟨rfl, nofun⟩
  | @read past mid next delivery hreaches hreads hreceived ih =>
      obtain ⟨hint, area, buffer, hmore, -⟩ := hreads.starved hread
      obtain ⟨houtcomes, hincomplete⟩ := ih
      constructor
      · rw [Event.outcomes_append, Event.windows_append, List.map_append, houtcomes]
        rfl
      · rw [Event.outcomes_append]
        intro outcome hmem
        rcases List.mem_append.mp hmem with hmem | hmem
        · exact hincomplete outcome hmem
        · have hlast : outcome = parser mid.buffer.window := List.mem_singleton.mp hmem
          rw [hlast, hmore]
          rfl

/-- They are looks and reads in turn. -/
theorem Reaches.alternates (hread : readSize ≠ 0)
    (hreaches : Reaches parser readSize first past mid) :
    past.IsChain (Event.Precedes first.buffer.limit) ∧
      ∀ event ∈ past.getLast?, event.goesOn first.buffer.limit = true ∧ event.isLook = false := by
  induction hreaches with
  | nothing => exact ⟨.nil, nofun⟩
  | @read past mid next delivery hreaches hreads hreceived ih =>
      obtain ⟨hchain, hlast⟩ := ih
      have hlook := hreads.goesOn hread
      rw [hreaches.limit hread] at hlook
      constructor
      · refine List.isChain_append.mpr ⟨hchain, List.isChain_pair.mpr ⟨hlook, rfl⟩, ?_⟩
        rintro event hmem _ ⟨⟩
        obtain ⟨hgoes, hkind⟩ := hlast event hmem
        exact ⟨hgoes, by rw [hkind]; rfl⟩
      · intro event hmem
        obtain rfl : Event.read delivery = event := by simpa using hmem
        exact ⟨congrArg not hreceived, rfl⟩

/-- The first look is at the window that the parse began with. -/
theorem Reaches.begins (hreaches : Reaches parser readSize first past mid)
    (hrest : rest.head? = some (.look mid.buffer (parser mid.buffer.window))) :
    (past ++ rest).head? = some (.look first.buffer (parser first.buffer.window)) := by
  induction hreaches generalizing rest with
  | nothing => exact hrest
  | read _ _ _ ih =>
      rw [List.append_assoc]
      exact ih rfl

/-! ## The last turn -/

/-- A turn that ends a parse is a look, and a read that failed behind it if the parse went on. -/
theorem Ends.lastTurn (hread : readSize ≠ 0)
    (hsize : mid.buffer.size.toNat ≤ mid.buffer.limit.toNat)
    (hmemory : answer ≠ .error .outOfMemory) (hends : Ends parser readSize mid rest answer last) :
    ∃ delivery? : Option Delivery,
      rest = Feed.lastTurn parser mid delivery? ∧
      mid.source.Gave delivery?.toList last.source ∧
      (Event.look mid.buffer (parser mid.buffer.window)).goesOn mid.buffer.limit =
        delivery?.isSome ∧
      (∀ delivery ∈ delivery?, delivery.code.failed = true) ∧
      answer = ((delivery?.map Event.read).getD
        (.look mid.buffer (parser mid.buffer.window))).answer := by
  cases hends with
  | look hturn =>
      refine ⟨none, rfl, .nothing, ?_⟩
      have hleads := Buffer.leads_of_turn hread hturn
      generalize parser mid.buffer.window = outcome at hleads
      cases hleads with
      | value hused => simp [Event.goesOn, Event.answer, Outcome.isMore, hused]
      | overuse hused => simp [Event.goesOn, Event.answer, Outcome.isMore, hused]
      | rejection => exact ⟨rfl, by simp, rfl⟩
      | overflow hfull => simp [Event.goesOn, Event.answer, hfull]
      | overLimit hover => exact absurd hsize (Nat.not_le.mpr hover)
      | outOfMemory => exact absurd rfl hmemory
  | @read delivery _ hreads hfailed =>
      obtain ⟨room, hroom, hdelivery, hsource⟩ := hreads.source hread
      refine ⟨some delivery, rfl, ?_, hreads.goesOn hread, ?_, rfl⟩
      · rw [hdelivery, hsource]
        exact Source.Gave.nothing.read hroom
      · rintro _ ⟨⟩
        exact hfailed
  | cancelled hturn hholds =>
      refine ⟨some { code := .operationAborted }, rfl, Source.Gave.nothing.cancelled hholds,
        goesOn_of_turn hread hturn, ?_, rfl⟩
      rintro _ ⟨⟩
      rfl

/-! ## The whole parse -/

/-- Whatever a parse comes to, it has its shape. -/
theorem Passage.shape {transcript : List (Event ν ε)} (hread : readSize ≠ 0)
    (valid : first.buffer.Valid)
    (hsize : first.buffer.size.toNat ≤ first.buffer.limit.toNat)
    (hmemory : answer ≠ .error .outOfMemory)
    (hpassage : Passage parser readSize first transcript answer last) :
    Shape parser first transcript answer last := by
  cases hpassage with
  | @intro past rest mid last answer hreaches hends =>
      obtain ⟨delivery?, rfl, hgave, hgoes, hfailed, hanswer⟩ :=
        hends.lastTurn hread (hreaches.size_le hread valid hsize) hmemory
      obtain ⟨houtcomes, hincomplete⟩ := hreaches.outcomes hread
      obtain ⟨hchain, hlast⟩ := hreaches.alternates hread
      have hwindow := hreaches.window hread valid
      rw [hreaches.limit hread] at hgoes
      have hwhole : first.source.Gave
          (Event.deliveries (past ++ lastTurn parser mid delivery?)) last.source := by
        rw [Event.deliveries_append, deliveries_lastTurn]
        exact (hreaches.gave hread).append hgave
      have hbegins := @Reaches.begins _ _ _ _ _ _ _ (lastTurn parser mid delivery?) _ hreaches rfl
      have halternates : (past ++ lastTurn parser mid delivery?).IsChain
          (Event.Precedes first.buffer.limit) := by
        refine List.isChain_append.mpr ⟨hchain, ?_, ?_⟩
        · cases delivery? with
          | none => exact List.isChain_singleton _
          | some delivery => exact List.isChain_pair.mpr ⟨hgoes, rfl⟩
        · rintro event hmem _ ⟨⟩
          obtain ⟨hgoes', hkind⟩ := hlast event hmem
          exact ⟨hgoes', by rw [hkind]; rfl⟩
      refine {
        gave := hwhole
        begins := hbegins
        alternates := halternates
        windows := ?windows
        outcomes := ?outcomes
        incomplete := ?incomplete
        ends := ⟨_, ?last, ?stops, hanswer, ?counts⟩
        prompt := ?prompt }
      case windows =>
        rw [Event.windows_append, windows_lastTurn, hwindow, hreaches.windows hread valid,
          Event.deliveries_append, deliveries_lastTurn, Event.looks_append, looks_lastTurn,
          hreaches.looks, shown_append _ _ _ (Nat.le_refl _), shown_succ, List.take_length]
        rfl
      case outcomes =>
        rw [Event.outcomes_append, Event.windows_append, List.map_append, outcomes_lastTurn,
          windows_lastTurn, houtcomes]
        rfl
      case incomplete =>
        rw [Event.outcomes_append, outcomes_lastTurn, List.dropLast_concat]
        exact hincomplete
      case last => cases delivery? <;> simp [Feed.lastTurn]
      case stops =>
        cases delivery? with
        | none => exact hgoes
        | some delivery => exact congrArg not (hfailed delivery rfl)
      case counts =>
        rw [Event.looks_append, looks_lastTurn, Event.deliveries_append, deliveries_lastTurn,
          hreaches.looks]
        cases delivery? <;> simp [Event.isLook]
      case prompt =>
        intro hdecided
        have hone := eq_singleton_of_head? hbegins halternates hdecided
        rw [hone] at hwhole
        exact ⟨hone, hwhole.eq_of_nil rfl⟩

end Feed

end StreamParse
