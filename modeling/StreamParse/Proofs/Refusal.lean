import StreamParse.Proofs.Bounds
import StreamParse.Proofs.Closing
import StreamParse.Proofs.Conservation
import StreamParse.Proofs.Fragmentation
import StreamParse.Proofs.Growth
import StreamParse.Proofs.Reactor.Limits

/-!
# What a fault leaves

Some faults lie in the arguments of a call: more bytes than the limit leaves or the window holds, a
limit below the window, a read size of zero.  They are found before anything is done, so what was
called is as it was, and whether there is one can be told from the arguments and the numbers of the
buffer alone.  The numbers are those that the machine words stand for, so a sum of them does not
wrap.

A parser that claims more bytes than it was shown is found out later, after some reads.  The parse
ends at that look: nothing leaves the window, the source is not read again, and the next parse begins
with all that the first one has received.
-/

namespace StreamParse

variable {ν ε : Type}

/-- Whether a fault lies in the arguments of a call. -/
def Fault.isMisuse : Fault → Bool
  | pastWindow | overLimit | limitBelowSize | zeroReadSize => true
  | overuse | outOfMemory => false

/-- The fault of a read size that asks for nothing. -/
def readSizeMisuse? (readSize : UInt64) : Option Fault :=
  if readSize = 0 then some .zeroReadSize else none

theorem readSizeMisuse?_of_ne {readSize : UInt64} (hread : readSize ≠ 0) :
    readSizeMisuse? readSize = none := if_neg hread

/-! ## Buffers -/

namespace Buffer

/-- The fault of asking for room for `n` bytes, or for one where `n` is zero. -/
def roomMisuse? (b : Buffer) (n : UInt64) : Option Fault :=
  if b.limit.toNat < b.size.toNat + max n.toNat 1 then some .overLimit else none

/-- The fault that lies in the arguments of a command. -/
def misuse? (b : Buffer) : Command → Option Fault
  | .reserve n _ => b.roomMisuse? n
  | .append bytes _ => b.roomMisuse? bytes.length.toUInt64
  | .consume n => if b.size.toNat < n.toNat then some .pastWindow else none
  | .setLimit limit => if limit.toNat < b.size.toNat then some .limitBelowSize else none
  | .commit _ | .clear => none

variable [Allocator] {b : Buffer} {fault : Fault}

theorem reserve_eq_error_iff {n : UInt64} :
    b.reserve n = .error fault ↔ b.placement (max n 1) = .error fault :=
  ⟨reserve_eq_error, reserve_of_refused⟩

/-- Room is refused for its amount exactly where the window would outgrow the limit. -/
theorem reserve_misuse_iff {n : UInt64} (hmisuse : fault.isMisuse = true) :
    b.reserve n = .error fault ↔ b.roomMisuse? n = some fault := by
  have hwanted : (max n 1).toNat = max n.toNat 1 := Word.toNat_max n 1
  rw [reserve_eq_error_iff, roomMisuse?, ← hwanted]
  by_cases hover : b.limit.toNat < b.size.toNat + (max n 1).toNat
  · rw [placement_eq, if_pos hover, if_pos hover, Except.error.injEq, Option.some.injEq]
  · rw [if_neg hover]
    refine iff_of_false (fun hplacement => ?_) nofun
    rcases placement_eq_error hplacement with ⟨-, hlimit⟩ | ⟨rfl, -⟩
    · exact hover hlimit
    · cases hmisuse

theorem consume_misuse_iff {n : UInt64} :
    b.perform (.consume n) = .error fault ↔ b.misuse? (.consume n) = some fault := by
  by_cases hpast : n > b.size
  · rw [perform_consume_of_gt hpast, misuse?, if_pos (UInt64.lt_iff_toNat_lt.mp hpast),
      Except.error.injEq, Option.some.injEq]
  · have hwithin : ¬ b.size.toNat < n.toNat := mt UInt64.lt_iff_toNat_lt.mpr hpast
    rw [misuse?, if_neg hwithin]
    simp [perform, consume, hpast, Except.map]

theorem setLimit_misuse_iff {limit : UInt64} :
    b.perform (.setLimit limit) = .error fault ↔ b.misuse? (.setLimit limit) = some fault := by
  by_cases hbelow : limit < b.size
  · rw [perform_setLimit_of_lt hbelow, misuse?, if_pos (UInt64.lt_iff_toNat_lt.mp hbelow),
      Except.error.injEq, Option.some.injEq]
  · have hwithin : ¬ limit.toNat < b.size.toNat := mt UInt64.lt_iff_toNat_lt.mpr hbelow
    rw [misuse?, if_neg hwithin]
    simp [perform, setLimit, hbelow, Except.map]

/-- A command meets the faults that lie in its arguments, and no others of their kind. -/
theorem perform_misuse_iff {command : Command} (hmisuse : fault.isMisuse = true) :
    b.perform command = .error fault ↔ b.misuse? command = some fault := by
  cases command with
  | reserve n bytes =>
      rw [misuse?, ← reserve_misuse_iff hmisuse]
      cases hreserve : b.reserve n with
      | error other => rw [perform_reserve_of_error hreserve, Except.error.injEq, Except.error.injEq]
      | ok found => simp [perform, hreserve, bind, Except.bind, pure, Except.pure]
  | append bytes n =>
      rw [misuse?, ← reserve_misuse_iff hmisuse]
      cases hreserve : b.reserve bytes.length.toUInt64 with
      | error other => rw [perform_append_of_error hreserve, Except.error.injEq, Except.error.injEq]
      | ok found => simp [perform, append, hreserve, bind, Except.bind, pure, Except.pure]
  | commit n => simp [perform, misuse?]
  | consume n => exact consume_misuse_iff
  | setLimit limit => exact setLimit_misuse_iff
  | clear => simp [perform, misuse?]

end Buffer

/-! ## Parses -/

/-- A live source stays so however often it is read. -/
theorem Source.Gave.live {source left : Source} {deliveries : List Delivery} (live : source.Live)
    (hgave : source.Gave deliveries left) : left.Live := by
  induction hgave with
  | nothing => exact live
  | read _ _ ih => exact ih.read _
  | cancelled _ _ ih => exact ⟨ih.cap_pos, ih.ends⟩

namespace Event

/-- A look whose outcome claims more bytes than the window holds. -/
def overuses : Event ν ε → Bool
  | .look buffer (.done _ used) => buffer.window.length < used
  | _ => false

/-- The parser has claimed more than it was shown. -/
def Overused (transcript : List (Event ν ε)) : Prop :=
  ∃ event ∈ transcript, event.overuses = true

/-- A parser that asks for more claims nothing. -/
theorem not_overused_of_more (buffer : Buffer) (hint : Option Nat) (delivery : Delivery) :
    ¬ Overused [.look buffer (.more hint : Outcome ν ε), .read delivery] := by
  rintro ⟨event, hmem, hover⟩
  simp only [List.mem_cons, List.not_mem_nil, or_false] at hmem
  rcases hmem with rfl | rfl <;> cases hover

theorem overused_append {before after : List (Event ν ε)} :
    Overused (before ++ after) ↔ Overused before ∨ Overused after := by
  simp only [Overused, List.mem_append, or_and_right, exists_or]

end Event

namespace Feed

variable [Allocator] {parser : Parser ν ε} {readSize : UInt64} {first mid last : Feed}
variable {past rest transcript : List (Event ν ε)} {answer : Except Fault (Result ν ε)}

/-- A turn that ends with a fault ends with the look, and leaves everything as it was. -/
theorem Ends.of_fault {fault : Fault} (hread : readSize ≠ 0)
    (hends : Ends parser readSize mid rest (.error fault) last) :
    rest = [.look mid.buffer (parser mid.buffer.window)] ∧ last = mid ∧
      (fault.isMisuse = true → fault = .overLimit) := by
  cases hends with
  | look hturn =>
      have hleads := Buffer.leads_of_turn hread hturn
      generalize parser mid.buffer.window = outcome at hleads ⊢
      cases hleads with
      | overuse => exact ⟨rfl, rfl, nofun⟩
      | overLimit => exact ⟨rfl, rfl, fun _ => rfl⟩
      | outOfMemory => exact ⟨rfl, rfl, nofun⟩

/-- The fault of an overuse is met where the last look is one. -/
theorem Ends.overuse_iff (hread : readSize ≠ 0)
    (hends : Ends parser readSize mid rest answer last) :
    answer = .error .overuse ↔ Event.Overused rest := by
  cases hends with
  | look hturn =>
      have hleads := Buffer.leads_of_turn hread hturn
      generalize parser mid.buffer.window = outcome at hleads ⊢
      simp only [Event.Overused, List.mem_singleton, exists_eq_left]
      cases hleads with
      | value hused => simpa [Event.overuses] using hused
      | overuse hused => simpa [Event.overuses] using hused
      | _ => exact iff_of_false nofun nofun
  | read hreads _ =>
      obtain ⟨hint, _, _, hmore, -⟩ := hreads.starved hread
      rw [hmore]
      exact iff_of_false nofun (Event.not_overused_of_more _ _ _)
  | cancelled hturn _ =>
      obtain ⟨hint, hmore, -⟩ := Buffer.starves_of_reads hread hturn
      rw [hmore]
      exact iff_of_false nofun (Event.not_overused_of_more _ _ _)

/-- A parse goes on only behind looks that are none. -/
theorem Reaches.not_overused (hread : readSize ≠ 0)
    (hreaches : Reaches parser readSize first past mid) : ¬ Event.Overused past := by
  induction hreaches with
  | nothing => exact nofun
  | read _ hreads _ ih =>
      obtain ⟨hint, _, _, hmore, -⟩ := hreads.starved hread
      rw [Event.overused_append, hmore]
      exact not_or.mpr ⟨ih, Event.not_overused_of_more _ _ _⟩

/-- A parse that was stopped at its last look, with nothing consumed. -/
structure Stopped (first : Feed) (transcript : List (Event ν ε)) (last : Feed) : Prop where
  /-- No read follows the look. -/
  final : ∃ before outcome, transcript = before ++ [.look last.buffer outcome]
  valid : last.buffer.Valid
  window : last.buffer.window = first.buffer.window ++ Event.received transcript
  limit : last.buffer.limit = first.buffer.limit
  within : first.buffer.Within → last.buffer.Within
  gave : first.source.Gave (Event.deliveries transcript) last.source
  pending : last.pending = first.pending

/-- Whatever the fault, a parse that meets one is stopped there. -/
theorem Passage.stopped {fault : Fault} (hread : readSize ≠ 0) (valid : first.buffer.Valid)
    (hpassage : Passage parser readSize first transcript (.error fault) last) :
    Stopped first transcript last := by
  cases hpassage with
  | @intro past rest mid _ _ hreaches hends =>
      obtain ⟨rfl, rfl, -⟩ := hends.of_fault hread
      have hreceived : ∀ outcome : Outcome ν ε, Event.deliveries
          (past ++ [.look last.buffer outcome]) = Event.deliveries past := by
        intro outcome
        rw [Event.deliveries_append]
        exact List.append_nil _
      refine ⟨⟨past, _, rfl⟩, hreaches.valid hread valid, ?_, hreaches.limit hread,
        hreaches.size_le hread valid, ?_, hreaches.pending hread valid⟩
      · rw [Event.received, hreceived]
        exact hreaches.window hread valid
      · rw [hreceived]
        exact hreaches.gave hread

/-- The fault of an overuse is met exactly where the parser has claimed too much. -/
theorem Passage.overuse_iff (hread : readSize ≠ 0)
    (hpassage : Passage parser readSize first transcript answer last) :
    answer = .error .overuse ↔ Event.Overused transcript := by
  cases hpassage with
  | @intro past rest mid _ _ hreaches hends =>
      rw [hends.overuse_iff hread, Event.overused_append,
        or_iff_right (hreaches.not_overused hread)]

/-- The arguments of a parse that has begun are not what it meets a fault for. -/
theorem Passage.fault {fault : Fault} (hread : readSize ≠ 0)
    (hpassage : Passage parser readSize first transcript (.error fault) last)
    (hmisuse : fault.isMisuse = true) : fault = .overLimit := by
  cases hpassage with
  | intro _ hends => exact (hends.of_fault hread).2.2 hmisuse

/-- A parse that waits for its reads has an answer when its parser has claimed too much. -/
theorem parse_overused (hread : readSize ≠ 0)
    (hover : Event.Overused (first.parse parser readSize).transcript) :
    (first.parse parser readSize).answer = some (.error .overuse) := by
  cases hanswer : (first.parse parser readSize).answer with
  | none =>
      rw [parse_of_ne_zero first parser hread] at hanswer hover
      exact absurd hover ((reaches_of_unanswered hanswer).not_overused hread)
  | some answer =>
      rw [((course_of_parse hread hanswer).passage.overuse_iff hread).mpr hover]

/-! ## The next parse -/

theorem Passage.begins (hpassage : Passage parser readSize first transcript answer last) :
    (Event.windows transcript).head? = some first.buffer.window := by
  cases hpassage with
  | @intro past rest mid _ _ hreaches hends =>
      obtain ⟨delivery?, rfl⟩ := hends.eq_lastTurn
      have hbegins : (past ++ lastTurn parser mid delivery?).head? =
          some (.look first.buffer (parser first.buffer.window)) := hreaches.begins rfl
      obtain ⟨later, hwhole⟩ := List.head?_eq_some_iff.mp hbegins
      rw [hwhole]
      rfl

/-- What a later parse makes of a feed that a stopped one has left: it is shown first all that the
stopped one has received, and if its parser is stable it concludes what it would have concluded from
the beginning. -/
structure Continues {ν' ε' : Type} (first : Feed) (transcript : List (Event ν ε)) (last : Feed)
    (next : Parser ν' ε') (nextSize : UInt64) : Prop where
  shows {transcript' : List (Event ν' ε')} {answer' : Except Fault (Result ν' ε')} {later : Feed} :
    Passage next nextSize last transcript' answer' later →
    (Event.windows transcript').head? =
      some (first.buffer.window ++ Event.received transcript)
  concludes : next.Stable → first.buffer.Within → first.source.Live →
    Event.interrupted (last.parse next nextSize).transcript
      (last.parse next nextSize).feed.source = false →
    (last.parse next nextSize).answer ≠ some (.error .outOfMemory) →
    ∃ result, (last.parse next nextSize).answer = some (.ok result) ∧
      next.Concludes first.buffer.limit.toNat first.source.atEnd.code first.pending result
        (last.parse next nextSize).feed.pending

theorem Stopped.continues (stopped : Stopped first transcript last) {ν' ε' : Type}
    (next : Parser ν' ε') {nextSize : UInt64} (hnext : nextSize ≠ 0) :
    Continues first transcript last next nextSize where
  shows hpassage := by
    rw [hpassage.begins, stopped.window]
  concludes stable within live hcalm hmemory := by
    have ready : last.Ready := ⟨stopped.valid, stopped.within within, stopped.gave.live live⟩
    have hconcludes := parse_concludes stable ready hnext hcalm hmemory
    rw [stopped.limit, stopped.gave.same.1, stopped.pending] at hconcludes
    exact hconcludes

end Feed

end StreamParse
