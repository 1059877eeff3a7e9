import StreamParse.Parser.Sized
import StreamParse.Proofs.Reactor.Limits
import StreamParse.Proofs.Reactor.Places

/-!
# Objects that move

A buffer or a session may be moved while it is in use: behind the others of its kind, or over one of
them, whose contents are lost.  Whoever goes on with it at its new index finds it as it was.  An object
is taken here together with all that its commands depend on.  A command makes of that what it would
make of it under any index, a move carries the whole of it along, and so the history of an object is
the one that it would have had without its moves.

What a moved buffer leaves behind is a buffer as well, and nothing tells it from a new one with the
same limit.
-/

namespace StreamParse

variable {ν ε κ σ : Type}

/-- What is put at another index does not hide what was put before. -/
theorem getD_set_set {α : Type} {entries : List α} {target index : Nat}
    (htarget : target < entries.length) (hother : target ≠ index) (moved left default : α) :
    ((entries.set target moved).set index left).getD target default = moved := by
  rw [List.getD_eq_getElem?_getD, List.getElem?_set_ne hother.symm,
    List.getElem?_set_self htarget, Option.getD_some]

/-- A step in the life of an object of a reactor. -/
inductive Leg (κ : Type) where
  | use (command : κ)
  /-- It moves behind the last object of its kind. -/
  | move
  /-- It moves over the object with this index. -/
  | assign (target : Nat)

namespace Leg

def command? : Leg κ → Option κ
  | use command => some command
  | move => none
  | assign _ => none

def isUse (leg : Leg κ) : Bool := leg.command?.isSome

end Leg

/-- One kind of objects that a reactor lists. -/
structure Kind (ν ε κ σ : Type) where
  /-- Asks the reactor for a leg of the object with an index. -/
  request : Nat → Leg κ → Request ν ε
  count : Reactor ν ε → Nat
  /-- An object with all that its commands depend on. -/
  state : Reactor ν ε → Nat → σ

/-- What is seen of an object on its way. -/
structure Journey (ν ε σ : Type) where
  /-- The reply to each use, with the object after it. -/
  uses : List (Reply ν ε × σ)
  /-- The object at the end. -/
  final : σ

namespace Journey

/-- The journey with a use before it. -/
def after (use : Reply ν ε × σ) (rest : Journey ν ε σ) : Journey ν ε σ :=
  { rest with uses := use :: rest.uses }

/-- The journey of an object that is not moved, and of which each command makes the same whatever its
index is. -/
def atRest (effect : σ → κ → Reply ν ε × σ) : σ → List κ → Journey ν ε σ
  | state, [] => { uses := [], final := state }
  | state, command :: commands =>
      after (effect state command) (atRest effect (effect state command).2 commands)

end Journey

namespace Kind

/-- The index of an object after a leg.  A move over an index that stands for nothing is none. -/
def next (kind : Kind ν ε κ σ) (reactor : Reactor ν ε) (index : Nat) : Leg κ → Nat
  | .use _ => index
  | .move => kind.count reactor
  | .assign target => if target < kind.count reactor then target else index

variable [Allocator]

/-- The journey of an object, whose index after each leg is the one that the leg gave it. -/
def journey (kind : Kind ν ε κ σ) : Reactor ν ε → Nat → List (Leg κ) → Journey ν ε σ
  | reactor, index, [] => { uses := [], final := kind.state reactor index }
  | reactor, index, leg :: legs =>
      let response := reactor.serve (kind.request index leg)
      let index := kind.next reactor index leg
      let rest := kind.journey response.reactor index legs
      match leg with
      | .use _ => rest.after (response.reply, kind.state response.reactor index)
      | _ => rest

/-- The buffers of a reactor.  A command depends on nothing besides the buffer. -/
def buffers : Kind ν ε Buffer.Command Buffer where
  request index
    | .use command => .buffer index command
    | .move => .moveBuffer index
    | .assign target => .assignBuffer index target
  count reactor := reactor.buffers.length
  state reactor index := reactor.buffers.getD index .unlimited

/-- The sessions of a reactor.  A command depends on the seat, and on the listed sources as one of them
may be what the seat reads from. -/
def sessions : Kind ν ε (Session.Command ν ε) (Seat × List Source) where
  request index
    | .use command => .session index command
    | .move => .moveSeat index
    | .assign target => .assignSeat index target
  count reactor := reactor.seats.length
  state reactor index := (reactor.seatAt index, reactor.sources)

/-- The objects of a kind do not depend on their indices: a use has the effect that it has on the
object wherever it is, and a move takes the whole object along. -/
structure Portable (kind : Kind ν ε κ σ) (effect : σ → κ → Reply ν ε × σ) : Prop where
  use : ∀ {reactor : Reactor ν ε} {index : Nat}, index < kind.count reactor → ∀ command,
    ((reactor.serve (kind.request index (.use command))).reply,
        kind.state (reactor.serve (kind.request index (.use command))).reactor index) =
      effect (kind.state reactor index) command ∧
    index < kind.count (reactor.serve (kind.request index (.use command))).reactor
  move : ∀ {reactor : Reactor ν ε} {index : Nat}, index < kind.count reactor →
    kind.state (reactor.serve (kind.request index .move)).reactor (kind.count reactor) =
      kind.state reactor index ∧
    kind.count reactor < kind.count (reactor.serve (kind.request index .move)).reactor
  assign : ∀ {reactor : Reactor ν ε} {index target : Nat}, index < kind.count reactor →
    target < kind.count reactor →
    kind.state (reactor.serve (kind.request index (.assign target))).reactor target =
      kind.state reactor index ∧
    target < kind.count (reactor.serve (kind.request index (.assign target))).reactor
  beyond : ∀ {reactor : Reactor ν ε} {index target : Nat}, kind.count reactor ≤ target →
    (reactor.serve (kind.request index (.assign target))).reactor = reactor

namespace Portable

variable {kind : Kind ν ε κ σ} {effect : σ → κ → Reply ν ε × σ}

/-- A leg that is not a use leaves the object as it is, at its next index. -/
theorem shift (portable : kind.Portable effect) {reactor : Reactor ν ε} {index : Nat} {leg : Leg κ}
    (hindex : index < kind.count reactor) (hleg : leg.command? = none) :
    kind.state (reactor.serve (kind.request index leg)).reactor (kind.next reactor index leg) =
      kind.state reactor index ∧
    kind.next reactor index leg < kind.count (reactor.serve (kind.request index leg)).reactor := by
  cases leg with
  | use command => cases hleg
  | move => exact portable.move hindex
  | assign target =>
      rw [next]
      split
      · next htarget => exact portable.assign hindex htarget
      · next htarget =>
        rw [portable.beyond (Nat.le_of_not_lt htarget)]
        exact ⟨rfl, hindex⟩

/-- The journey of an object is the one that it has at rest. -/
theorem journey_eq_atRest (portable : kind.Portable effect) {reactor : Reactor ν ε} {index : Nat}
    (hindex : index < kind.count reactor) (legs : List (Leg κ)) :
    kind.journey reactor index legs =
      Journey.atRest effect (kind.state reactor index) (legs.filterMap Leg.command?) := by
  induction legs generalizing reactor index with
  | nil => rfl
  | cons leg legs ih =>
      have moved : ∀ {leg : Leg κ}, leg.command? = none →
          kind.journey (reactor.serve (kind.request index leg)).reactor
            (kind.next reactor index leg) legs =
          Journey.atRest effect (kind.state reactor index)
            ((leg :: legs).filterMap Leg.command?) := by
        intro leg hleg
        obtain ⟨hstate, hnext⟩ := portable.shift hindex hleg
        rw [ih hnext, hstate, List.filterMap_cons_none hleg]
      cases leg with
      | use command =>
          obtain ⟨heffect, hnext⟩ := portable.use hindex command
          change _ = Journey.atRest effect (kind.state reactor index)
            (command :: legs.filterMap Leg.command?)
          rw [Journey.atRest, ← heffect, ← ih hnext]
          rfl
      | move => exact moved rfl
      | assign target => exact moved rfl

/-- Two objects that are the same have the same journeys. -/
theorem journey_congr (portable : kind.Portable effect) {first second : Reactor ν ε}
    {index other : Nat} (hindex : index < kind.count first) (hother : other < kind.count second)
    (hsame : kind.state first index = kind.state second other) (legs : List (Leg κ)) :
    kind.journey first index legs = kind.journey second other legs := by
  rw [portable.journey_eq_atRest hindex, portable.journey_eq_atRest hother, hsame]

/-- Without its moves an object has the same journey. -/
theorem journey_filter (portable : kind.Portable effect) {reactor : Reactor ν ε} {index : Nat}
    (hindex : index < kind.count reactor) (legs : List (Leg κ)) :
    kind.journey reactor index (legs.filter Leg.isUse) = kind.journey reactor index legs := by
  have huses : (legs.filter Leg.isUse).filterMap Leg.command? = legs.filterMap Leg.command? := by
    have hsame : (fun leg : Leg κ => if leg.isUse then leg.command? else none) = Leg.command? := by
      funext leg
      cases leg <;> rfl
    rw [List.filterMap_filter, hsame]
  rw [portable.journey_eq_atRest hindex, portable.journey_eq_atRest hindex, huses]

end Portable

end Kind

/-! ## Buffers -/

/-- What a command makes of a buffer, with the reply to it. -/
def Buffer.effect [Allocator] (b : Buffer) (command : Buffer.Command) : Reply ν ε × Buffer :=
  (.ofAnswer .ofSize (b.step command).1, (b.step command).2)

namespace Reactor

variable {reactor : Reactor ν ε} {index target : Nat} {b : Buffer}

theorem length_assignBuffer :
    (reactor.assignBuffer index b target).buffers.length = reactor.buffers.length := by
  rw [assignBuffer]
  split
  · rfl
  · simp [setBuffer]

/-- A buffer that moves behind the others leaves an empty one with its limit. -/
theorem getD_moveBuffer_self (hindex : index < reactor.buffers.length) :
    (reactor.moveBuffer index b).buffers.getD index .unlimited = .ofLimit b.limit := by
  have hlength : index < (reactor.buffers.set index b.emptied).length :=
    Nat.lt_of_lt_of_eq hindex List.length_set.symm
  rw [moveBuffer, List.getD_eq_getElem?_getD, List.getElem?_append_left hlength,
    List.getElem?_set_self hindex, Option.getD_some, Buffer.emptied_eq]

/-- So does one that moves over another. -/
theorem getD_assignBuffer_self (hindex : index < reactor.buffers.length) (hother : target ≠ index) :
    (reactor.assignBuffer index b target).buffers.getD index .unlimited = .ofLimit b.limit := by
  have hlength : index < (reactor.buffers.set target b).length :=
    Nat.lt_of_lt_of_eq hindex List.length_set.symm
  rw [assignBuffer, if_neg hother.symm]
  exact getD_set_self _ _ hlength

theorem getD_assignBuffer_target (htarget : target < reactor.buffers.length)
    (hother : target ≠ index) :
    (reactor.assignBuffer index b target).buffers.getD target .unlimited = b := by
  rw [assignBuffer, if_neg hother.symm]
  exact getD_set_set htarget hother _ _ _

variable [Allocator]

theorem reply_serve_buffer (hfound : reactor.buffers[index]? = some b)
    (command : Buffer.Command) :
    (reactor.serve (.buffer index command)).reply = .ofAnswer .ofSize (b.step command).1 := by
  rw [serve, respond, respondInPlace, hfound]
  rfl

theorem serve_moveBuffer (hfound : reactor.buffers[index]? = some b) :
    (reactor.serve (.moveBuffer index)).reactor = reactor.moveBuffer index b := by
  rw [serve, respond, hfound]
  rfl

theorem serve_assignBuffer (hfound : reactor.buffers[index]? = some b)
    (htarget : target < reactor.buffers.length) :
    (reactor.serve (.assignBuffer index target)).reactor =
      reactor.assignBuffer index b target := by
  rw [serve, respond, hfound, List.getElem?_eq_getElem htarget]
  rfl

/-- Over an index that stands for nothing no buffer is moved. -/
theorem serve_assignBuffer_of_le (htarget : reactor.buffers.length ≤ target) :
    (reactor.serve (.assignBuffer index target)).reactor = reactor := by
  rw [serve, respond, List.getElem?_eq_none htarget]
  cases reactor.buffers[index]? <;> rfl

/-- To its own place a buffer is moved by staying as it is. -/
theorem serve_assignBuffer_self (reactor : Reactor ν ε) (index : Nat) :
    (reactor.serve (.assignBuffer index index)).reactor = reactor := by
  cases hfound : reactor.buffers[index]? with
  | none => exact serve_assignBuffer_of_le (List.getElem?_eq_none_iff.mp hfound)
  | some b =>
      obtain ⟨hindex, _⟩ := List.getElem?_eq_some_iff.mp hfound
      rw [serve_assignBuffer hfound hindex, assignBuffer, if_pos rfl]

end Reactor

namespace Kind

variable [Allocator]

/-- A buffer moves as a whole, and its commands do not ask where it is. -/
theorem portable_buffers :
    (buffers : Kind ν ε Buffer.Command Buffer).Portable Buffer.effect where
  use := by
    intro reactor index hindex command
    have hfound := getElem?_eq_some_getD Buffer.unlimited hindex
    change ((reactor.serve (.buffer index command)).reply,
          (reactor.serve (.buffer index command)).reactor.buffers.getD index .unlimited) =
        Buffer.effect (reactor.buffers.getD index .unlimited) command ∧
      index < (reactor.serve (.buffer index command)).reactor.buffers.length
    rw [Reactor.serve_buffer hfound, Reactor.setBuffer, getD_set_self _ _ hindex]
    refine ⟨?_, Nat.lt_of_lt_of_eq hindex List.length_set.symm⟩
    exact congrArg (·, _) (Reactor.reply_serve_buffer hfound command)
  move := by
    intro reactor index hindex
    have hfound := getElem?_eq_some_getD Buffer.unlimited hindex
    change (reactor.serve (.moveBuffer index)).reactor.buffers.getD reactor.buffers.length
        .unlimited = reactor.buffers.getD index .unlimited ∧
      reactor.buffers.length < (reactor.serve (.moveBuffer index)).reactor.buffers.length
    rw [Reactor.serve_moveBuffer hfound]
    simp [Reactor.moveBuffer]
  assign := by
    intro reactor index target hindex htarget
    have hfound := getElem?_eq_some_getD Buffer.unlimited hindex
    change (reactor.serve (.assignBuffer index target)).reactor.buffers.getD target .unlimited =
        reactor.buffers.getD index .unlimited ∧
      target < (reactor.serve (.assignBuffer index target)).reactor.buffers.length
    by_cases hself : target = index
    · subst hself
      rw [Reactor.serve_assignBuffer_self]
      exact ⟨rfl, htarget⟩
    · rw [Reactor.serve_assignBuffer hfound htarget]
      exact ⟨Reactor.getD_assignBuffer_target htarget hself,
        Nat.lt_of_lt_of_eq htarget Reactor.length_assignBuffer.symm⟩
  beyond htarget := Reactor.serve_assignBuffer_of_le htarget

end Kind

/-! ## Sessions -/

/-- The listed sources when the source of a layer, if it is one of them, is in this state. -/
def Layer.putBack (sources : List Source) (source : Source) : Layer → List Source
  | .borrowed index => sources.set index source
  | _ => sources

namespace Seat

/-- The session that a seat is in a reactor that lists these sources. -/
def session (seat : Seat) (sources : List Source) : Session :=
  { feed := { source := seat.layer.source sources, buffer := seat.buffer }
    readSize := seat.readSize }

/-- The seat after its session has become another. -/
def withSession (seat : Seat) (session : Session) : Seat :=
  { seat.withFeed session.feed with readSize := session.readSize }

/-- What a command makes of a seat and of the listed sources, with the reply to it. -/
def effect [Allocator] (state : Seat × List Source) (command : Session.Command ν ε) :
    Reply ν ε × Seat × List Source :=
  let (reply, session) := (state.1.session state.2).perform command
  (.session reply, state.1.withSession session, state.1.layer.putBack state.2 session.feed.source)

end Seat

namespace Reactor

variable {reactor : Reactor ν ε} {index target : Nat}

theorem length_seats_putSession (session : Session) :
    (reactor.putSession index session).seats.length = reactor.seats.length := by
  simp [putSession, putFeed_seat, setSeat]

theorem seatAt_putSession_self (hindex : index < reactor.seats.length) (session : Session) :
    (reactor.putSession index session).seatAt index =
      (reactor.seatAt index).withSession session := by
  have hstill : index < (reactor.putFeed (.seat index) session.feed).seats.length := by
    simpa [putFeed_seat, setSeat] using hindex
  rw [putSession, seatAt_putFeed_self session.feed hindex, setSeat, seatAt,
    getD_set_self _ _ hstill]
  rfl

theorem sources_putSession (session : Session) :
    (reactor.putSession index session).sources =
      (reactor.seatAt index).layer.putBack reactor.sources session.feed.source := by
  rw [putSession, putFeed_seat]
  cases (reactor.seatAt index).layer <;> rfl

theorem seatAt_assignSeat_target (htarget : target < reactor.seats.length)
    (hother : target ≠ index) :
    (reactor.assignSeat index target).seatAt target = reactor.seatAt index := by
  rw [assignSeat, if_neg hother.symm]
  exact getD_set_set htarget hother _ _ _

theorem length_seats_assignSeat :
    (reactor.assignSeat index target).seats.length = reactor.seats.length := by
  rw [assignSeat]
  split
  · rfl
  · simp [setSeat, rehold]

theorem sources_assignSeat : (reactor.assignSeat index target).sources = reactor.sources := by
  rw [assignSeat]
  split <;> rfl

variable [Allocator]

theorem serve_moveSeat (hindex : index < reactor.seats.length) :
    (reactor.serve (.moveSeat index)).reactor = reactor.moveSeat index := by
  rw [serve, respond, List.getElem?_eq_getElem hindex]
  rfl

theorem serve_assignSeat (hindex : index < reactor.seats.length)
    (htarget : target < reactor.seats.length) :
    (reactor.serve (.assignSeat index target)).reactor = reactor.assignSeat index target := by
  rw [serve, respond, List.getElem?_eq_getElem hindex, List.getElem?_eq_getElem htarget]
  rfl

theorem serve_assignSeat_of_le (htarget : reactor.seats.length ≤ target) :
    (reactor.serve (.assignSeat index target)).reactor = reactor := by
  rw [serve, respond, List.getElem?_eq_none htarget]
  cases reactor.seats[index]? <;> rfl

end Reactor

namespace Kind

variable [Allocator]

/-- A session moves with its buffer, its settings and the source that it owns. -/
theorem portable_sessions :
    (sessions : Kind ν ε (Session.Command ν ε) (Seat × List Source)).Portable Seat.effect where
  use := by
    intro reactor index hindex command
    change ((reactor.serve (.session index command)).reply,
          (reactor.serve (.session index command)).reactor.seatAt index,
          (reactor.serve (.session index command)).reactor.sources) =
        Seat.effect (reactor.seatAt index, reactor.sources) command ∧
      index < (reactor.serve (.session index command)).reactor.seats.length
    rw [Reactor.serve_session hindex, Reactor.seatAt_putSession_self hindex,
      Reactor.sources_putSession, Reactor.length_seats_putSession]
    exact ⟨rfl, hindex⟩
  move := by
    intro reactor index hindex
    change ((reactor.serve (.moveSeat index)).reactor.seatAt reactor.seats.length,
          (reactor.serve (.moveSeat index)).reactor.sources) =
        (reactor.seatAt index, reactor.sources) ∧
      reactor.seats.length < (reactor.serve (.moveSeat index)).reactor.seats.length
    rw [Reactor.serve_moveSeat hindex]
    simp [Reactor.moveSeat, Reactor.rehold, Reactor.seatAt]
  assign := by
    intro reactor index target hindex htarget
    change ((reactor.serve (.assignSeat index target)).reactor.seatAt target,
          (reactor.serve (.assignSeat index target)).reactor.sources) =
        (reactor.seatAt index, reactor.sources) ∧
      target < (reactor.serve (.assignSeat index target)).reactor.seats.length
    rw [Reactor.serve_assignSeat hindex htarget, Reactor.sources_assignSeat,
      Reactor.length_seats_assignSeat]
    refine ⟨congrArg (·, reactor.sources) ?_, htarget⟩
    by_cases hself : target = index
    · rw [hself, Reactor.assignSeat, if_pos rfl]
    · exact Reactor.seatAt_assignSeat_target htarget hself
  beyond htarget := Reactor.serve_assignSeat_of_le htarget

end Kind

/-! ## Moves leave no trace -/

/-- What a buffer has left behind, by either sort of move, has every journey of a new buffer with the
same limit. -/
theorem journey_of_emptied [Allocator] {reactor : Reactor ν ε} {index : Nat} {b : Buffer}
    (hfound : reactor.buffers[index]? = some b) (legs : List (Leg Buffer.Command)) :
    Kind.buffers.journey (reactor.serve (.moveBuffer index)).reactor index legs =
      Kind.buffers.journey (reactor.serve (.addBuffer (some b.limit))).reactor
        reactor.buffers.length legs ∧
    ∀ target < reactor.buffers.length, target ≠ index →
      Kind.buffers.journey (reactor.serve (.assignBuffer index target)).reactor index legs =
        Kind.buffers.journey (reactor.serve (.addBuffer (some b.limit))).reactor
          reactor.buffers.length legs := by
  obtain ⟨hindex, _⟩ := List.getElem?_eq_some_iff.mp hfound
  have hnew : (reactor.serve (.addBuffer (some b.limit))).reactor.buffers =
      reactor.buffers ++ [.ofLimit b.limit] := rfl
  have hfresh : (reactor.serve (.addBuffer (some b.limit))).reactor.buffers.getD
      reactor.buffers.length .unlimited = .ofLimit b.limit := by
    simp [hnew]
  have hlength : reactor.buffers.length <
      (reactor.serve (.addBuffer (some b.limit))).reactor.buffers.length := by
    simp [hnew]
  -- Both sorts of move leave the same buffer, at an index that still stands for one.
  have left : ∀ moved : Reactor ν ε, moved.buffers.getD index .unlimited = .ofLimit b.limit →
      index < moved.buffers.length →
      Kind.buffers.journey moved index legs =
        Kind.buffers.journey (reactor.serve (.addBuffer (some b.limit))).reactor
          reactor.buffers.length legs :=
    fun moved hempty hstill =>
      Kind.portable_buffers.journey_congr hstill hlength (hempty.trans hfresh.symm) legs
  refine ⟨?_, fun target htarget hother => ?_⟩
  · rw [Reactor.serve_moveBuffer hfound]
    refine left _ (Reactor.getD_moveBuffer_self hindex) ?_
    simpa [Reactor.moveBuffer] using Nat.lt_succ_of_lt hindex
  · rw [Reactor.serve_assignBuffer hfound htarget]
    exact left _ (Reactor.getD_assignBuffer_self hindex hother)
      (Nat.lt_of_lt_of_eq hindex Reactor.length_assignBuffer.symm)

/-- Moves are transparent.  A buffer, and a session with the source that it reads from, goes through a
list of commands with the same replies and in the same states, whether and wherever it is moved in
between.  A buffer that was moved goes through every later list as a new one with its limit does, and
no buffer is changed by a move to its own place. -/
theorem moves_leave_no_trace [Allocator] (reactor : Reactor ν ε) (index : Nat) :
    (index < reactor.buffers.length → ∀ legs : List (Leg Buffer.Command),
      Kind.buffers.journey reactor index legs =
        Kind.buffers.journey reactor index (legs.filter Leg.isUse)) ∧
    (index < reactor.seats.length → ∀ legs : List (Leg (Session.Command ν ε)),
      Kind.sessions.journey reactor index legs =
        Kind.sessions.journey reactor index (legs.filter Leg.isUse)) ∧
    (∀ b, reactor.buffers[index]? = some b → ∀ later : List (Leg Buffer.Command),
      Kind.buffers.journey (reactor.serve (.moveBuffer index)).reactor index later =
        Kind.buffers.journey (reactor.serve (.addBuffer (some b.limit))).reactor
          reactor.buffers.length later ∧
      ∀ target < reactor.buffers.length, target ≠ index →
        Kind.buffers.journey (reactor.serve (.assignBuffer index target)).reactor index later =
          Kind.buffers.journey (reactor.serve (.addBuffer (some b.limit))).reactor
            reactor.buffers.length later) ∧
    (reactor.serve (.assignBuffer index index)).reactor = reactor := by
  refine ⟨fun hindex legs => ?_, fun hindex legs => ?_, fun b hfound later => ?_, ?_⟩
  · exact (Kind.portable_buffers.journey_filter hindex legs).symm
  · exact (Kind.portable_sessions.journey_filter hindex legs).symm
  · exact journey_of_emptied hfound later
  · exact reactor.serve_assignBuffer_self index

/-- Two buffers and two seats, of which the second has lost its source. -/
def twoOfEach : Reactor (List UInt8) BadByte where
  buffers := [.ofLimit 16, .ofLimit 4]
  seats := [{ layer := .owned { chunks := [[0x41, 0x41, 0x42, 0x42]] } },
    { layer := .released, readSize := 7 }]

/-- A buffer that moves behind the others, over another one, and to its own place. -/
def bufferLegs : List (Leg Buffer.Command) :=
  [.use (.write [1, 2, 3]), .move, .use (.consume 1), .assign 1, .assign 1, .use (.write [4, 5])]

/-- A session that goes the same way. -/
def sessionLegs : List (Leg (Session.Command (List UInt8) BadByte)) :=
  [.use (.setReadSize 64), .use (.parse .result (Parser.fixed 2)), .move, .use (.setLimit 16),
    .assign 1, .assign 1, .use (.parse .result (Parser.fixed 2))]

theorem moved_objects_used_as_unmoved :
    (Kind.buffers.journey twoOfEach 0 (bufferLegs.filter Leg.isUse)).uses.map
        (fun use => (use.2.window, use.2.capacity, use.2.limit)) =
      [([1, 2, 3], 3, 16), ([2, 3], 3, 16), ([2, 3, 4, 5], 6, 16)] ∧
    Kind.buffers.journey twoOfEach 0 bufferLegs =
      Kind.buffers.journey twoOfEach 0 (bufferLegs.filter Leg.isUse) ∧
    (Kind.sessions.journey twoOfEach 0 (sessionLegs.filter Leg.isUse)).uses.map
        (fun use => (use.2.1.buffer.window, use.2.1.readSize, use.2.1.buffer.limit)) =
      [([], 64, 0xffffffffffffffff), ([0x42, 0x42], 64, 0xffffffffffffffff),
        ([0x42, 0x42], 64, 16), ([], 64, 16)] ∧
    Kind.sessions.journey twoOfEach 0 sessionLegs =
      Kind.sessions.journey twoOfEach 0 (sessionLegs.filter Leg.isUse) ∧
    Kind.buffers.journey (twoOfEach.serve (.assignBuffer 0 1)).reactor 0 bufferLegs =
      Kind.buffers.journey (twoOfEach.serve (.addBuffer (some 16))).reactor 2 bufferLegs ∧
    (twoOfEach.serve (.assignBuffer 0 0)).reactor = twoOfEach := by
  obtain ⟨hbuffer, hsession, hleft, hself⟩ := moves_leave_no_trace twoOfEach 0
  refine ⟨by decide +kernel, hbuffer (by decide) bufferLegs, by decide +kernel,
    hsession (by decide) sessionLegs, ?_, hself⟩
  exact (hleft (.ofLimit 16) rfl bufferLegs).2 1 (by decide) (by decide)

end StreamParse
