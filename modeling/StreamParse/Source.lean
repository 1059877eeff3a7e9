import StreamParse.Code

/-!
# Sources

A source delivers its bytes in given chunks.  One read takes bytes from one chunk at most, so the
chunks and the room that each read offers decide how the bytes are cut up; an empty chunk is a read
without bytes and without a failure.  When all chunks are gone every read reports how the source
ended.  Injections replace the code of single reads, counted from one.

A read that is started but not waited for is the same read, done at once, with one exception: a
source that holds its end keeps such a read until it is cancelled.
-/

namespace StreamParse

/-- What one read brings. -/
structure Delivery where
  bytes : List UInt8 := []
  code : Code := .ok
  deriving DecidableEq, Repr

/-- A code for the read number `turn`.  The read brings its bytes as well when `keepsBytes` holds;
otherwise it touches no chunk. -/
structure Injection where
  turn : Nat
  code : Code
  keepsBytes : Bool := false
  deriving DecidableEq, Repr

/-- What a source does once its chunks are gone. -/
inductive AtEnd where
  /-- Every read reports this code. -/
  | report (code : Code)
  /-- A read that waits would have to wait for ever, and a started read stays open. -/
  | hold
  deriving DecidableEq, Repr

structure Source where
  chunks : List (List UInt8)
  atEnd : AtEnd := .report .endOfStream
  /-- The most bytes that one read brings. -/
  cap : Option Nat := none
  injections : List Injection := []
  /-- The reads so far. -/
  reads : Nat := 0
  deriving DecidableEq, Repr

namespace AtEnd

def code : AtEnd → Code
  | report code => code
  | hold => .wouldBlock

end AtEnd

namespace Source

/-- A source that was given away: it has no bytes, and every read finds it closed. -/
def closed : Source := { chunks := [], atEnd := .report .badDescriptor }

instance : Inhabited Source := ⟨closed⟩

/-- The bytes that no read has taken yet. -/
def unread (source : Source) : List UInt8 := source.chunks.flatten

/-- The injection for the read number `turn`; the first in the list counts. -/
def injection? (source : Source) (turn : Nat) : Option Injection :=
  source.injections.find? fun injection => injection.turn == turn

/-- The bytes that a read with this much room may take. -/
def allowance (source : Source) (room : Nat) : Nat :=
  match source.cap with
  | none => room
  | some most => min room most

/-- Takes bytes from the first chunk.  A chunk that is used up is gone. -/
def draw (source : Source) (room : Nat) : Delivery × Source :=
  match source.chunks with
  | [] => ({ code := source.atEnd.code }, source)
  | chunk :: chunks =>
      let bytes := chunk.take (source.allowance room)
      let left := chunk.drop (source.allowance room)
      ({ bytes := bytes },
        { source with chunks := if left.isEmpty then chunks else left :: chunks })

/-- One read into `room` bytes. -/
def read (source : Source) (room : Nat) : Delivery × Source :=
  let source := { source with reads := source.reads + 1 }
  match source.injection? source.reads with
  | none => source.draw room
  | some injection =>
      if injection.keepsBytes then
        let (delivery, source) := source.draw room
        ({ delivery with code := injection.code }, source)
      else ({ code := injection.code }, source)

/-- Whether a read that is started now stays open. -/
def holdsNext (source : Source) : Bool :=
  source.atEnd == .hold && source.chunks.isEmpty &&
    (source.injection? (source.reads + 1)).isNone

/-- Starts a read: what it will bring when its turn comes, or nothing when the source holds it. -/
def startRead (source : Source) (room : Nat) : Option Delivery × Source :=
  if source.holdsNext then (none, { source with reads := source.reads + 1 })
  else
    let (delivery, source) := source.read room
    (some delivery, source)

/-- No more reads than this succeed in a row, unless a read is allowed no bytes. -/
def patience (source : Source) : Nat :=
  source.unread.length + (source.chunks.filter List.isEmpty).length +
    source.injections.length + 1

/-- A chunk splits into what a read takes and what it leaves. -/
theorem draw_unread (source : Source) (room : Nat) :
    (source.draw room).1.bytes ++ (source.draw room).2.unread = source.unread := by
  rw [draw]
  cases hchunks : source.chunks with
  | nil => simp [unread, hchunks]
  | cons chunk chunks =>
      by_cases hleft : (chunk.drop (source.allowance room)).isEmpty
      · have hsplit := List.take_append_drop (source.allowance room) chunk
        rw [List.isEmpty_iff.mp hleft, List.append_nil] at hsplit
        simp only [unread, hleft, if_true, hchunks, List.flatten_cons, hsplit]
      · have hsplit := List.take_append_drop (source.allowance room) chunk
        simp only [unread, hleft, hchunks, List.flatten_cons, ← List.append_assoc, hsplit,
          Bool.false_eq_true, if_false]

/-- A read loses no byte and makes up none: what it brings is the front of what was unread. -/
theorem read_unread (source : Source) (room : Nat) :
    (source.read room).1.bytes ++ (source.read room).2.unread = source.unread := by
  have hdraw := draw_unread { source with reads := source.reads + 1 } room
  rw [read]
  cases hinjection : injection? { source with reads := source.reads + 1 } (source.reads + 1) with
  | none => simpa [hinjection, unread] using hdraw
  | some injection =>
      by_cases hkeeps : injection.keepsBytes
      · simpa [hinjection, hkeeps, unread] using hdraw
      · simp [hkeeps, unread]

theorem length_draw_le (source : Source) (room : Nat) :
    (source.draw room).1.bytes.length ≤ room := by
  have hallowance : source.allowance room ≤ room := by
    rw [allowance]
    split <;> omega
  rw [draw]
  cases source.chunks with
  | nil => simp
  | cons chunk chunks => simpa using Nat.le_trans (Nat.min_le_left _ _) hallowance

/-- A read brings no more bytes than there is room for. -/
theorem length_read_le (source : Source) (room : Nat) :
    (source.read room).1.bytes.length ≤ room := by
  have hdraw := length_draw_le { source with reads := source.reads + 1 } room
  rw [read]
  cases hinjection : injection? { source with reads := source.reads + 1 } (source.reads + 1) with
  | none => simpa [hinjection] using hdraw
  | some injection =>
      by_cases hkeeps : injection.keepsBytes
      · simpa [hinjection, hkeeps] using hdraw
      · simp [hkeeps]

/-- Every read is counted, a held one too. -/
@[simp]
theorem reads_read (source : Source) (room : Nat) :
    (source.read room).2.reads = source.reads + 1 := by
  have hdraw : ∀ s : Source, (s.draw room).2.reads = s.reads := by
    intro s
    rw [draw]
    split <;> rfl
  rw [read]
  cases hinjection : injection? { source with reads := source.reads + 1 } (source.reads + 1) with
  | none => simpa [hinjection] using hdraw { source with reads := source.reads + 1 }
  | some injection =>
      by_cases hkeeps : injection.keepsBytes
      · simpa [hinjection, hkeeps] using hdraw { source with reads := source.reads + 1 }
      · simp [hkeeps]

end Source

end StreamParse
