import StreamParse.Answer

/-!
# Sessions

A session parses one value after another from its feed.  It can also hand out raw bytes: those that
were read ahead come first, and the source is read only when there are none, so that nothing is lost
when a caller changes from parsing to reading.
-/

namespace StreamParse

structure Session where
  feed : Feed
  /-- What a read asks for when the parser has no wish of its own. -/
  readSize : UInt64 := defaultReadSize
  deriving DecidableEq, Repr

namespace Session

variable {ν ε : Type}

def ofSource (source : Source) : Session := { feed := { source } }

/-- All bytes that the session has not handed out. -/
def pending (session : Session) : List UInt8 := session.feed.pending

/-- The session after a run on its feed. -/
def resume {α : Type} (session : Session) (run : Run ν ε α) : Session :=
  { session with feed := run.feed }

def parse [Allocator] (session : Session) (parser : Parser ν ε) :
    Run ν ε (Except Fault (Result ν ε)) :=
  session.feed.parse parser session.readSize

def parseReporting [Allocator] (session : Session) (earlier : Failure ε) (parser : Parser ν ε) :
    Run ν ε (Except Fault (Option ν)) × Failure ε :=
  session.feed.parseReporting earlier parser session.readSize

def parseValue [Allocator] (session : Session) (parser : Parser ν ε) :
    Run ν ε (Except (Obstacle ε) ν) :=
  session.feed.parseValue parser session.readSize

def parseAs [Allocator] (session : Session) (mode : AnswerMode ε) (parser : Parser ν ε) :
    Run ν ε (Answer ν ε) :=
  session.feed.parseAs mode parser session.readSize

/-- Takes bytes from the front of a buffer, as many as there are and at most `room`. -/
def takeBuffered (buffer : Buffer) (room : Nat) : Delivery × Buffer :=
  let bytes := buffer.window.take room
  ({ bytes }, buffer.discard bytes.length.toUInt64)

/-- Reads at most `room` bytes. -/
def read (session : Session) (room : Nat) : Delivery × Session :=
  if session.feed.buffer.size = 0 then
    let (delivery, source) := session.feed.source.read room
    (delivery, { session with feed := { session.feed with source } })
  else
    let (delivery, buffer) := takeBuffered session.feed.buffer room
    (delivery, { session with feed := { session.feed with buffer } })

def setReadSize (session : Session) (readSize : UInt64) : Except Fault Session :=
  if readSize = 0 then .error .zeroReadSize else .ok { session with readSize }

def setLimit (session : Session) (limit : UInt64) : Except Fault Session :=
  (session.feed.buffer.setLimit limit).map fun buffer =>
    { session with feed := { session.feed with buffer } }

namespace InPlace

def setReadSize (readSize : UInt64) : Mutation Session Unit :=
  if readSize = 0 then throw .zeroReadSize
  else modify fun session => { session with readSize }

def setLimit (limit : UInt64) : Mutation Session Unit :=
  (Buffer.InPlace.setLimit limit).within (fun session => session.feed.buffer)
    fun session buffer => { session with feed := { session.feed with buffer } }

theorem attempts_setReadSize (readSize : UInt64) :
    (setReadSize readSize).Attempts fun session =>
      (session.setReadSize readSize).map fun session => ((), session) := by
  intro session
  simp only [setReadSize, Session.setReadSize]
  by_cases hzero : readSize = 0
  · rw [if_pos hzero, if_pos hzero]
    rfl
  · rw [if_neg hzero, if_neg hzero]
    rfl

theorem attempts_setLimit (limit : UInt64) :
    (setLimit limit).Attempts fun session =>
      (session.setLimit limit).map fun session => ((), session) := by
  intro session
  have sets := (Buffer.InPlace.attempts_setLimit limit).within
    (fun session : Session => session.feed.buffer)
    (fun session buffer => { session with feed := { session.feed with buffer } })
    (fun _ => rfl) session
  rw [setLimit, sets]
  simp only [Session.setLimit]
  cases session.feed.buffer.setLimit limit <;> rfl

end InPlace

end Session

end StreamParse
