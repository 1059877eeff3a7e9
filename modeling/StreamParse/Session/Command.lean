import StreamParse.Session.Basic

/-!
# Commands to a session

What a caller can ask of a session and wait for, as data.  A history of a session is a list of
commands; what it retires, command by command, are the bytes that the session will not show again.
-/

namespace StreamParse

namespace Session

inductive Command (ν ε : Type) where
  | parse (mode : AnswerMode ε) (parser : Parser ν ε)
  /-- Read into areas of these sizes, one after another. -/
  | read (sizes : List Nat)
  /-- As `read`, but bytes are given only where the read has not failed. -/
  | readBytes (sizes : List Nat)
  | setReadSize (readSize : UInt64)
  | setLimit (limit : UInt64)
  | settings

/-- Where a parser was asked, a reply holds what happened. -/
inductive Reply (ν ε : Type) where
  | silent
  /-- A parse without an answer has no end. -/
  | parsed (answer : Option (Answer ν ε)) (transcript : List (Event ν ε))
  | read (delivery : Delivery)
  | bytes (bytes : List UInt8)
  | readFailed (code : Code)
  | settings (readSize limit : UInt64)
  | refused (fault : Fault)

variable {ν ε : Type}

/-- Changes a setting in place. -/
def configure (session : Session) (setting : Mutation Session Unit) : Reply ν ε × Session :=
  match setting.on session with
  | (.ok (), session) => (.silent, session)
  | (.error fault, session) => (.refused fault, session)

/-- Carries out one command. -/
def perform [Allocator] (session : Session) : Command ν ε → Reply ν ε × Session
  | .parse mode parser =>
      let run := session.parseAs mode parser
      (.parsed run.answer run.transcript, session.resume run)
  | .read sizes =>
      let (delivery, session) := session.read (sizes.foldr (· + ·) 0)
      (.read delivery, session)
  | .readBytes sizes =>
      let (delivery, session) := session.read (sizes.foldr (· + ·) 0)
      (if delivery.code.failed then .readFailed delivery.code else .bytes delivery.bytes, session)
  | .setReadSize readSize => session.configure (InPlace.setReadSize readSize)
  | .setLimit limit => session.configure (InPlace.setLimit limit)
  | .settings => (.settings session.readSize session.feed.buffer.limit, session)

/-- The session after a history of commands. -/
def run [Allocator] (session : Session) (commands : List (Command ν ε)) : Session :=
  commands.foldl (fun session command => (session.perform command).2) session

/-- The replies to a history of commands. -/
def replies [Allocator] (session : Session) : List (Command ν ε) → List (Reply ν ε)
  | [] => []
  | command :: commands =>
      (session.perform command).1 :: (session.perform command).2.replies commands

/-- A setting that is refused stays as it was. -/
theorem configure_eq {setting : Mutation Session Unit} {attempt : Session → Except Fault Session}
    (attempts : setting.Attempts fun session =>
      (attempt session).map fun session => ((), session)) (session : Session) :
    (session.configure setting : Reply ν ε × Session) =
      match attempt session with
      | .ok session => (.silent, session)
      | .error fault => (.refused fault, session) := by
  rw [configure]
  cases h : attempt session with
  | ok next => rw [attempts.on_of_ok (by rw [h]; rfl)]
  | error fault => rw [attempts.on_of_error (by rw [h]; rfl)]

theorem snd_configure (session : Session) (setting : Mutation Session Unit) :
    (session.configure setting : Reply ν ε × Session).2 = (setting.on session).2 := by
  rw [configure]
  rcases setting.on session with ⟨_ | _, _⟩ <;> rfl

section Histories

variable [Allocator]

@[simp]
theorem run_nil (session : Session) : session.run ([] : List (Command ν ε)) = session := rfl

@[simp]
theorem run_cons (session : Session) (command : Command ν ε) (commands : List (Command ν ε)) :
    session.run (command :: commands) = (session.perform command).2.run commands := rfl

theorem run_append (session : Session) (before after : List (Command ν ε)) :
    session.run (before ++ after) = (session.run before).run after := by
  simp [run]

end Histories

end Session

end StreamParse
