import StreamParse.Proofs.EntryPoints
import StreamParse.Proofs.Reactor.Agreement

/-!
# How the answer is wanted

A reactor gives the answer to a parse that waits in the way in which it is wanted, and does nothing
else about that way: the run is the one of the feed at the place, and the feed that is left is put
back there.  So no later request can tell how the answers before it were given.
-/

namespace StreamParse

variable {ν ε : Type}

/-- The same request, with another way to answer if it is for a parse that waits. -/
def Request.answering (mode : AnswerMode ε) : Request ν ε → Request ν ε
  | .parse source index _ parser readSize => .parse source index mode parser readSize
  | .session seat (.parse _ parser) => .session seat (.parse mode parser)
  | request => request

namespace Reactor

variable [Allocator]

/-- What comes of a parse at a place: its one run, presented as the answer is wanted, or the reply
that nothing is there. -/
inductive Presented (reactor : Reactor ν ε) (place : Place) (parser : Parser ν ε)
    (readSize : UInt64) (mode : AnswerMode ε) : Response ν ε → Prop
  | parsed (stands : reactor.Stands place) :
      Presented reactor place parser readSize mode
        { reply := .session (.parsed
            (((reactor.feedAt place).parse parser readSize).answer.map mode.present)
            ((reactor.feedAt place).parse parser readSize).transcript)
          reactor := reactor.putFeed place ((reactor.feedAt place).parse parser readSize).feed }
  | unknown (absent : ¬ reactor.Stands place) :
      Presented reactor place parser readSize mode (reactor.reply .unknown)

variable {reactor : Reactor ν ε} {place : Place} {parser : Parser ν ε} {readSize : UInt64}

/-- Two callers who want their answers in different ways leave one reactor behind. -/
theorem Presented.reactor_eq {mode mode' : AnswerMode ε} {response response' : Response ν ε}
    (presented : reactor.Presented place parser readSize mode response)
    (presented' : reactor.Presented place parser readSize mode' response') :
    response.reactor = response'.reactor := by
  cases presented with
  | parsed stands =>
      cases presented' with
      | parsed => rfl
      | unknown absent => exact absurd stands absent
  | unknown absent =>
      cases presented' with
      | parsed stands => exact absurd stands absent
      | unknown => rfl

theorem presented_parse (reactor : Reactor ν ε) (source index : Nat) (mode : AnswerMode ε)
    (parser : Parser ν ε) (readSize : UInt64) :
    reactor.Presented (.listed source index) parser readSize mode
      (reactor.serve (.parse source index mode parser readSize)) := by
  by_cases stands : reactor.Stands (.listed source index)
  · rw [serve_parse stands]
    exact .parsed stands
  · rw [serve, respond, bind_of_not_stands stands]
    exact .unknown stands

/-- A session on a seat parses the feed of the seat with the read size of the seat. -/
theorem presented_session (reactor : Reactor ν ε) (seat : Nat) (mode : AnswerMode ε)
    (parser : Parser ν ε) :
    reactor.Presented (.seat seat) parser (reactor.readSizeAt (.seat seat)) mode
      (reactor.serve (.session seat (.parse mode parser))) := by
  by_cases stands : reactor.Stands (.seat seat)
  · rw [serve_session stands, Session.perform_parse, putSession_eq stands]
    · exact .parsed stands
    · rfl
  · rw [serve, respond, List.getElem?_eq_none_iff.mpr (Nat.not_lt.mp stands)]
    exact .unknown stands

/-- The way in which an answer is wanted leaves no trace in the reactor. -/
theorem serve_answering (reactor : Reactor ν ε) (request : Request ν ε) (mode : AnswerMode ε) :
    (reactor.serve (request.answering mode)).reactor = (reactor.serve request).reactor := by
  cases request with
  | parse source index mode' parser readSize =>
      exact (reactor.presented_parse source index mode parser readSize).reactor_eq
        (reactor.presented_parse source index mode' parser readSize)
  | session seat command =>
      cases command with
      | parse mode' parser =>
          exact (reactor.presented_session seat mode parser).reactor_eq
            (reactor.presented_session seat mode' parser)
      | _ => rfl
  | _ => rfl

/-- Nor do the ways in which all the answers of a history are wanted. -/
theorem after_answering (reactor : Reactor ν ε) (history : List (Request ν ε × AnswerMode ε)) :
    reactor.after (history.map fun asked => asked.1.answering asked.2) =
      reactor.after (history.map Prod.fst) := by
  induction history generalizing reactor with
  | nil => rfl
  | cons asked history ih =>
      calc reactor.after ((asked :: history).map fun asked => asked.1.answering asked.2)
        _ = (reactor.serve (asked.1.answering asked.2)).reactor.after (history.map Prod.fst) :=
            ih _
        _ = (reactor.serve asked.1).reactor.after (history.map Prod.fst) := by
            rw [serve_answering]

end Reactor

/-- The three callers of a parse agree.  Over every feed, or over the feed and with the read size of
a session, the looks, the reads and the feed that is left are the same; a value is given to all
three, with nothing left of an earlier failure; a failure, with its code and its detail, takes the
place of the earlier one or is all that there is to give; and a fault is told to each of them, and
leaves the earlier failure as it was.

So it is in a reactor, on listed sources and buffers and on its seats: only the reply depends on the
way in which the answer is wanted, and whatever is asked for afterwards cannot tell. -/
theorem entry_points_agree [Allocator] (parser : Parser ν ε) (earlier : Failure ε) :
    (∀ (feed : Feed) (readSize : UInt64),
      Feed.Agree earlier (feed.parse parser readSize)
        (feed.parseReporting earlier parser readSize) (feed.parseValue parser readSize)) ∧
    (∀ session : Session,
      Feed.Agree earlier (session.parse parser) (session.parseReporting earlier parser)
        (session.parseValue parser) ∧
      ∀ mode : AnswerMode ε, session.perform (.parse mode parser) =
        (.parsed ((session.parse parser).answer.map mode.present)
          (session.parse parser).transcript, session.resume (session.parse parser))) ∧
    ∀ reactor : Reactor ν ε,
      (∀ (source index : Nat) (mode : AnswerMode ε) (readSize : UInt64),
        reactor.Presented (.listed source index) parser readSize mode
          (reactor.serve (.parse source index mode parser readSize))) ∧
      (∀ (seat : Nat) (mode : AnswerMode ε),
        reactor.Presented (.seat seat) parser (reactor.readSizeAt (.seat seat)) mode
          (reactor.serve (.session seat (.parse mode parser)))) ∧
      ∀ history : List (Request ν ε × AnswerMode ε),
        reactor.after (history.map fun asked => asked.1.answering asked.2) =
          reactor.after (history.map Prod.fst) := by
  refine ⟨fun feed readSize => feed.agree_parse parser readSize earlier, fun session => ?_,
    fun reactor => ?_⟩
  · exact ⟨session.feed.agree_parse parser session.readSize earlier,
      fun mode => session.perform_parse mode parser⟩
  · exact ⟨fun source index mode readSize =>
        reactor.presented_parse source index mode parser readSize,
      fun seat mode => reactor.presented_session seat mode parser, reactor.after_answering⟩

end StreamParse
