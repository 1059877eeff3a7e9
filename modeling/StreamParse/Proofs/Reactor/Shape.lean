import StreamParse.Parser.Text
import StreamParse.Proofs.Reactor.Career
import StreamParse.Proofs.Shape

/-!
# The shape of every parse

A parse that waits for its reads and one that is carried out over many entries of the queue have the
same shape.  Of the latter three things can be told in the end: that it was refused in the call that
started it, that it has completed, or that it has met a fault when its turn came.
-/

namespace StreamParse

variable {ν ε : Type}

/-- News tell that a parse has ended: with what events, and with what answer. -/
inductive News.Tells (news : News ν ε) (id : Nat) :
    List (Event ν ε) → Except Fault (Result ν ε) → Prop
  | completed {transcript : List (Event ν ε)} {result : Result ν ε}
      (hmem : .parsed id transcript result ∈ news.completions) : Tells news id transcript (.ok result)
  | broken {breakdown : Breakdown ν ε} (hmem : breakdown ∈ news.breakdowns) :
      Tells news id breakdown.transcript (.error breakdown.fault)
  | refused {transcript : List (Event ν ε)} {fault : Fault}
      (hmem : .started (.error fault) transcript ∈ news.replies) :
      Tells news id transcript (.error fault)

namespace Operation

variable {operation : Operation ν ε} {first feed : Feed} {transcript : List (Event ν ε)}
variable {answer : Except Fault (Result ν ε)}

/-- Of a parse that goes on no end is told. -/
theorem not_tells_opened (operation : Operation ν ε) (first : Feed) :
    ¬ (operation.opened first).Tells operation.id transcript answer := by
  intro tells
  cases tells with
  | completed hmem => exact List.not_mem_nil hmem
  | broken hmem => exact List.not_mem_nil hmem
  | refused hmem => exact absurd (List.mem_singleton.mp hmem) nofun

/-- What is told is a passage of the parse. -/
theorem Stage.passage [Allocator] {remnant? : Option (Remnant ν ε)} {news : News ν ε}
    (stage : operation.Stage first feed remnant? news)
    (tells : news.Tells operation.id transcript answer) :
    Feed.Passage operation.parser operation.readSize first transcript answer feed := by
  cases stage with
  | settled | arriving | held | cancelled => exact absurd tells (operation.not_tells_opened first)
  | refused hturn =>
      cases tells with
      | completed hmem => exact absurd hmem List.not_mem_nil
      | broken hmem => exact absurd hmem List.not_mem_nil
      | refused hmem =>
          cases List.mem_singleton.mp hmem
          exact .intro .nothing (.look hturn)
  | completed hpassage =>
      cases tells with
      | completed hmem =>
          cases List.mem_singleton.mp hmem
          exact hpassage
      | broken hmem => exact absurd hmem List.not_mem_nil
      | refused hmem => exact absurd (List.mem_singleton.mp hmem) nofun
  | broken hpassage =>
      cases tells with
      | completed hmem => exact absurd hmem List.not_mem_nil
      | broken hmem =>
          cases List.mem_singleton.mp hmem
          exact hpassage
      | refused hmem => exact absurd (List.mem_singleton.mp hmem) nofun

end Operation

namespace Reactor

/-- What is told of a parse in a shared reactor is a passage from the feed that it was started on to the
feed that is at its place. -/
theorem passage_of_tells [Allocator] {reactor : Reactor ν ε} {operation : Operation ν ε}
    {start : Request ν ε} {during : List (Request ν ε)}
    (clear : reactor.Clear operation.id operation.place) (hosts : reactor.Hosts operation.place)
    (hparse : start.parse? (reactor.readSizeAt operation.place) = some operation)
    (hread : operation.readSize ≠ 0)
    (tended : ∀ request ∈ during, request.Tends reactor operation.id operation.place)
    {transcript : List (Event ν ε)} {answer : Except Fault (Result ν ε)}
    (tells : (reactor.news operation.id (start :: during)).Tells operation.id transcript answer) :
    Feed.Passage operation.parser operation.readSize (reactor.feedAt operation.place) transcript
      answer ((reactor.after (start :: during)).feedAt operation.place) := by
  obtain ⟨alone, shadow, career⟩ := stages_of_clear clear hosts hparse hread tended
  generalize reactor.news operation.id (start :: during) = news at career tells
  cases career with
  | intro hstage =>
      rw [shadow.feedAt_of_career ((hosts_abandon reactor _).mpr hosts) rfl]
      exact hstage.passage tells

/-- Every parse has its shape, with any parser and over any source, if the window that it begins with is
within the limit and memory lasts: one that waits for its reads and has an answer, and one that was
started and has been told how it ended, whatever others did meanwhile and whether or not its reads were
cancelled.  Where the first look decides, nothing is read. -/
theorem parses_have_shape [Allocator] :
    (∀ {feed : Feed} {parser : Parser ν ε} {readSize : UInt64} {answer : Except Fault (Result ν ε)},
      feed.buffer.Valid → feed.buffer.size.toNat ≤ feed.buffer.limit.toNat → readSize ≠ 0 →
      (feed.parse parser readSize).answer = some answer → answer ≠ .error .outOfMemory →
      Feed.Shape parser feed (feed.parse parser readSize).transcript answer
        (feed.parse parser readSize).feed) ∧
    ∀ {reactor : Reactor ν ε} {operation : Operation ν ε} {start : Request ν ε}
      {during : List (Request ν ε)},
      (reactor.feedAt operation.place).buffer.Valid →
      (reactor.feedAt operation.place).buffer.size.toNat ≤
        (reactor.feedAt operation.place).buffer.limit.toNat →
      operation.readSize ≠ 0 → reactor.Clear operation.id operation.place →
      reactor.Hosts operation.place →
      start.parse? (reactor.readSizeAt operation.place) = some operation →
      (∀ request ∈ during, request.Tends reactor operation.id operation.place) →
      ∀ {transcript : List (Event ν ε)} {answer : Except Fault (Result ν ε)},
        (reactor.news operation.id (start :: during)).Tells operation.id transcript answer →
        answer ≠ .error .outOfMemory →
        Feed.Shape operation.parser (reactor.feedAt operation.place) transcript answer
          ((reactor.after (start :: during)).feedAt operation.place) := by
  constructor
  · intro feed parser readSize answer valid hsize hread hanswer hmemory
    exact (Feed.course_of_parse hread hanswer).passage.shape hread valid hsize hmemory
  · intro reactor operation start during valid hsize hread clear hosts hparse tended transcript
      answer tells hmemory
    exact (passage_of_tells clear hosts hparse hread tended tells).shape hread valid hsize hmemory

/-- A word whose letters come in two reads. -/
def wordInTwoReads : Feed where
  source := { chunks := [[0x41, 0x42], [0x43, 0x20, 0x44]] }
  buffer := .ofLimit 16

def wordReactor : Reactor (List UInt8) BadByte where
  buffers := [wordInTwoReads.buffer]
  sources := [wordInTwoReads.source]

/-- A parse of a word that is started. -/
def wordParse : Operation (List UInt8) BadByte where
  id := 7
  place := .listed 0 0
  parser := Parser.token
  readSize := 8

/-- The windows and the result that a completion of a parse tells. -/
def account? : Completion ν ε → Option (Nat × List (List UInt8) × Result ν ε)
  | .parsed id transcript result => some (id, Event.windows transcript, result)
  | .read _ _ => none

/-- The one completion that is told, if it is known but for its events. -/
theorem exists_transcript_of_account? {completions : List (Completion ν ε)} {id : Nat}
    {windows : List (List UInt8)} {result : Result ν ε}
    (haccounts : completions.map account? = [some (id, windows, result)]) :
    ∃ transcript, completions = [.parsed id transcript result] ∧
      Event.windows transcript = windows := by
  obtain ⟨completion, rfl, haccount⟩ := List.map_eq_singleton_iff.mp haccounts
  cases completion with
  | parsed id transcript result =>
      simp only [account?, Option.some.injEq, Prod.mk.injEq] at haccount
      obtain ⟨rfl, hwindows, rfl⟩ := haccount
      exact ⟨transcript, rfl, hwindows⟩
  | read id delivery => cases haccount

theorem word_has_shape :
    let windows := [[], [0x41, 0x42], [0x41, 0x42, 0x43, 0x20, 0x44]]
    (∃ answer, (wordInTwoReads.parse Parser.token 8).answer = some answer ∧
      Event.windows (wordInTwoReads.parse Parser.token 8).transcript = windows ∧
      Feed.Shape Parser.token wordInTwoReads (wordInTwoReads.parse Parser.token 8).transcript answer
        (wordInTwoReads.parse Parser.token 8).feed) ∧
    ∃ transcript, .parsed 7 transcript (.value [0x41, 0x42, 0x43]) ∈
        (wordReactor.news 7 [.start 7 0 0 Parser.token 8, .run none]).completions ∧
      Event.windows transcript = windows ∧
      Feed.Shape Parser.token wordInTwoReads transcript (.ok (.value [0x41, 0x42, 0x43]))
        ((wordReactor.after [.start 7 0 0 Parser.token 8, .run none]).feedAt (.listed 0 0)) := by
  intro windows
  obtain ⟨hwaited, hstarted⟩ := @parses_have_shape (List UInt8) BadByte _
  have valid : wordInTwoReads.buffer.Valid := Buffer.valid_ofLimit 16
  have hsize : wordInTwoReads.buffer.size.toNat ≤ wordInTwoReads.buffer.limit.toNat := by decide
  constructor
  · have hanswer : (wordInTwoReads.parse Parser.token 8).answer =
        some (.ok (.value [0x41, 0x42, 0x43])) := by
      decide +kernel
    have hwindows : Event.windows (wordInTwoReads.parse Parser.token 8).transcript = windows := by
      decide +kernel
    exact ⟨_, hanswer, hwindows, hwaited valid hsize (by decide) hanswer nofun⟩
  · have haccounts : (wordReactor.news 7 [.start 7 0 0 Parser.token 8, .run none]).completions.map
        account? = [some (7, windows, .value [0x41, 0x42, 0x43])] := by
      decide +kernel
    obtain ⟨transcript, hcompletions, hwindows⟩ := exists_transcript_of_account? haccounts
    have hmem : .parsed 7 transcript (.value [0x41, 0x42, 0x43]) ∈
        (wordReactor.news 7 [.start 7 0 0 Parser.token 8, .run none]).completions := by
      rw [hcompletions]
      exact List.mem_cons_self
    have clear : wordReactor.Clear wordParse.id wordParse.place := clear_of_idle rfl
    have hosts : wordReactor.Hosts wordParse.place := ⟨Nat.one_pos, Nat.one_pos⟩
    have hparse : (Request.start 7 0 0 Parser.token 8).parse?
        (wordReactor.readSizeAt wordParse.place) = some wordParse := rfl
    have tended : ∀ request ∈ [Request.run none],
        request.Tends wordReactor wordParse.id wordParse.place := by
      intro request hmem
      rw [List.mem_singleton.mp hmem]
      exact .inl (by decide)
    refine ⟨transcript, hmem, hwindows, ?_⟩
    exact @hstarted wordReactor wordParse _ _ valid hsize (by decide) clear hosts hparse tended _ _
      (.completed hmem) nofun

end Reactor

end StreamParse
