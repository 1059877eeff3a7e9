import StreamParse.Parser.Scripted
import StreamParse.Proofs.Course

/-!
# How long a parse takes

Nothing in a parse bounds the number of its reads.  It ends because no look leads to a read of zero
bytes: a window that may not grow ends the parse at once, so every read has room for a byte.  A live
source then answers each read by a byte, by an empty chunk, by an injection that is met, or by its
end, and only the last of these can be repeated.  It is a failure, and ends the parse.

The turns that a parse is given are more than it ever takes, so their number is not part of what a
parse does.
-/

namespace StreamParse

namespace Feed

variable {ν ε : Type} {parser : Parser ν ε} {readSize : UInt64}

/-! ## Reads and looks -/

section Parses

variable [Allocator]

/-- Each read but the last one wears the source down. -/
theorem Course.length_deliveries_le_endurance {feed last : Feed} {transcript : List (Event ν ε)}
    {answer : Except Fault (Result ν ε)} (hread : readSize ≠ 0) (live : feed.source.Live)
    (hcourse : Course parser readSize feed transcript answer last) :
    (Event.deliveries transcript).length ≤ feed.source.endurance + 1 := by
  induction hcourse with
  | ended _ => exact Nat.zero_le _
  | failed _ _ => exact Nat.le_add_left _ _
  | @received feed next last delivery events answer hreads hreceived _ ih =>
      obtain ⟨room, hroom, hdelivery, hsource⟩ := hreads.source hread
      rw [hdelivery] at hreceived
      have hworn := live.endurance_read_lt hroom hreceived
      rw [← hsource] at hworn
      have hrest := ih (hsource ▸ live.read room)
      calc
        (Event.deliveries events).length + 1 ≤ next.source.endurance + 1 + 1 :=
          Nat.succ_le_succ hrest
        _ ≤ feed.source.endurance + 1 := Nat.succ_le_succ hworn

/-- There is one look before each read, and at most one behind the last. -/
theorem Course.looks_le {feed last : Feed} {transcript : List (Event ν ε)}
    {answer : Except Fault (Result ν ε)}
    (hcourse : Course parser readSize feed transcript answer last) :
    Event.looks transcript ≤ (Event.deliveries transcript).length + 1 := by
  induction hcourse with
  | ended _ => exact Nat.le_refl 1
  | failed _ _ => exact Nat.le_succ 1
  | @received feed next last delivery events answer _ _ _ ih =>
      have hlooks : Event.looks (.look feed.buffer (parser feed.buffer.window) ::
          .read delivery :: events) = Event.looks events + 1 := by
        rw [Event.looks, List.countP_cons_of_pos rfl, List.countP_cons_of_neg Bool.false_ne_true]
        rfl
      rw [hlooks]
      exact Nat.succ_le_succ ih

/-- The source counts the reads that the transcript tells of, and no others. -/
theorem Course.reads_eq {feed last : Feed} {transcript : List (Event ν ε)}
    {answer : Except Fault (Result ν ε)} (hread : readSize ≠ 0)
    (hcourse : Course parser readSize feed transcript answer last) :
    last.source.reads = feed.source.reads + (Event.deliveries transcript).length := by
  induction hcourse with
  | ended _ => rfl
  | failed hreads _ =>
      obtain ⟨room, _, _, hsource⟩ := hreads.source hread
      rw [hsource, Source.reads_read]
      rfl
  | @received feed next last delivery events answer hreads _ _ ih =>
      obtain ⟨room, _, _, hsource⟩ := hreads.source hread
      rw [ih, hsource, Source.reads_read]
      exact Nat.succ_add_eq_add_succ _ _

/-! ## More turns than are taken -/

/-- A parse that has an answer is not changed by more turns. -/
theorem parseWithin_eq_of_answer {turns more : Nat} {feed : Feed}
    {answer : Except Fault (Result ν ε)}
    (hanswer : (parseWithin parser readSize turns feed).answer = some answer)
    (hmore : turns ≤ more) :
    parseWithin parser readSize more feed = parseWithin parser readSize turns feed := by
  induction turns generalizing more feed with
  | zero => simp [parseWithin] at hanswer
  | succ turns ih =>
      obtain ⟨more, rfl⟩ := Nat.exists_eq_add_of_le' (Nat.le_of_add_left_le hmore)
      rcases hturn : feed.buffer.turn readSize (parser feed.buffer.window) with ⟨turn, buffer⟩
      cases turn with
      | ended other => rw [parseWithin_ended turns hturn, parseWithin_ended more hturn]
      | reads area =>
          cases hfailed : (receive { feed with buffer } area).1.code.failed with
          | true =>
              rw [parseWithin_failed turns hturn hfailed, parseWithin_failed more hturn hfailed]
          | false =>
              rw [parseWithin_received turns hturn hfailed] at hanswer
              rw [parseWithin_received turns hturn hfailed,
                parseWithin_received more hturn hfailed,
                ih hanswer (Nat.le_of_succ_le_succ hmore)]

/-! ## A whole parse -/

/-- Over a live source a parse ends, whatever its parser says.  It has an answer after one read at
most for each unread byte, each unread empty chunk and each injection, and one for the end of the
source; the parser was asked at most once more than the source was read; and the parse would not go
on if it were given more turns. -/
theorem parse_ends_within_patience {feed : Feed} (parser : Parser ν ε) {readSize : UInt64}
    (hread : readSize ≠ 0) (live : feed.source.Live) :
    ∃ answer, (feed.parse parser readSize).answer = some answer ∧
      (Event.deliveries (feed.parse parser readSize).transcript).length ≤
        feed.source.unread.length + (feed.source.chunks.filter List.isEmpty).length +
          feed.source.injections.length + 1 ∧
      Event.looks (feed.parse parser readSize).transcript ≤
        (Event.deliveries (feed.parse parser readSize).transcript).length + 1 ∧
      (feed.parse parser readSize).feed.source.reads =
        feed.source.reads + (Event.deliveries (feed.parse parser readSize).transcript).length ∧
      ∀ turns, feed.source.patience ≤ turns →
        parseWithin parser readSize turns feed = feed.parse parser readSize := by
  have hpatience := feed.source.endurance_lt_patience
  obtain ⟨answer, hanswer⟩ := parse_answers feed parser readSize live
  have hcourse := course_of_parse hread hanswer
  have hreads : (Event.deliveries (feed.parse parser readSize).transcript).length ≤
      feed.source.patience :=
    Nat.le_trans (hcourse.length_deliveries_le_endurance hread live) hpatience
  refine ⟨answer, hanswer, hreads, hcourse.looks_le, hcourse.reads_eq hread, fun turns hturns => ?_⟩
  obtain ⟨patient, hpatient⟩ : ∃ patient,
      (parseWithin parser readSize feed.source.patience feed).answer = some patient :=
    parseWithin_answers hread live hpatience
  have hwhole : feed.parse parser readSize =
      parseWithin parser readSize feed.source.patience feed := by
    rw [parse_of_ne_zero feed parser hread]
    exact parseWithin_eq_of_answer hpatient (Nat.le_add_right _ _)
  rw [hwhole]
  exact parseWithin_eq_of_answer hpatient hturns

end Parses

/-- Two bytes, an empty chunk between them, and an injection that reports no failure: a read that
brings nothing and touches no chunk. -/
def sparse : Feed where
  source := { chunks := [[0x41], [], [0x42]], cap := some 1
              injections := [{ turn := 2, code := .ok }] }

/-- A parser that never decides has this source read for each of them, and for its end. -/
theorem undecided_parse_of_sparse_ends :
    (Event.deliveries (sparse.parse (Parser.hinted 3) 1).transcript).length = 2 + 1 + 1 + 1 ∧
      ∃ answer, (sparse.parse (Parser.hinted 3) 1).answer = some answer ∧
        (Event.deliveries (sparse.parse (Parser.hinted 3) 1).transcript).length ≤ 5 ∧
        ∀ turns, 5 ≤ turns →
          parseWithin (Parser.hinted 3) 1 turns sparse = sparse.parse (Parser.hinted 3) 1 := by
  have live : sparse.source.Live :=
    ⟨fun hcap => Option.some_inj.mp hcap ▸ Nat.one_pos, rfl⟩
  obtain ⟨answer, hanswer, hreads, _, _, hturns⟩ :=
    parse_ends_within_patience (Parser.hinted 3) (by decide : (1 : UInt64) ≠ 0) live
  exact ⟨by decide, answer, hanswer, hreads, hturns⟩

end Feed

end StreamParse
