import StreamParse.Proofs.Closing
import StreamParse.Proofs.Conservation

/-!
# One parse, asked for in three ways

A parse may be asked for its result, for a value with the failure put in the place of an earlier
one, or for a value and nothing else.  The run is the same, and so are the looks, the reads and the
feed that is left behind.

That the three answers agree rests on what a run can end with.  A result could hold neither a value
nor an error, and the second caller would then be told of a success without a value.  No parse ends
so: each of its exits leaves a value or a failure that holds an error.
-/

namespace StreamParse

variable {ν ε : Type}

/-- There is a value or an error, and never both.  The empty result has neither. -/
def Result.Definite (result : Result ν ε) : Prop :=
  result.failure.holdsError = !result.isValue

namespace Feed

variable {parser : Parser ν ε} {readSize : UInt64}

/-! ## Results are definite -/

section Parses

variable [Allocator]

/-- Every way in which a look ends a parse leaves a definite result. -/
theorem definite_of_ended {b b' : Buffer} {outcome : Outcome ν ε} {result : Result ν ε}
    (hread : readSize ≠ 0) (hturn : b.turn readSize outcome = (.ended (.ok result), b')) :
    result.Definite := by
  cases Buffer.leads_of_turn hread hturn with
  | value => rfl
  | rejection => rfl
  | overflow => rfl

omit [Allocator] in
/-- So does a read that fails. -/
theorem definite_ofRead {code : Code} (hfailed : code.failed = true) :
    (Result.failed (.ofRead code) : Result ν ε).Definite :=
  (Failure.holdsError_ofRead code).trans hfailed

theorem Course.definite {feed last : Feed} {transcript : List (Event ν ε)}
    {answer : Except Fault (Result ν ε)} (hread : readSize ≠ 0)
    (hcourse : Course parser readSize feed transcript answer last) :
    ∀ result, answer = .ok result → result.Definite := by
  induction hcourse with
  | ended hturn =>
      rintro result rfl
      exact definite_of_ended hread hturn
  | failed _ hfailed =>
      rintro _ ⟨⟩
      exact definite_ofRead hfailed
  | received _ _ _ ih => exact ih

/-- Whatever a parse is asked for, its result is definite if it has one. -/
theorem definite_parse {feed : Feed} {result : Result ν ε}
    (hanswer : (feed.parse parser readSize).answer = some (.ok result)) : result.Definite := by
  by_cases hread : readSize = 0
  · rw [hread, parse_zero] at hanswer
    cases hanswer
  · exact (course_of_parse hread hanswer).definite hread result rfl

/-! ## What the callers are told -/

/-- What the three callers of one parse are told: the first its result; the second a value or
nothing, and the failure that then stands where it had `earlier`; the third a value, or what is in
its way. -/
inductive Accord (earlier : Failure ε) : Option (Except Fault (Result ν ε)) →
    Option (Except Fault (Option ν)) → Failure ε → Option (Except (Obstacle ε) ν) → Prop
  | value (value : ν) :
      Accord earlier (some (.ok (.value value))) (some (.ok (some value))) .empty
        (some (.ok value))
  /-- Nothing of the earlier failure is left, neither its code nor its detail. -/
  | failed {failure : Failure ε} (herror : failure.holdsError = true) :
      Accord earlier (some (.ok (.failed failure))) (some (.ok none)) failure
        (some (.error (.failure failure)))
  /-- A parse that meets a fault reports nothing, and the earlier failure stays. -/
  | fault (fault : Fault) :
      Accord earlier (some (.error fault)) (some (.error fault)) earlier
        (some (.error (.fault fault)))
  /-- A parse without an end tells nobody anything. -/
  | endless : Accord earlier none none earlier none

/-- Three runs that are one, but for the answers that are made of it. -/
structure Agree (earlier : Failure ε) (given : Run ν ε (Except Fault (Result ν ε)))
    (reported : Run ν ε (Except Fault (Option ν)) × Failure ε)
    (handed : Run ν ε (Except (Obstacle ε) ν)) : Prop where
  feed : reported.1.feed = given.feed ∧ handed.feed = given.feed
  transcript : reported.1.transcript = given.transcript ∧ handed.transcript = given.transcript
  answers : Accord earlier given.answer reported.1.answer reported.2 handed.answer

/-- Of one run whose result is definite, three answers are made that are in accord. -/
theorem agree_parse (feed : Feed) (parser : Parser ν ε) (readSize : UInt64)
    (earlier : Failure ε) :
    Agree earlier (feed.parse parser readSize) (feed.parseReporting earlier parser readSize)
      (feed.parseValue parser readSize) where
  feed := ⟨rfl, rfl⟩
  transcript := ⟨rfl, rfl⟩
  answers := by
    have hdefinite := @definite_parse _ _ parser readSize _ feed
    simp only [parseReporting, parseValue, Run.map]
    generalize (feed.parse parser readSize).answer = answer at hdefinite
    rcases answer with _ | fault | value | failure
    · exact .endless
    · exact .fault fault
    · exact .value value
    · exact .failed (hdefinite rfl)

end Parses

/-- What was said about an earlier rejection is gone when the input ends inside a word. -/
example :
    (parseReporting { source := { chunks := [[0x41]] } } (.rejection ⟨7, 0x78⟩) Parser.token 4).2 =
      { code := .shortRead } := by
  decide +kernel

end Feed

end StreamParse
