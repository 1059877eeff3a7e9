import StreamParse.Run

/-!
# Answers

The answer to a parse can be had in three ways: as a result; as a value, with the failure reported on
the side; and as a value or nothing.  The run is the same in each of them.
-/

namespace StreamParse

/-- How the caller of a parse wants its answer. -/
inductive AnswerMode (ε : Type) where
  /-- As a result. -/
  | result
  /-- As a value if there is one, with the failure put in the place of an earlier one. -/
  | reporting (earlier : Failure ε)
  /-- As a value. -/
  | value

/-- What the caller of a parse is given. -/
inductive Answer (ν ε : Type) where
  | result (result : Result ν ε)
  | report (value? : Option ν) (failure : Failure ε)
  | value (value : ν)
  /-- The caller wants a value and there is none. -/
  | failed (failure : Failure ε)
  /-- The parse met a fault. -/
  | refused (fault : Fault)
  deriving DecidableEq, Repr

/-- Why a parse has no value to give: it could not be carried out, or it failed. -/
inductive Obstacle (ε : Type) where
  | fault (fault : Fault)
  | failure (failure : Failure ε)
  deriving DecidableEq, Repr

namespace Feed

variable [Allocator] {ν ε : Type}

/-- Parses one value and reports the failure on the side: the answer is the value, if there is one,
and the second component takes the place of an earlier failure unless the parse meets a fault. -/
def parseReporting (feed : Feed) (earlier : Failure ε) (parser : Parser ν ε) (readSize : UInt64) :
    Run ν ε (Except Fault (Option ν)) × Failure ε :=
  let run := feed.parse parser readSize
  (run.map fun answer => answer.map Result.value?,
    match run.answer with
    | some (.ok result) => result.failure
    | _ => earlier)

/-- Parses one value, and has nothing else to give. -/
def parseValue (feed : Feed) (parser : Parser ν ε) (readSize : UInt64) :
    Run ν ε (Except (Obstacle ε) ν) :=
  (feed.parse parser readSize).map fun
    | .ok result => result.get.mapError .failure
    | .error fault => .error (.fault fault)

/-- Parses one value and answers in the way that is wanted. -/
def parseAs (feed : Feed) (mode : AnswerMode ε) (parser : Parser ν ε) (readSize : UInt64) :
    Run ν ε (Answer ν ε) :=
  match mode with
  | .result =>
      (feed.parse parser readSize).map fun
        | .ok result => .result result
        | .error fault => .refused fault
  | .reporting earlier =>
      let (run, failure) := feed.parseReporting earlier parser readSize
      run.map fun
        | .ok value? => .report value? failure
        | .error fault => .refused fault
  | .value =>
      (feed.parseValue parser readSize).map fun
        | .ok value => .value value
        | .error (.failure failure) => .failed failure
        | .error (.fault fault) => .refused fault

@[simp]
theorem feed_parseReporting (feed : Feed) (earlier : Failure ε) (parser : Parser ν ε)
    (readSize : UInt64) :
    (feed.parseReporting earlier parser readSize).1.feed = (feed.parse parser readSize).feed :=
  rfl

@[simp]
theorem feed_parseValue (feed : Feed) (parser : Parser ν ε) (readSize : UInt64) :
    (feed.parseValue parser readSize).feed = (feed.parse parser readSize).feed := rfl

/-- The way in which the answer is given leaves no trace in the feed. -/
@[simp]
theorem feed_parseAs (feed : Feed) (mode : AnswerMode ε) (parser : Parser ν ε)
    (readSize : UInt64) :
    (feed.parseAs mode parser readSize).feed = (feed.parse parser readSize).feed := by
  cases mode <;> rfl

/-- Nor does it in the transcript. -/
@[simp]
theorem transcript_parseAs (feed : Feed) (mode : AnswerMode ε) (parser : Parser ν ε)
    (readSize : UInt64) :
    (feed.parseAs mode parser readSize).transcript =
      (feed.parse parser readSize).transcript := by
  cases mode <;> rfl

end Feed

end StreamParse
