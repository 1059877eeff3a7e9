import StreamParse.Proofs.Fragmentation

/-!
# Trying again

A parse that an injected failure interrupts leaves all of its data behind: what it has read stays
in the window, also the bytes that came with the failure, and the next attempt begins where it
stopped.  Because each failure is met once, so many attempts are enough; and the attempt that is
not interrupted comes to the conclusion of a parse that met no failure at all.  A full window is
no different: under a larger limit the next attempt goes on with it.  What each attempt asks for in a
read makes no difference either, unless it asks for nothing or for more memory than there is.
-/

namespace StreamParse

variable {ν ε : Type} {parser : Parser ν ε} {readSize : UInt64}

/-- Whether a parse has failed because the window was full. -/
def overflowed : Option (Except Fault (Result ν ε)) → Bool
  | some (.ok (.failed failure)) => failure.code == .bufferOverflow
  | _ => false

namespace Feed

/-- The feed under another limit. -/
def widen (feed : Feed) (limit : UInt64) : Feed :=
  { feed with buffer := { feed.buffer with limit } }

theorem Ready.widen {feed : Feed} {limit : UInt64} (ready : feed.Ready)
    (hsize : feed.buffer.size ≤ limit) : (feed.widen limit).Ready where
  valid := ⟨ready.valid.fits, ready.valid.origin⟩
  size_le := UInt64.le_iff_toNat_le.mp hsize
  live := ready.live

/-- The feed as it would be without injections, and under this limit. -/
def undisturbed (feed : Feed) (limit : UInt64) : Feed where
  source := { feed.source with injections := [] }
  buffer := { feed.buffer with limit }

/-! ## What an attempt comes to -/

theorem succeeded_of_overflowed {answer : Except Fault (Result ν ε)}
    (hoverflowed : overflowed (some answer) = true) : succeeded answer = false := by
  cases answer with
  | error fault => rfl
  | ok result =>
      cases result with
      | value value => cases hoverflowed
      | failed failure => rfl

/-- What an attempt with `readSize` comes to if nothing interrupts it. -/
inductive Settled (parser : Parser ν ε) (readSize : UInt64) (code : Code) (data : List UInt8)
    (run : Run ν ε (Except Fault (Result ν ε))) : Prop
  /-- It is refused for its read size. -/
  | refused (hread : readSize = 0) (hanswer : run.answer = some (.error .zeroReadSize))
      (hpending : run.feed.pending = data)
  /-- It is denied the memory to go on. -/
  | denied (hread : readSize ≠ 0) (hanswer : run.answer = some (.error .outOfMemory))
      (hpending : run.feed.pending = data)
  /-- It concludes from the data. -/
  | concluded {result : Result ν ε} (hread : readSize ≠ 0)
      (hanswer : run.answer = some (.ok result))
      (hconcludes : parser.Concludes run.feed.buffer.limit.toNat code data result run.feed.pending)

namespace Settled

variable {code : Code} {data : List UInt8} {run : Run ν ε (Except Fault (Result ν ε))}

theorem isSome (hsettled : Settled parser readSize code data run) : run.answer.isSome = true := by
  cases hsettled with
  | refused _ hanswer _ | denied _ hanswer _ | concluded _ hanswer _ =>
      rw [hanswer]
      rfl

theorem zeroReadSize_iff (hsettled : Settled parser readSize code data run) :
    run.answer = some (.error .zeroReadSize) ↔ readSize = 0 := by
  cases hsettled with
  | refused hread hanswer _ => exact iff_of_true hanswer hread
  | denied hread hanswer _ | concluded hread hanswer _ =>
      rw [hanswer]
      exact iff_of_false nofun hread

/-- A stable parser settles on one answer under one limit. -/
theorem unique (stable : parser.Stable) {readSize' : UInt64}
    {run' : Run ν ε (Except Fault (Result ν ε))}
    (hsettled : Settled parser readSize code data run)
    (hsettled' : Settled parser readSize' code data run')
    (hlimit : run'.feed.buffer.limit = run.feed.buffer.limit)
    (hzero : readSize = 0 ↔ readSize' = 0)
    (hmemory : run.answer = some (.error .outOfMemory) ↔
      run'.answer = some (.error .outOfMemory)) :
    run.answer = run'.answer ∧ run.feed.pending = run'.feed.pending := by
  cases hsettled with
  | refused hread hanswer hpending =>
      cases hsettled' with
      | refused _ hanswer' hpending' =>
          exact ⟨hanswer.trans hanswer'.symm, hpending.trans hpending'.symm⟩
      | denied hread' _ _ | concluded hread' _ _ => exact absurd (hzero.mp hread) hread'
  | denied hread hanswer hpending =>
      have hanswer' := hmemory.mp hanswer
      cases hsettled' with
      | refused hread' _ _ => exact absurd (hzero.mpr hread') hread
      | denied _ _ hpending' => exact ⟨hanswer.trans hanswer'.symm, hpending.trans hpending'.symm⟩
      | concluded _ hother _ =>
          rw [hother] at hanswer'
          cases hanswer'
  | concluded hread hanswer hconcludes =>
      cases hsettled' with
      | refused hread' _ _ => exact absurd (hzero.mpr hread') hread
      | denied _ hanswer' _ =>
          rw [hmemory.mpr hanswer'] at hanswer
          cases hanswer
      | concluded _ hanswer' hconcludes' =>
          rw [hlimit] at hconcludes'
          rw [stable.concludes_iff] at hconcludes hconcludes'
          obtain ⟨rfl, hpending⟩ := Prod.mk.inj (hconcludes.symm.trans hconcludes')
          exact ⟨hanswer.trans hanswer'.symm, hpending⟩

end Settled

/-! ## One attempt after another -/

section Attempts

variable [Allocator]

/-- Parses until an attempt is not interrupted, each attempt with a read size of its own.  One
that overflows is repeated under the next limit, as long as there is one.  Without a read size for
a further attempt there is no run to speak of. -/
def persist (parser : Parser ν ε) :
    List UInt64 → List UInt64 → Feed → Option (Run ν ε (Except Fault (Result ν ε)))
  | [], _, _ => none
  | readSize :: readSizes, limits, feed =>
      let run := feed.parse parser readSize
      if Event.interrupted run.transcript run.feed.source then
        persist parser readSizes limits run.feed
      else if overflowed run.answer then
        match limits with
        | [] => some run
        | limit :: limits =>
            match run.feed.buffer.setLimit limit with
            | .ok buffer => persist parser readSizes limits { run.feed with buffer }
            | .error _ => some run
      else some run

section Persist

variable {readSizes : List UInt64} {feed : Feed}

theorem persist_interrupted (limits : List UInt64)
    (hinterrupted : Event.interrupted (feed.parse parser readSize).transcript
      (feed.parse parser readSize).feed.source = true) :
    persist parser (readSize :: readSizes) limits feed =
      persist parser readSizes limits (feed.parse parser readSize).feed := by
  simp [persist, hinterrupted]

/-- An attempt that is neither interrupted nor overflows is the last. -/
theorem persist_ended (limits : List UInt64)
    (hcalm : Event.interrupted (feed.parse parser readSize).transcript
      (feed.parse parser readSize).feed.source = false)
    (hended : overflowed (feed.parse parser readSize).answer = false) :
    persist parser (readSize :: readSizes) limits feed = some (feed.parse parser readSize) := by
  simp [persist, hcalm, hended]

/-- So is one that overflows under the last limit. -/
theorem persist_nil
    (hcalm : Event.interrupted (feed.parse parser readSize).transcript
      (feed.parse parser readSize).feed.source = false) :
    persist parser (readSize :: readSizes) [] feed = some (feed.parse parser readSize) := by
  simp [persist, hcalm]

theorem persist_overflowed {limit : UInt64} (limits : List UInt64)
    (hcalm : Event.interrupted (feed.parse parser readSize).transcript
      (feed.parse parser readSize).feed.source = false)
    (hoverflowed : overflowed (feed.parse parser readSize).answer = true)
    (hlimit : (feed.parse parser readSize).feed.buffer.size ≤ limit) :
    persist parser (readSize :: readSizes) (limit :: limits) feed =
      persist parser readSizes limits ((feed.parse parser readSize).feed.widen limit) := by
  have hset : (feed.parse parser readSize).feed.buffer.setLimit limit =
      .ok { (feed.parse parser readSize).feed.buffer with limit } := by
    rw [Buffer.setLimit, if_neg (UInt64.not_lt.mpr hlimit)]
  simp [persist, hcalm, hoverflowed, hset, widen]

end Persist

/-! ## One attempt -/

theorem Course.upcoming_le {feed last : Feed} {transcript : List (Event ν ε)}
    {answer : Except Fault (Result ν ε)} (hread : readSize ≠ 0)
    (hcourse : Course parser readSize feed transcript answer last) :
    last.source.upcoming ≤ feed.source.upcoming :=
  hcourse.source_preserves (motive := fun source => source.upcoming ≤ feed.source.upcoming) hread
    (fun h => Nat.le_trans (Source.upcoming_read_le _ _) h) (Nat.le_refl _)

/-- An interrupted attempt has failed, and has one injection less ahead of it. -/
theorem Course.of_interrupted {feed last : Feed} {transcript : List (Event ν ε)}
    {answer : Except Fault (Result ν ε)} (hread : readSize ≠ 0)
    (hcourse : Course parser readSize feed transcript answer last)
    (hinterrupted : Event.interrupted transcript last.source = true) :
    succeeded answer = false ∧ last.source.upcoming < feed.source.upcoming := by
  induction hcourse with
  | ended _ => cases hinterrupted
  | @failed feed next delivery hreads _ =>
      refine ⟨rfl, ?_⟩
      obtain ⟨room, _, _, hsource⟩ := hreads.source hread
      have hsome : (next.source.injection? next.source.reads).isSome = true := hinterrupted
      rw [hsource, Source.reads_read, Source.injection?, Source.injections_read] at hsome
      obtain ⟨injection, hinjection⟩ := Option.isSome_iff_exists.mp hsome
      rw [hsource]
      exact Source.upcoming_read_lt room hinjection
  | @received feed next last delivery events answer hreads _ hrest ih =>
      rw [Event.interrupted_cons_cons hrest.transcript_ne_nil] at hinterrupted
      obtain ⟨hanswer, hless⟩ := ih hinterrupted
      obtain ⟨room, _, _, hsource⟩ := hreads.source hread
      rw [hsource] at hless
      exact ⟨hanswer, Nat.lt_of_lt_of_le hless (Source.upcoming_read_le _ _)⟩

/-- An attempt without a value leaves all of its data. -/
theorem Course.pending_of_failed {feed last : Feed} {transcript : List (Event ν ε)}
    {answer : Except Fault (Result ν ε)} (hread : readSize ≠ 0) (valid : feed.buffer.Valid)
    (hcourse : Course parser readSize feed transcript answer last)
    (hanswer : succeeded answer = false) : last.pending = feed.pending := by
  have hconserved := hcourse.retired_append_pending hread valid
  rw [hanswer] at hconserved
  exact hconserved

theorem settled_zero (feed : Feed) (parser : Parser ν ε) (code : Code) :
    Settled parser 0 code feed.pending (feed.parse parser 0) := by
  rw [parse_zero]
  exact .refused rfl rfl rfl

/-- An attempt that is not interrupted settles. -/
theorem settled_parse (stable : parser.Stable) {feed : Feed} (ready : feed.Ready)
    (hcalm : Event.interrupted (feed.parse parser readSize).transcript
      (feed.parse parser readSize).feed.source = false) :
    Settled parser readSize feed.source.atEnd.code feed.pending (feed.parse parser readSize) := by
  by_cases hread : readSize = 0
  · rw [hread]
    exact settled_zero feed parser _
  by_cases hmemory : (feed.parse parser readSize).answer = some (.error .outOfMemory)
  · have hpending := (course_of_parse hread hmemory).pending_of_failed hread ready.valid rfl
    exact .denied hread hmemory hpending
  · obtain ⟨result, hanswer, hconcludes⟩ := parse_concludes stable ready hread hcalm hmemory
    rw [← limit_parse hanswer] at hconcludes
    exact .concluded hread hanswer hconcludes

/-! ## All attempts -/

/-- What one of several attempts leads to. -/
inductive Attempt (parser : Parser ν ε) (readSize : UInt64) (readSizes limits : List UInt64)
    (feed : Feed) : Prop
  /-- It settles, and is the last. -/
  | last
      (hrun : persist parser (readSize :: readSizes) limits feed =
        some (feed.parse parser readSize))
      (hsettled : Settled parser readSize feed.source.atEnd.code feed.pending
        (feed.parse parser readSize))
  /-- Another one follows, with the same data and less ahead of it. -/
  | again {next : Feed} {limits' : List UInt64}
      (hrun : persist parser (readSize :: readSizes) limits feed =
        persist parser readSizes limits' next)
      (ready : next.Ready) (hpending : next.pending = feed.pending)
      (hend : next.source.atEnd = feed.source.atEnd)
      (hlimits : next.buffer.limit :: limits' <:+ feed.buffer.limit :: limits)
      (hless : next.source.upcoming + limits'.length < feed.source.upcoming + limits.length)

/-- An attempt that is interrupted uses up an injection, and one that overflows a limit. -/
theorem attempt (stable : parser.Stable) {feed : Feed} (ready : feed.Ready) (readSize : UInt64)
    (readSizes : List UInt64) {limits : List UInt64}
    (hraised : (feed.buffer.limit :: limits).Pairwise (· ≤ ·)) :
    Attempt parser readSize readSizes limits feed := by
  by_cases hread : readSize = 0
  · subst hread
    exact .last (persist_ended limits rfl rfl) (settled_zero feed parser _)
  obtain ⟨answer, hanswer⟩ := feed.parse_answers parser readSize ready.live
  have hcourse := course_of_parse hread hanswer
  have ready' := hcourse.ready hread ready
  have hlimit := hcourse.limit hread
  have hend := hcourse.atEnd hread
  cases hinterrupted : Event.interrupted (feed.parse parser readSize).transcript
    (feed.parse parser readSize).feed.source with
  | true =>
      obtain ⟨hfailed, hless⟩ := hcourse.of_interrupted hread hinterrupted
      have hpending := hcourse.pending_of_failed hread ready.valid hfailed
      have hlimits : (feed.parse parser readSize).feed.buffer.limit :: limits =
          feed.buffer.limit :: limits := congrArg (· :: limits) hlimit
      exact .again (persist_interrupted limits hinterrupted) ready' hpending hend
        (hlimits ▸ List.suffix_refl _) (Nat.add_lt_add_right hless _)
  | false =>
      have hsettled := settled_parse stable ready hinterrupted
      cases hoverflowed : overflowed (feed.parse parser readSize).answer with
      | false => exact .last (persist_ended limits hinterrupted hoverflowed) hsettled
      | true =>
          cases limits with
          | nil => exact .last (persist_nil hinterrupted) hsettled
          | cons limit limits =>
              have hlarger := List.rel_of_pairwise_cons hraised List.mem_cons_self
              have hsize : (feed.parse parser readSize).feed.buffer.size ≤ limit := by
                apply UInt64.le_trans (UInt64.le_iff_toNat_le.mpr ready'.size_le)
                rw [hlimit]
                exact hlarger
              have hfailed : succeeded answer = false := by
                rw [hanswer] at hoverflowed
                exact succeeded_of_overflowed hoverflowed
              have hpending := hcourse.pending_of_failed hread ready.valid hfailed
              have hupcoming := hcourse.upcoming_le hread
              exact .again (persist_overflowed limits hinterrupted hoverflowed hsize)
                (ready'.widen hsize) hpending hend (List.suffix_cons _ _)
                (Nat.add_lt_add_of_le_of_lt hupcoming (Nat.lt_succ_self _))

/-- With one attempt more than there are failures and limits ahead, one attempt is not
interrupted; it settles on what follows from the data that the first attempt began with. -/
theorem persist_settles (stable : parser.Stable) {feed : Feed} (ready : feed.Ready)
    {readSizes limits : List UInt64} (hraised : (feed.buffer.limit :: limits).Pairwise (· ≤ ·))
    (hattempts : feed.source.upcoming + limits.length < readSizes.length) :
    ∃ run, persist parser readSizes limits feed = some run ∧
      run.feed.buffer.limit ∈ feed.buffer.limit :: limits ∧
      ∃ readSize ∈ readSizes,
        Settled parser readSize feed.source.atEnd.code feed.pending run := by
  induction readSizes generalizing feed limits with
  | nil => exact absurd hattempts (Nat.not_lt_zero _)
  | cons readSize readSizes ih =>
      cases attempt stable ready readSize readSizes hraised with
      | last hrun hsettled =>
          obtain ⟨answer, hanswer⟩ := feed.parse_answers parser readSize ready.live
          refine ⟨_, hrun, ?_, readSize, List.mem_cons_self, hsettled⟩
          rw [limit_parse hanswer]
          exact List.mem_cons_self
      | again hrun ready' hpending hend hlimits hless =>
          obtain ⟨run, hrun', hmem, last, hlast, hsettled⟩ :=
            ih ready' (hraised.sublist hlimits.sublist)
              (Nat.lt_of_lt_of_le hless (Nat.le_of_lt_succ hattempts))
          rw [hpending, hend] at hsettled
          exact ⟨run, hrun.trans hrun', hlimits.subset hmem, last,
            List.mem_cons_of_mem _ hlast, hsettled⟩

theorem settled_undisturbed (stable : parser.Stable) {feed : Feed} {limit : UInt64}
    (ready : feed.Ready) (hsize : feed.buffer.size.toNat ≤ limit.toNat) :
    Settled parser readSize feed.source.atEnd.code feed.pending
      ((feed.undisturbed limit).parse parser readSize) := by
  have live : (feed.undisturbed limit).source.Live := ⟨ready.live.cap_pos, ready.live.ends⟩
  have ready' : (feed.undisturbed limit).Ready :=
    ⟨⟨ready.valid.fits, ready.valid.origin⟩, hsize, live⟩
  exact settled_parse stable ready' (interrupted_parse parser readSize live rfl)

/-- Parsing again until an attempt is not interrupted, and under the next limit when it overflows,
comes to what a single parse comes to that starts from the same data without injections and under
the limit of the last attempt.  The read sizes do not matter, except that one of zero is refused and
that a large one may ask for more memory than there is: the two agree if both are refused for one of
these reasons, and if neither is. -/
theorem persist_agrees (stable : parser.Stable) {feed : Feed} (valid : feed.buffer.Valid)
    (hsize : feed.buffer.size ≤ feed.buffer.limit) (live : feed.source.Live)
    {readSizes limits : List UInt64} (hraised : (feed.buffer.limit :: limits).Pairwise (· ≤ ·))
    (hattempts : feed.source.injections.length + limits.length < readSizes.length) :
    ∃ run, persist parser readSizes limits feed = some run ∧ run.answer.isSome = true ∧
      run.feed.buffer.limit ∈ feed.buffer.limit :: limits ∧
      (run.answer = some (.error .zeroReadSize) → 0 ∈ readSizes) ∧
      ∀ readSize, (run.answer = some (.error .zeroReadSize) ↔ readSize = 0) →
        (run.answer = some (.error .outOfMemory) ↔
          ((feed.undisturbed run.feed.buffer.limit).parse parser readSize).answer =
            some (.error .outOfMemory)) →
        run.answer =
            ((feed.undisturbed run.feed.buffer.limit).parse parser readSize).answer ∧
          run.feed.pending =
            ((feed.undisturbed run.feed.buffer.limit).parse parser readSize).feed.pending := by
  have ready : feed.Ready := ⟨valid, UInt64.le_iff_toNat_le.mp hsize, live⟩
  have hupcoming : feed.source.upcoming ≤ feed.source.injections.length := List.countP_le_length
  obtain ⟨run, hrun, hmem, last, hlast, hsettled⟩ :=
    persist_settles stable ready hraised
      (Nat.lt_of_le_of_lt (Nat.add_le_add_right hupcoming limits.length) hattempts)
  have hgrown : feed.buffer.size ≤ run.feed.buffer.limit := by
    rcases List.mem_cons.mp hmem with heq | htail
    · rw [heq]
      exact hsize
    · exact UInt64.le_trans hsize (List.rel_of_pairwise_cons hraised htail)
  refine ⟨run, hrun, hsettled.isSome, hmem, fun hanswer => ?_, fun readSize hzero hmemory => ?_⟩
  · rw [hsettled.zeroReadSize_iff] at hanswer
    exact hanswer ▸ hlast
  · rw [hsettled.zeroReadSize_iff] at hzero
    have hsettled' := @settled_undisturbed ν ε parser readSize _ stable feed _ ready
      (UInt64.le_iff_toNat_le.mp hgrown)
    have live' : (feed.undisturbed run.feed.buffer.limit).source.Live :=
      ⟨live.cap_pos, live.ends⟩
    obtain ⟨answer, hanswer⟩ := parse_answers _ parser readSize live'
    exact hsettled.unique stable hsettled' (limit_parse hanswer) hzero hmemory

end Attempts

/-- A word that comes in two chunks, under a limit that is too small for it.  The first read fails
with its bytes, and the third one without. -/
def interruptedWord : Feed where
  source :=
    { chunks := [[0x47, 0x45], [0x54, 0x20, 0x78]], cap := some 2,
      injections := [⟨1, .endOfStream, true⟩, ⟨3, .timedOut, false⟩] }
  buffer := { limit := 3 }

/-- Two failures and an overflow later the word is there, as if nothing had happened. -/
theorem interrupted_word_persists :
    ∃ run, persist Parser.token [1, 7, 2, 64] [8] interruptedWord = some run ∧
      run.answer = some (.ok (.value [0x47, 0x45, 0x54])) ∧
      run.answer = ((interruptedWord.undisturbed 8).parse Parser.token 5).answer ∧
      run.feed.pending = ((interruptedWord.undisturbed 8).parse Parser.token 5).feed.pending := by
  have live : interruptedWord.source.Live :=
    ⟨fun hcap => Option.some_inj.mp hcap ▸ Nat.two_pos, rfl⟩
  have hraised : [interruptedWord.buffer.limit, 8].Pairwise (· ≤ ·) := by decide
  have hattempts : interruptedWord.source.injections.length + [(8 : UInt64)].length <
      [(1 : UInt64), 7, 2, 64].length := by decide
  obtain ⟨run, hrun, _, _, _, hagrees⟩ := persist_agrees Parser.stable_token
    ⟨by decide, by decide⟩ (by decide) live hraised hattempts
  have hanswer : (persist Parser.token [1, 7, 2, 64] [8] interruptedWord).map Run.answer =
      some (some (.ok (.value [0x47, 0x45, 0x54]))) := rfl
  have hlimit : (persist Parser.token [1, 7, 2, 64] [8] interruptedWord).map
      (fun run => run.feed.buffer.limit) = some 8 := rfl
  rw [hrun] at hanswer hlimit
  have hanswer : run.answer = some (.ok (.value [0x47, 0x45, 0x54])) :=
    Option.some_inj.mp hanswer
  have hlimit : run.feed.buffer.limit = 8 := Option.some_inj.mp hlimit
  have honce : ((interruptedWord.undisturbed 8).parse Parser.token 5).answer =
      some (.ok (.value [0x47, 0x45, 0x54])) := rfl
  rw [hlimit] at hagrees
  refine ⟨run, hrun, hanswer, hagrees 5 ?_ ?_⟩
  · rw [hanswer]
    exact iff_of_false nofun (by decide)
  · rw [hanswer, honce]

/-- A word in two chunks, and a failure of the read that comes between them. -/
def wordWithTimeout : Feed where
  source := { chunks := [[0x41], [0x42, 0x20]], injections := [⟨2, .timedOut, false⟩] }

/-- Read sizes do matter where one of them asks for nothing, or for more memory than there is.  Two
attempts that are content with single bytes find the word that a single parse finds.  A second one
that reads nothing is refused, and one that asks for more than any machine grants is denied it. -/
theorem persist_differs_by_readSize :
    Parser.token.Stable ∧ wordWithTimeout.buffer.Valid ∧
      wordWithTimeout.buffer.size ≤ wordWithTimeout.buffer.limit ∧
      wordWithTimeout.source.Live ∧ wordWithTimeout.source.injections.length < 2 ∧
      ((wordWithTimeout.undisturbed wordWithTimeout.buffer.limit).parse Parser.token 1).answer =
        some (.ok (.value [0x41, 0x42])) ∧
      (persist Parser.token [1, 1] [] wordWithTimeout).map Run.answer =
        some (some (.ok (.value [0x41, 0x42]))) ∧
      (persist Parser.token [1, 0x2000000000000000] [] wordWithTimeout).map Run.answer =
        some (some (.error .outOfMemory)) ∧
      (persist Parser.token [1, 0] [] wordWithTimeout).map Run.answer =
        some (some (.error .zeroReadSize)) :=
  ⟨Parser.stable_token, Buffer.valid_unlimited, by decide, ⟨nofun, rfl⟩, by decide, rfl, rfl, rfl,
    rfl⟩

end Feed

end StreamParse
