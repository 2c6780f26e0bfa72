import TriCoreDap.Trace.Loss

/-!
# The loss count

As long as no paragraph is found overwritten by the pointer read after its
group, every paragraph that the writer completes is published, or counted in the
next record's loss, or pending.
-/

namespace TriCoreDap
namespace Trace

/-- The paragraph at the last poll that read `FIFONOW`, `prev` before this one. -/
def Poll.seenFrom (poll : Poll) (prev : Nat) : Nat :=
  if poll.word.isSome then poll.time / wordsPerPar else prev

/-- The paragraph at the last of some polls. -/
def seenAfter (prev : Nat) (polls : List Poll) : Nat :=
  polls.foldl (fun prev poll => poll.seenFrom prev) prev

/-- What holds at each poll that reads `FIFONOW`, of the paragraph at the poll
before. -/
def AlongPolls (holds : Nat → Poll → Prop) : (prev : Nat) → List Poll → Prop
  | _, [] => True
  | prev, poll :: rest =>
      (poll.word.isSome = true → holds prev poll) ∧
        AlongPolls holds (poll.seenFrom prev) rest

theorem AlongPolls.front
    {holds : Nat → Poll → Prop}
    {polls more : List Poll}
    (along : AlongPolls holds prev (polls ++ more)) : AlongPolls holds prev polls := by
  induction polls generalizing prev with
  | nil => trivial
  | cons poll rest inductionHypothesis => exact ⟨along.1, inductionHypothesis along.2⟩

namespace Follow

/-- The pass finds itself lapped. -/
def Lapped (total prev writer : Nat) : Prop :=
  total - 1 ≤ writer - prev ∧ writer - prev ≠ 0

instance (total prev writer : Nat) : Decidable (Lapped total prev writer) :=
  inferInstanceAs (Decidable (_ ∧ _))

/-- No paragraph that a pass reads from paragraph `prev` on is reached by the writer
before the pointer read after its group. -/
def Untorn (total prev writer : Nat) (nowPar : Nat → Nat) : Prop :=
  ¬Lapped total prev writer → ∀ i, i < toRead total ⟨prev, 0⟩ writer →
    nowPar (i / nowEvery) < prev + dropped total ⟨prev, 0⟩ writer + i + total

/-- How many paragraphs a pass gives up before it reads the first. -/
def givenUp (total : Nat) (reader : Reader) (writer : Nat) : Nat :=
  if Lapped total reader.next writer then writer - reader.next
  else dropped total reader writer

/-- A pass that is answered and finds nothing overwritten publishes all but what it
gives up and ends at the writer's paragraph. -/
theorem pass_untorn
    {reader : Reader}
    {fails : Nat → Bool}
    (behind : reader.next ≤ writer)
    (answered : ∀ chain, fails chain = false)
    (untorn : Untorn total reader.next writer nowPar) :
    pass total reader writer nowPar fails =
      let drop := givenUp total reader writer
      let count := writer - reader.next - drop
      { first := reader.next + drop
        count := count
        lost := reader.pending + drop
        counted := drop
        reader := ⟨writer, if count = 0 then reader.pending + drop else 0⟩
        stop := .complete } := by
  unfold pass givenUp
  by_cases lapped : Lapped total reader.next writer
  · rw [if_pos lapped]
    refine (if_pos lapped).trans ?_
    simp only [Nat.sub_self, if_true, Nat.add_sub_cancel' behind]
  · rw [if_neg lapped]
    refine (if_neg lapped).trans ?_
    have ends : Ends
        (intactAt total
          (reader.next + (writer - reader.next + traceMargin - total)) nowPar) fails
        (writer - reader.next - (writer - reader.next + traceMargin - total))
        .complete :=
      ⟨fun i bound => decide_eq_true (untorn lapped i bound), fun i _ _ => answered _⟩
    simp only [walk_eq_of_ends ends]
    rfl

theorem givenUp_le
    {reader : Reader}
    (enough : traceMargin ≤ total) :
    givenUp total reader writer ≤ writer - reader.next := by
  unfold givenUp dropped
  split
  · exact Nat.le_refl _
  · omega

/-- How many paragraphs the passes of some polls give up, the reader being at
paragraph `prev` before the first. -/
def givenUpIn (total : Nat) : (prev : Nat) → List Poll → Nat
  | _, [] => 0
  | prev, poll :: rest =>
      (if poll.word.isSome then givenUp total ⟨prev, 0⟩ (poll.time / wordsPerPar)
        else 0) +
        givenUpIn total (poll.seenFrom prev) rest

theorem givenUpIn_append (total prev : Nat) (polls more : List Poll) :
    givenUpIn total prev (polls ++ more) =
      givenUpIn total prev polls + givenUpIn total (seenAfter prev polls) more := by
  induction polls generalizing prev with
  | nil => exact (Nat.zero_add _).symm
  | cons poll rest inductionHypothesis =>
      rw [List.cons_append, givenUpIn, givenUpIn, inductionHypothesis, Nat.add_assoc]
      rfl

end Follow

namespace Session

variable {session : Session} {drain : Drain}

/-- From one poll to the next the writer advances by less than the buffer. -/
def SteadyPolls (session : Session) (polls : List Poll) : Prop :=
  AlongPolls (fun prev poll => prev ≤ poll.time / wordsPerPar ∧
    poll.time / wordsPerPar < prev + session.tram.totalPar) session.beginPar polls

/-- No poll's pass finds a paragraph overwritten. -/
def UntornPolls (session : Session) (polls : List Poll) : Prop :=
  AlongPolls (fun prev poll => Follow.Untorn session.tram.totalPar prev
    (poll.time / wordsPerPar) poll.timeline.nowPar) session.beginPar polls

/-- Each record holds the paragraph that comes as many paragraphs after the one
published before as the record says were lost; `start` is the first that none
accounts for at the start, `done` at the end. -/
def Counted (session : Session) : (start : Nat) → List Record → (done : Nat) → Prop
  | start, [], done => done = start
  | start, record :: rest, done =>
      session.Holds record (start + record.lost) ∧
        session.Counted (start + record.lost + 1) rest done

/-- The loss fields are exact, and what they do not say of the paragraphs before
`seen` is pending; the statistics are the sum of both. -/
structure Exact (session : Session) (seen : Nat) (drain : Drain) : Prop where
  counted : ∃ done, session.Counted session.beginPar drain.records done ∧
    done + drain.pendingLost = seen
  total : drain.stats.lost = (drain.records.map (·.lost)).sum + drain.pendingLost

theorem Counted.append
    (first : session.Counted start records mid)
    (second : session.Counted mid more done) :
    session.Counted start (records ++ more) done := by
  induction records generalizing start with
  | nil =>
      obtain rfl : mid = start := first
      exact second
  | cons record rest inductionHypothesis =>
      exact ⟨first.1, inductionHypothesis first.2⟩

/-- What is accounted for is published or lost. -/
theorem Counted.done_eq (counted : session.Counted start records done) :
    done = start + (records.map (·.lost)).sum + records.length := by
  induction records generalizing start with
  | nil => exact counted
  | cons record rest inductionHypothesis =>
      have later := inductionHypothesis counted.2
      rw [List.map_cons, List.sum_cons, List.length_cons]
      omega

/-- The records of a pass after its first. -/
theorem counted_later
    (seq first lost count i : Nat)
    (later : i ≠ 0) :
    session.Counted (first + i)
      ((List.range' i count).map (recordOf session.tram seq first lost))
      (first + i + count) := by
  induction count generalizing i with
  | zero => rfl
  | succ count inductionHypothesis =>
      rw [List.range'_succ, List.map_cons]
      have nothing : (recordOf session.tram seq first lost i).lost = 0 := if_neg later
      refine ⟨?_, ?_⟩
      · rw [nothing]
        exact recordOf_holds ..
      · rw [nothing, show first + i + (count + 1) = first + (i + 1) + count by omega]
        exact inductionHypothesis (i + 1) (by omega)

/-- The records of a pass. -/
theorem counted_recordOf
    (seq lost count : Nat) :
    session.Counted start
      ((List.range (count + 1)).map
        (recordOf session.tram seq (start + lost) lost))
      (start + lost + (count + 1)) := by
  rw [List.range_eq_range', List.range'_succ, List.map_cons]
  have all : (recordOf session.tram seq (start + lost) lost 0).lost = lost := rfl
  refine ⟨?_, ?_⟩
  · rw [all]
    exact recordOf_holds ..
  · rw [all, show start + lost + (count + 1) = start + lost + 1 + count by omega]
    exact counted_later seq (start + lost) lost count 1 (by decide)

theorem sum_later (tram : Tram) (seq first lost count i : Nat) (later : i ≠ 0) :
    (((List.range' i count).map (recordOf tram seq first lost)).map (·.lost)).sum = 0 := by
  induction count generalizing i with
  | zero => rfl
  | succ count inductionHypothesis =>
      have nothing : (recordOf tram seq first lost i).lost = 0 := if_neg later
      rw [List.range'_succ, List.map_cons, List.map_cons, List.sum_cons, nothing,
        inductionHypothesis (i + 1) (by omega)]

theorem sum_recordOf (tram : Tram) (seq first lost count : Nat) :
    (((List.range (count + 1)).map (recordOf tram seq first lost)).map (·.lost)).sum =
      lost := by
  rw [List.range_eq_range', List.range'_succ, List.map_cons, List.map_cons, List.sum_cons,
    sum_later _ _ _ _ _ _ (by decide)]
  rfl

theorem Exact.holds_second
    (exact : session.Exact seen drain)
    (records_eq : drain.records = first :: second :: more) :
    session.Holds second (session.beginPar + first.lost + 1 + second.lost) := by
  obtain ⟨done, counted, -⟩ := exact.counted
  rw [records_eq] at counted
  exact counted.2.1

/-- The count stays exact when a pass gives up `drop` paragraphs and publishes the
`count` that follow. -/
theorem Exact.append
    {after : Drain}
    (exact : session.Exact seen drain)
    (records_eq : after.records = drain.records ++
      (List.range count).map
        (recordOf session.tram seq (seen + drop) (drain.pendingLost + drop)))
    (pending_eq : after.pendingLost =
      if count = 0 then drain.pendingLost + drop else 0)
    (total_eq : after.stats.lost = drain.stats.lost + drop) :
    session.Exact (seen + drop + count) after := by
  obtain ⟨done, counted, pending⟩ := exact.counted
  have total := exact.total
  cases count with
  | zero =>
      rw [List.range_zero, List.map_nil, List.append_nil] at records_eq
      rw [if_pos rfl] at pending_eq
      refine ⟨⟨done, records_eq ▸ counted, ?_⟩, ?_⟩
      · omega
      · rw [records_eq]
        omega
  | succ count =>
      rw [if_neg (Nat.succ_ne_zero _)] at pending_eq
      have first_eq : seen + drop = done + (drain.pendingLost + drop) := by omega
      rw [first_eq] at records_eq
      refine ⟨⟨done + (drain.pendingLost + drop) + (count + 1), ?_, ?_⟩, ?_⟩
      · rw [records_eq]
        exact counted.append (counted_recordOf ..)
      · omega
      · rw [records_eq, List.map_append, List.sum_append, sum_recordOf]
        omega

/-- The drain stands at the writer's paragraph of the last poll and has counted all
that it has not published; `given` paragraphs were given up so far. -/
structure Tally (session : Session) (seen given : Nat) (drain : Drain) : Prop where
  stands : drain.Stands session.tram ⟨seen, drain.pendingLost⟩
  exact : session.Exact seen drain
  given_eq : drain.stats.lost = given

/-- A pass that finds nothing overwritten keeps the tally. -/
theorem Tally.drainTo
    {timeline : Timeline}
    (tally : session.Tally seen given drain)
    (sound : session.tram.Sound)
    (points : session.tram.Points word time)
    (paced : timeline.Paced session.tram time)
    (within : seen ≤ time / wordsPerPar ∧
      time / wordsPerPar < seen + session.tram.totalPar)
    (answered : ∀ chain, timeline.fails chain = false)
    (untorn : Follow.Untorn session.tram.totalPar seen (time / wordsPerPar)
      timeline.nowPar)
    (short : given + Follow.givenUp session.tram.totalPar ⟨seen, 0⟩
      (time / wordsPerPar) < 2 ^ 32)
    (ovr : Nat) :
    session.Tally (time / wordsPerPar)
      (given + Follow.givenUp session.tram.totalPar ⟨seen, 0⟩ (time / wordsPerPar))
      (drain.drainTo (timeline.link session.tram session.tail) (word &&& ptrMask)
        ovr).1 := by
  obtain ⟨behind, lap⟩ := within
  have follows := Drain.drainTo_follows tally.stands sound points ⟨behind, lap⟩ paced
    session.tail ovr
  generalize (Drain.drainTo _ drain _ _).1 = passed at follows ⊢
  rw [Follow.pass_untorn behind answered untorn] at follows
  have drop_le : Follow.givenUp session.tram.totalPar ⟨seen, 0⟩ (time / wordsPerPar) ≤
      time / wordsPerPar - seen :=
    Follow.givenUp_le sound.enough
  have same : Follow.givenUp session.tram.totalPar ⟨seen, drain.pendingLost⟩
      (time / wordsPerPar) =
        Follow.givenUp session.tram.totalPar ⟨seen, 0⟩ (time / wordsPerPar) := rfl
  rw [same] at follows
  generalize Follow.givenUp session.tram.totalPar ⟨seen, 0⟩ (time / wordsPerPar) = drop
    at follows drop_le short ⊢
  have given_eq := tally.given_eq
  have total := tally.exact.total
  have pending_eq := follows.stands.pending_eq
  have records_eq := follows.records_eq
  have total_eq := follows.counted_eq
  simp only at pending_eq records_eq total_eq drop_le
  rw [u32_of_lt (by omega)] at records_eq total_eq
  have exact := tally.exact.append records_eq
    (by rw [pending_eq]; split <;> exact u32_of_lt (by omega)) total_eq
  rw [show seen + drop + (time / wordsPerPar - seen - drop) = time / wordsPerPar by
    omega] at exact
  refine ⟨⟨follows.stands.fits, follows.stands.next_eq, ?_, follows.stands.seq_lt,
    follows.stands.lost_lt⟩, exact, by omega⟩
  rw [pending_eq, u32_u32]

/-- The tally does not concern the drain's other counters. -/
theorem Tally.congr
    {after : Drain}
    (tally : session.Tally seen given drain)
    (geometry : after.bot = drain.bot ∧ after.span = drain.span)
    (next_eq : after.nextPar = drain.nextPar)
    (pending_eq : after.pendingLost = drain.pendingLost)
    (seq_eq : after.seq = drain.seq)
    (lost_eq : after.stats.lost = drain.stats.lost)
    (records_eq : after.records = drain.records) :
    session.Tally seen given after := by
  refine ⟨⟨⟨?_, ?_⟩, ?_, ?_, ?_, ?_⟩, ⟨?_, ?_⟩, ?_⟩
  · exact geometry.1.trans tally.stands.fits.bot_eq
  · exact geometry.2.trans tally.stands.fits.span_eq
  · exact next_eq.trans tally.stands.next_eq
  · rw [pending_eq]
    exact tally.stands.pending_eq
  · rw [seq_eq]
    exact tally.stands.seq_lt
  · rw [lost_eq]
    exact tally.stands.lost_lt
  · rw [records_eq, pending_eq]
    exact tally.exact.counted
  · rw [records_eq, pending_eq, lost_eq]
    exact tally.exact.total
  · exact lost_eq.trans tally.given_eq

/-- A poll that finds nothing overwritten keeps the tally. -/
theorem Tally.step
    (tally : session.Tally seen given drain)
    (running : drain.running = true)
    (sound : session.tram.Sound)
    (points : ∀ word, poll.word = some word → session.tram.Points word poll.time)
    (paced : poll.timeline.Paced session.tram poll.time)
    (answered : ∀ chain, poll.timeline.fails chain = false)
    (within : poll.word.isSome = true → seen ≤ poll.time / wordsPerPar ∧
      poll.time / wordsPerPar < seen + session.tram.totalPar)
    (untorn : poll.word.isSome = true →
      Follow.Untorn session.tram.totalPar seen (poll.time / wordsPerPar)
        poll.timeline.nowPar)
    (short : given + Follow.givenUpIn session.tram.totalPar seen [poll] < 2 ^ 32) :
    session.Tally (poll.seenFrom seen)
      (given + Follow.givenUpIn session.tram.totalPar seen [poll])
      (session.step drain poll) := by
  unfold Session.step
  rw [Follow.givenUpIn, Follow.givenUpIn, Nat.add_zero] at short ⊢
  unfold Poll.seenFrom
  cases word_eq : poll.word with
  | none =>
      rw [Drain.poll_none running]
      exact tally.congr ⟨rfl, rfl⟩ rfl rfl rfl rfl rfl
  | some word =>
      rw [Drain.poll_some running]
      have read : poll.word.isSome = true := by rw [word_eq]; rfl
      rw [if_pos read] at short
      have polled : session.Tally seen given
          { drain with polls := u32 (drain.polls + 1) } :=
        tally.congr ⟨rfl, rfl⟩ rfl rfl rfl rfl rfl
      exact polled.drainTo sound (points word word_eq) paced (within read) answered
        (untorn read) short _

/-- A poll leaves the drain running. -/
theorem running_step (running : drain.running = true) :
    (session.step drain poll).running = true := by
  unfold Session.step
  cases poll.word with
  | none =>
      rw [Drain.poll_none running]
      exact running
  | some word =>
      rw [Drain.poll_some running]
      exact (Drain.running_drainTo ..).trans running

/-- Polls that find nothing overwritten keep the tally. -/
theorem Tally.foldl
    {polls : List Poll}
    (tally : session.Tally seen given drain)
    (running : drain.running = true)
    (sound : session.tram.Sound)
    (points : ∀ poll ∈ polls, ∀ word, poll.word = some word →
      session.tram.Points word poll.time)
    (paced : ∀ poll ∈ polls, poll.timeline.Paced session.tram poll.time)
    (answered : ∀ poll ∈ polls, ∀ chain, poll.timeline.fails chain = false)
    (steady : AlongPolls (fun prev poll => prev ≤ poll.time / wordsPerPar ∧
      poll.time / wordsPerPar < prev + session.tram.totalPar) seen polls)
    (untorn : AlongPolls (fun prev poll => Follow.Untorn session.tram.totalPar prev
      (poll.time / wordsPerPar) poll.timeline.nowPar) seen polls)
    (short : given + Follow.givenUpIn session.tram.totalPar seen polls < 2 ^ 32) :
    session.Tally (seenAfter seen polls)
        (given + Follow.givenUpIn session.tram.totalPar seen polls)
        (polls.foldl session.step drain) ∧
      (polls.foldl session.step drain).running = true := by
  induction polls generalizing seen given drain with
  | nil => exact ⟨tally, running⟩
  | cons poll rest inductionHypothesis =>
      have split_eq : Follow.givenUpIn session.tram.totalPar seen (poll :: rest) =
          Follow.givenUpIn session.tram.totalPar seen [poll] +
            Follow.givenUpIn session.tram.totalPar (poll.seenFrom seen) rest :=
        Follow.givenUpIn_append session.tram.totalPar seen [poll] rest
      rw [split_eq, ← Nat.add_assoc] at short ⊢
      have stepped := tally.step running sound (points poll List.mem_cons_self)
        (paced poll List.mem_cons_self) (answered poll List.mem_cons_self) steady.1
        untorn.1 (by omega)
      exact inductionHypothesis stepped (running_step running)
        (fun later member => points later (List.mem_cons_of_mem _ member))
        (fun later member => paced later (List.mem_cons_of_mem _ member))
        (fun later member => answered later (List.mem_cons_of_mem _ member))
        steady.2 untorn.2 short

/-- At `trace_begin` there is nothing to count. -/
theorem tally_started (sound : session.Sound) :
    session.Tally session.beginPar 0 session.started := by
  rw [started_eq sound]
  exact ⟨⟨⟨rfl, rfl⟩, sound.begins, rfl, rfl, rfl⟩,
    ⟨⟨session.beginPar, rfl, Nat.add_zero _⟩, rfl⟩, rfl⟩

/-- No block read of the session fails. -/
structure Answered (session : Session) : Prop where
  polls : ∀ poll ∈ session.polls, ∀ chain, poll.timeline.fails chain = false
  finish : ∀ chain, session.finish.timeline.fails chain = false
  last : session.finish.lastFails = false

/-- The paragraph the drain stands at when `dap_trace_finish` is called. -/
def seenPar (session : Session) : Nat := seenAfter session.beginPar session.polls

/-- `dap_trace_finish` reads the pointer, leaves no complete paragraph behind and
reads the last one before the writer is a lap past it. -/
structure EndsCaughtUp (session : Session) : Prop where
  read : session.finish.word.isSome = true
  within : session.seenPar ≤ session.finishPar ∧
    session.finishPar < session.seenPar + session.tram.totalPar
  catchesUp : Follow.CatchesUp session.tram.totalPar
    ⟨session.seenPar, session.drained.pendingLost⟩ session.finishPar
    session.finish.timeline.nowPar session.finish.timeline.fails
  lastWithin : ∀ j,
    session.finish.lastTime j / wordsPerPar <
      session.finishPar + session.tram.totalPar

/-- The last record accounts for the paragraph the writer is in. -/
theorem Tally.finished
    (tally : session.Tally session.seenPar given session.drained)
    (sound : session.Sound)
    (answered : session.Answered)
    (caught : session.EndsCaughtUp)
    (short : given + Follow.givenUp session.tram.totalPar ⟨session.seenPar, 0⟩
      session.finishPar < 2 ^ 32) :
    session.Exact (session.finishPar + 1) session.finished := by
  obtain ⟨word, word_eq⟩ := Option.isSome_iff_exists.mp caught.read
  have points := sound.finish_points word word_eq
  have spanPos : session.drained.span ≠ 0 := by
    rw [tally.stands.fits.span_eq, sound.tram.whole, paragraph_eq]
    have := sound.tram.totalPar_pos
    omega
  have again : session.Tally session.seenPar given
      { session.drained with running := true } :=
    tally.congr ⟨rfl, rfl⟩ rfl rfl rfl rfl rfl
  have passed_tally := again.drainTo sound.tram points sound.finish_paced caught.within
    answered.finish (fun _ i bound => caught.catchesUp.intact i bound) short
    session.drained.lastOvrcnt
  have follows := Drain.drainTo_follows again.stands sound.tram points
    ⟨caught.within.1, caught.within.2⟩ sound.finish_paced session.tail
    session.drained.lastOvrcnt
  have nothing := follows.stands.pending_eq
  have caught_eq := caught.catchesUp.reader_eq caught.within.1 sound.tram.enough
  rw [finishPar] at caught_eq
  rw [Session.finished, word_eq, Drain.traceFinish_of_passed spanPos rfl]
  generalize (Drain.drainTo _ { session.drained with running := true } _ _).1 =
    passed at passed_tally nothing ⊢
  rw [caught_eq] at nothing
  replace nothing : passed.pendingLost = 0 := nothing
  rw [passed_tally.stands.fits.parOf_points points]
  simp only [last, answered.last, Bool.false_eq_true, if_false, List.flatMap_singleton]
  obtain ⟨done, counted, pending⟩ := passed_tally.exact.counted
  have total := passed_tally.exact.total
  rw [nothing, Nat.add_zero] at pending total
  rw [pending] at counted
  refine ⟨⟨session.finishPar + 1, ?_, ?_⟩, ?_⟩
  · rw [Drain.records_publishFlags]
    refine counted.append ⟨holds_final fun j indexLt written => ?_, rfl⟩
    rw [passed_tally.stands.fits.bot_eq]
    exact last_words sound caught.lastWithin indexLt written
  · rw [Drain.pendingLost_publishFlags]
    show session.finishPar + 1 + passed.pendingLost = session.finishPar + 1
    rw [nothing]
  · rw [Drain.records_publishFlags, Drain.pendingLost_publishFlags,
      Drain.statsLost_publishFlags, List.map_append, List.sum_append]
    show passed.stats.lost = (passed.records.map (·.lost)).sum + 0 + passed.pendingLost
    rw [nothing, total]
    rfl

/-- The loss fields and the total are exact after every poll, and at the end of the
trace, as long as no paragraph is found overwritten by the pointer read after its
group, fewer than 2^32 paragraphs are lost, and `dap_trace_finish` leaves no complete
paragraph behind. -/
theorem loss_count_exact
    (sound : session.Sound)
    (steady : session.SteadyPolls session.polls)
    (answered : session.Answered)
    (untorn : session.UntornPolls session.polls)
    (short : Follow.givenUpIn session.tram.totalPar session.beginPar session.polls +
      Follow.givenUp session.tram.totalPar ⟨session.seenPar, 0⟩ session.finishPar <
        2 ^ 32) :
    (∀ polls, polls <+: session.polls →
        session.Exact (seenAfter session.beginPar polls)
          (polls.foldl session.step session.started)) ∧
      (session.EndsCaughtUp →
        session.Exact (session.finishPar + 1) session.finished) := by
  have running : session.started.running = true := (tracks_started sound).running
  constructor
  · rintro polls ⟨rest, all⟩
    have member (poll : Poll) (read : poll ∈ polls) : poll ∈ session.polls :=
      all ▸ List.mem_append_left rest read
    rw [SteadyPolls, ← all] at steady
    rw [UntornPolls, ← all] at untorn
    rw [← all, Follow.givenUpIn_append] at short
    exact ((tally_started sound).foldl running sound.tram
      (fun poll read => sound.points poll (member poll read))
      (fun poll read => sound.paced poll (member poll read))
      (fun poll read => answered.polls poll (member poll read))
      steady.front untorn.front (by omega)).1.exact
  · intro caught
    have polled := (tally_started sound).foldl running sound.tram sound.points
      sound.paced answered.polls steady untorn (by omega)
    exact polled.1.finished sound answered caught (by rwa [Nat.zero_add])

theorem loss_count_exact_instant :
    (instant 0 [1536] 2048).Exact 9 (instant 0 [1536] 2048).finished := by
  have totalPar_eq : (instant 0 [1536] 2048).tram.totalPar = 8 := by decide
  have pending_eq : (instant 0 [1536] 2048).drained.pendingLost = 0 := by decide +kernel
  have seenPar_eq : (instant 0 [1536] 2048).seenPar = 6 := by decide
  have finishPar_eq : (instant 0 [1536] 2048).finishPar = 8 := by decide
  refine (loss_count_exact instant_sound ?_ ?_ ?_ ?_).2 ?_
  · exact ⟨fun _ => ⟨by decide, by decide⟩, trivial⟩
  · refine ⟨?_, fun _ => rfl, rfl⟩
    intro poll member
    obtain ⟨time, -, rfl⟩ := List.mem_map.mp member
    exact fun _ => rfl
  · refine ⟨fun _ _ i _ => ?_, trivial⟩
    rw [totalPar_eq]
    show 1536 / wordsPerPar < 0 / wordsPerPar + 1 + i + 8
    rw [wordsPerPar_eq]
    omega
  · decide
  · refine ⟨rfl, ?_, ?_, ?_⟩
    · rw [seenPar_eq, finishPar_eq, totalPar_eq]
      decide
    · rw [seenPar_eq, finishPar_eq, totalPar_eq, pending_eq]
      refine ⟨by decide, by decide, fun i _ => ?_, fun _ _ => rfl⟩
      show 2048 / wordsPerPar < 6 + 0 + i + 8
      rw [wordsPerPar_eq]
      omega
    · intro _
      rw [finishPar_eq, totalPar_eq]
      show 2048 / wordsPerPar < 8 + 8
      decide

/-- The pointer after each group of a pass is read three paragraphs later. -/
def overtaking : Timeline where
  paragraphTime _ _ := 1536
  nowTime _ := 2304
  nowWord _ := 4 * 2304
  fails _ := false

/-- Polls in paragraphs 1, 6 and 10, the second of which is overtaken. -/
def overtaken : Session :=
  { instant 0 [] 2816 with
    polls := (instant 0 [256] 0).polls ++
      { time := 1536, word := some (4 * 1536), ovr := some 0, timeline := overtaking } ::
        (instant 0 [2560] 0).polls }

theorem overtaken_sound : overtaken.Sound := by
  have same : (instant 0 [] 2816).Sound := instant_sound
  have before : (instant 0 [256] 0).Sound := instant_sound
  have after : (instant 0 [2560] 0).Sound := instant_sound
  refine ⟨same.tram, same.top_lt, same.span_lt, same.begins, ?_, ?_, same.finish_points,
    same.finish_paced, same.last_after⟩
  · intro poll member
    rcases List.mem_append.mp member with first | later
    · exact before.points poll first
    rcases List.mem_cons.mp later with rfl | last
    · intro word word_eq
      obtain rfl := Option.some.inj word_eq
      exact Tram.counting_points 1536
    · exact after.points poll last
  · intro poll member
    rcases List.mem_append.mp member with first | later
    · exact before.paced poll first
    rcases List.mem_cons.mp later with rfl | last
    · refine ⟨?_, ?_, ?_, ?_, fun _ => Tram.counting_points 2304, ?_, ?_⟩
      · exact fun _ _ => Nat.le_refl 1536
      · exact fun _ _ => (by decide : 1536 ≤ 2304)
      · exact (by decide : 1536 ≤ 2304)
      · exact fun _ => Nat.le_refl 2304
      · exact (by decide : 2304 / wordsPerPar < 1536 / wordsPerPar + Tram.counting.totalPar)
      · exact fun _ => Nat.lt_add_of_pos_right Tram.counting_sound.totalPar_pos
    · exact after.paced poll last

/-- In the run of `overtaken` paragraph 9 is published after paragraph 0 with five
paragraphs lost: the three that the writer completed while the second pass read are
not counted. -/
theorem loss_count_short :
    overtaken.Sound ∧ overtaken.SteadyPolls overtaken.polls ∧ overtaken.Answered ∧
      overtaken.finished.published.all (·.inRing) = true ∧
        ¬overtaken.Exact overtaken.seenPar overtaken.drained := by
  refine ⟨overtaken_sound, ?_, ?_, ?_, ?_⟩
  · exact ⟨fun _ => ⟨by decide, by decide⟩, fun _ => ⟨by decide, by decide⟩,
      fun _ => ⟨by decide, by decide⟩, trivial⟩
  · refine ⟨?_, fun _ => rfl, rfl⟩
    intro poll member
    simp only [overtaken, instant, List.map_cons, List.map_nil, List.cons_append,
      List.nil_append, List.mem_cons, List.not_mem_nil, or_false] at member
    rcases member with rfl | rfl | rfl <;> exact fun _ => rfl
  · decide +kernel
  · have published : overtaken.drained.records.map
        (fun record => (record.lost, record.isFinal, record.words[0]?)) =
          [(0, false, some 0), (5, false, some 2304)] := by
      decide +kernel
    obtain ⟨first, rest, records_eq, first_eq, rest_eq⟩ :=
      List.map_eq_cons_iff.mp published
    obtain ⟨second, more, rfl, second_eq, -⟩ := List.map_eq_cons_iff.mp rest_eq
    simp only [Prod.mk.injEq] at first_eq second_eq
    obtain ⟨second_lost, second_last, second_word⟩ := second_eq
    intro exact
    have holds := exact.holds_second records_eq
    rw [Holds, second_last, first_eq.1, second_lost] at holds
    have words_eq : second.words = Tram.counting.paragraphWords 6 := holds
    rw [words_eq, Tram.paragraphWords, List.getElem?_map,
      List.getElem?_range (by decide)] at second_word
    exact absurd (Option.some.inj second_word) (by decide)

end Session
end Trace
end TriCoreDap
